import Wiring.Hierarchy

/-! Which types can stand for which.  Assignability is nominal and covariant: a declared type
reaches a target of its own name when the arguments agree, and any other target through its
supertypes.  The search keeps the types it has expanded and goes at most 64 steps deep, so that
cyclic and expanding declarations end. -/

namespace Wiring

def TypeExpr.isVariable : TypeExpr → Bool
  | .variable _ => true
  | _ => false

/-- Whether the argument `outer` of a target contains the argument `inner` of a source, for a given
test of subtyping. -/
def TypeArg.contains (isTop : TypeExpr → Bool) (subtype : TypeExpr → TypeExpr → Bool) :
    (outer inner : TypeArg) → Bool
  | .unbounded, _ => true
  | .exact t, .exact s => t = s
  | .upTo t, .exact s => subtype s t
  | .upTo t, .upTo s => subtype s t
  | .upTo t, .unbounded => isTop t
  | .upTo t, .downTo _ => isTop t
  | .downTo t, .exact s => subtype t s
  | .downTo t, .downTo s => subtype t s
  | _, _ => false

namespace Hierarchy

/-- Runs a test with memory over some types until one of them passes it. -/
def firstPassing (test : TypeExpr → List TypeExpr → Bool × List TypeExpr) :
    List TypeExpr → List TypeExpr → Bool × List TypeExpr
  | [], seen => (false, seen)
  | t :: ts, seen =>
    match test t seen with
    | (true, seen) => (true, seen)
    | (false, seen) => firstPassing test ts seen

/-- Whether the target arguments contain the source arguments one by one.  A type without arguments
agrees with any. -/
def argsContained (isTop : TypeExpr → Bool) (subtype : TypeExpr → TypeExpr → Bool)
    (source target : List TypeArg) : Bool :=
  source.isEmpty || target.isEmpty ||
    (source.length == target.length &&
      (source.zip target).all fun (s, t) => TypeArg.contains isTop subtype t s)

/-- Assignability with at most `depth` nested steps, and the declared types expanded on the way
after those in `seen`, none of which is expanded again. -/
def search (h : Hierarchy) :
    (depth : Nat) → (source target : TypeExpr) → List TypeExpr → Bool × List TypeExpr
  | 0, _, _, seen => (false, seen)
  | depth + 1, source, target, seen =>
    if source.isVariable || target.isVariable then (decide (source = target), seen)
    else if h.isTop target then (true, seen)
    else
      match source, target with
      | .array s, .array t => h.search depth s t seen
      | .declared sn sa, .declared tn ta =>
        if sn = tn then
          (argsContained h.isTop (fun s t => (h.search depth s t []).1) sa ta, seen)
        else if source ∈ seen then (false, seen)
        else firstPassing (fun s seen => h.search depth s target seen) (h.supertypes sn sa)
          (source :: seen)
      | _, _ => (false, seen)

def maxDepth : Nat := 64

def isAssignable (h : Hierarchy) (source target : TypeExpr) : Bool :=
  (h.search (maxDepth + 1) source target []).1

end Hierarchy

/-! ### Verdicts on candidates -/

/-- A comparison in which an unresolved type takes part is neither a match nor a failure. -/
inductive Verdict
  | compatible
  | incompatible
  | indeterminate
deriving DecidableEq

def Verdict.ofBool : Bool → Verdict
  | true => .compatible
  | false => .incompatible

namespace Hierarchy

/-- Whether a value of the type `candidate` can stand where `required` is expected. -/
def check (h : Hierarchy) (candidate required : TypeExpr) : Verdict :=
  if candidate.isMalformed || required.isMalformed then .indeterminate
  else .ofBool (h.isAssignable candidate required)

/-- Whether `candidate` satisfies a component type, which may be a wildcard. -/
def accepts (h : Hierarchy) (component : TypeArg) (candidate : TypeExpr) : Verdict :=
  if candidate.isMalformed || component.isMalformed then .indeterminate
  else
    .ofBool <|
      match component with
      | .exact bound | .upTo bound => h.isAssignable candidate bound
      | .downTo bound => h.isAssignable bound candidate
      | .unbounded => true

end Hierarchy

end Wiring
