/-! Types of beans and sockets: nominal types with arguments, arrays, the variables of a
declaration's supertypes, and types that could not be resolved.  An argument is a type, a wildcard
with an upper or a lower bound, or the free wildcard. -/

namespace Wiring

mutual

inductive TypeExpr
  | declared (name : String) (args : List TypeArg)
  | array (component : TypeExpr)
  | variable (name : String)
  | unresolved (name : String)

inductive TypeArg
  | exact (type : TypeExpr)
  /-- Any subtype of the bound. -/
  | upTo (bound : TypeExpr)
  /-- Any supertype of the bound. -/
  | downTo (bound : TypeExpr)
  | unbounded

end

/-! ### Equality -/

mutual

def TypeExpr.decEq : (a b : TypeExpr) → Decidable (a = b)
  | .declared n as, .declared m bs =>
    if h : n = m then
      match TypeArg.listDecEq as bs with
      | isTrue h' => isTrue (by rw [h, h'])
      | isFalse h' => isFalse (by simp [h'])
    else isFalse (by simp [h])
  | .array s, .array t =>
    match TypeExpr.decEq s t with
    | isTrue h => isTrue (by rw [h])
    | isFalse h => isFalse (by simp [h])
  | .variable n, .variable m =>
    if h : n = m then isTrue (by rw [h]) else isFalse (by simp [h])
  | .unresolved n, .unresolved m =>
    if h : n = m then isTrue (by rw [h]) else isFalse (by simp [h])
  | .declared .., .array .. | .declared .., .variable .. | .declared .., .unresolved ..
  | .array .., .declared .. | .array .., .variable .. | .array .., .unresolved ..
  | .variable .., .declared .. | .variable .., .array .. | .variable .., .unresolved ..
  | .unresolved .., .declared .. | .unresolved .., .array .. | .unresolved .., .variable .. =>
    isFalse (by simp)

def TypeArg.decEq : (a b : TypeArg) → Decidable (a = b)
  | .exact s, .exact t | .upTo s, .upTo t | .downTo s, .downTo t =>
    match TypeExpr.decEq s t with
    | isTrue h => isTrue (by rw [h])
    | isFalse h => isFalse (by simp [h])
  | .unbounded, .unbounded => isTrue rfl
  | .exact .., .upTo .. | .exact .., .downTo .. | .exact .., .unbounded
  | .upTo .., .exact .. | .upTo .., .downTo .. | .upTo .., .unbounded
  | .downTo .., .exact .. | .downTo .., .upTo .. | .downTo .., .unbounded
  | .unbounded, .exact .. | .unbounded, .upTo .. | .unbounded, .downTo .. =>
    isFalse (by simp)

def TypeArg.listDecEq : (as bs : List TypeArg) → Decidable (as = bs)
  | [], [] => isTrue rfl
  | a :: as, b :: bs =>
    match TypeArg.decEq a b, TypeArg.listDecEq as bs with
    | isTrue h, isTrue h' => isTrue (by rw [h, h'])
    | isFalse h, _ => isFalse (by simp [h])
    | _, isFalse h => isFalse (by simp [h])
  | [], _ :: _ | _ :: _, [] => isFalse (by simp)

end

instance : DecidableEq TypeExpr := TypeExpr.decEq

instance : DecidableEq TypeArg := TypeArg.decEq

/-! ### Parts -/

namespace TypeExpr

/-- A nominal type without arguments. -/
def named (name : String) : TypeExpr := .declared name []

/-- The name of a nominal type. -/
def nominal? : TypeExpr → Option String
  | .declared name _ => some name
  | _ => none

def args : TypeExpr → List TypeArg
  | .declared _ args => args
  | _ => []

/-- The type without any arguments. -/
def erasure : TypeExpr → TypeExpr
  | .declared name _ => .named name
  | .array component => .array component.erasure
  | t => t

end TypeExpr

/-- The type that a wildcard or an exact argument speaks of. -/
def TypeArg.bound? : TypeArg → Option TypeExpr
  | .exact t | .upTo t | .downTo t => some t
  | .unbounded => none

/-! ### Types with unresolved parts -/

mutual

/-- Whether some part of the type could not be resolved. -/
def TypeExpr.isMalformed : TypeExpr → Bool
  | .unresolved _ => true
  | .array component => component.isMalformed
  | .declared _ args => TypeArg.anyMalformed args
  | .variable _ => false

def TypeArg.isMalformed : TypeArg → Bool
  | .exact t | .upTo t | .downTo t => t.isMalformed
  | .unbounded => false

def TypeArg.anyMalformed : List TypeArg → Bool
  | [] => false
  | a :: as => a.isMalformed || TypeArg.anyMalformed as

end

/-! ### Written form -/

mutual

def TypeExpr.text : TypeExpr → String
  | .declared name [] => name
  | .declared name (arg :: args) => name ++ "<" ++ arg.text ++ TypeArg.restText args ++ ">"
  | .array component => component.text ++ "[]"
  | .variable name => name
  | .unresolved name => "<unresolved " ++ name ++ ">"

def TypeArg.text : TypeArg → String
  | .exact t => t.text
  | .upTo t => "? extends " ++ t.text
  | .downTo t => "? super " ++ t.text
  | .unbounded => "?"

/-- The arguments after the first, each with a comma before it. -/
def TypeArg.restText : List TypeArg → String
  | [] => ""
  | a :: as => ", " ++ a.text ++ TypeArg.restText as

end

/-! ### Substitution -/

/-- What the variables of a type stand for; a later binding of a variable replaces an earlier. -/
abbrev Bindings := List (String × TypeArg)

def Bindings.find? (bindings : Bindings) (name : String) : Option TypeArg :=
  (bindings.reverse.find? (·.1 = name)).map (·.2)

/-- The upper bound after its type has become `arg`. -/
def TypeArg.asUpper : TypeArg → TypeArg
  | .exact t | .upTo t => .upTo t
  | .downTo _ | .unbounded => .unbounded

/-- The lower bound after its type has become `arg`. -/
def TypeArg.asLower : TypeArg → TypeArg
  | .exact t | .downTo t => .downTo t
  | .upTo _ | .unbounded => .unbounded

mutual

/-- The type with its bound variables replaced.  A variable may stand for a wildcard, so the result
is an argument; an array whose component becomes a wildcard is left as it is. -/
def TypeExpr.substitute (bindings : Bindings) : TypeExpr → TypeArg
  | .variable name => (bindings.find? name).getD (.exact (.variable name))
  | .declared name args => .exact (.declared name (TypeArg.substituteAll bindings args))
  | .array component =>
    match component.substitute bindings with
    | .exact c => .exact (.array c)
    | _ => .exact (.array component)
  | .unresolved name => .exact (.unresolved name)

/-- A wildcard whose bound becomes another wildcard keeps its own kind where the two agree. -/
def TypeArg.substitute (bindings : Bindings) : TypeArg → TypeArg
  | .exact t => t.substitute bindings
  | .upTo t => (t.substitute bindings).asUpper
  | .downTo t => (t.substitute bindings).asLower
  | .unbounded => .unbounded

def TypeArg.substituteAll (bindings : Bindings) : List TypeArg → List TypeArg
  | [] => []
  | a :: as => a.substitute bindings :: TypeArg.substituteAll bindings as

end

end Wiring
