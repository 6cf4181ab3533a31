import Wiring.Hierarchy

/-! How many beans a socket takes.  It follows from the required type alone: arrays and the three
known containers, compared by name, take many, everything else takes one. -/

namespace Wiring

inductive Multiplicity
  | single
  | array
  | list
  | set
  | collection
deriving DecidableEq

namespace Multiplicity

def isMulti (m : Multiplicity) : Bool := m != .single

def text : Multiplicity → String
  | .single => "single"
  | .array => "array"
  | .list => "list"
  | .set => "set"
  | .collection => "collection"

end Multiplicity

/-- The multiplicity of a socket that requires the type. -/
def KnownTypes.multiplicity (known : KnownTypes) : TypeExpr → Multiplicity
  | .array _ => .array
  | .declared name _ =>
    if name = known.list then .list
    else if name = known.set then .set
    else if name = known.collection then .collection
    else .single
  | _ => .single

/-- The type that each bean for a socket of this required type has to satisfy.  A container without
an argument takes any bean. -/
def KnownTypes.component (known : KnownTypes) (required : TypeExpr) : TypeArg :=
  match known.multiplicity required, required with
  | .single, _ => .exact required
  | .array, .array component => .exact component
  | _, _ => required.args.head?.getD .unbounded

end Wiring
