import Wiring.TypeExpr

/-! The declared types of a compilation unit with their direct supertypes, and the nominal names
with a meaning of their own: the three containers and the top type. -/

namespace Wiring

/-- A nominal type; its supertypes may mention the parameters as variables. -/
structure TypeDeclaration where
  name : String
  parameters : List String
  supertypes : List TypeExpr
deriving DecidableEq

/-- A socket of one of the three container types takes many beans; every type that is not a variable
is assignable to the top type. -/
structure KnownTypes where
  list : String := "java.util.List"
  set : String := "java.util.Set"
  collection : String := "java.util.Collection"
  top : String := "java.lang.Object"
deriving DecidableEq

structure Hierarchy where
  declarations : List TypeDeclaration
  known : KnownTypes

namespace Hierarchy

/-- A later declaration of a name replaces an earlier one. -/
def find? (h : Hierarchy) (name : String) : Option TypeDeclaration :=
  h.declarations.reverse.find? (·.name = name)

/-- The number of declared names. -/
def size (h : Hierarchy) : Nat := (h.declarations.map (·.name)).eraseDups.length

def isTop (h : Hierarchy) (t : TypeExpr) : Bool := t.nominal? = some h.known.top

/-- The exact types among some arguments. -/
def exactTypes (args : List TypeArg) : List TypeExpr :=
  args.filterMap fun
    | .exact t => some t
    | _ => none

/-- The direct supertypes of a declared type, with its arguments put for the parameters.  A type
without arguments, or with a number of them that the declaration does not have, has erased
supertypes. -/
def supertypes (h : Hierarchy) (name : String) (args : List TypeArg) : List TypeExpr :=
  match h.find? name with
  | none => []
  | some d =>
    if args.isEmpty || args.length != d.parameters.length then d.supertypes.map (·.erasure)
    else exactTypes (d.supertypes.map (·.substitute (d.parameters.zip args)))

end Hierarchy

end Wiring
