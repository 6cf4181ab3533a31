import Wiring.Name
import Wiring.TypeExpr

/-! Sockets: the places where a bean wants other beans.  Selectors narrow the beans that fit a
socket beyond their type, and a mutator transforms the bean that is put into it. -/

namespace Wiring

/-- What a selector sees of a bean. -/
structure Candidate where
  name : Name
  type : TypeExpr
  annotations : List String

inductive Selector
  | annotated (marker : String)
  /-- The bean's name has a part that the pattern matches. -/
  | nameMatches (pattern : String)
  /-- A condition of the program, which no document can hold. -/
  | custom (name : String) (accepts : Candidate → Bool)

def Selector.text : Selector → String
  | .annotated marker => "@" ++ marker
  | .nameMatches pattern => "name ~ /" ++ pattern ++ "/"
  | .custom name _ => name

/-- A step from the type that a bean is matched against to the type that is handed on. -/
structure Mutator where
  input : TypeExpr
  output : TypeExpr
  required : Bool := false
deriving DecidableEq

structure Socket where
  name : String
  required : TypeExpr
  optional : Bool := false
  selectors : List Selector := []
  mutator? : Option Mutator := none

namespace Socket

def withSelector (s : Socket) (selector : Selector) : Socket :=
  { s with selectors := s.selectors ++ [selector] }

def withMutator (s : Socket) (mutator : Mutator) : Socket := { s with mutator? := some mutator }

/-- Whether the socket must get a bean: unless it is optional, and always for a required mutator. -/
def isMandatory (s : Socket) : Bool := !s.optional || s.mutator?.any (·.required)

/-- The type that beans are matched against. -/
def matched (s : Socket) : TypeExpr := s.mutator?.elim s.required (·.input)

/-- The type of the value that is handed on. -/
def provided (s : Socket) : TypeExpr := s.mutator?.elim s.required (·.output)

end Socket

end Wiring
