import Wiring.Hierarchy
import Wiring.Socket

/-! The declarations of a compilation unit: beans with their sockets, modules with their imports and
directives, and the types they use. -/

namespace Wiring

/-! ### Beans -/

/-- Which modules see a bean: those that import its module too, or only its own. -/
inductive Visibility
  | importers
  | module
deriving DecidableEq

def Visibility.text : Visibility → String
  | .importers => "public"
  | .module => "private"

/-- One instance of a bean for its module, or one for each injection. -/
inductive Strategy
  | singleton
  | prototype
deriving DecidableEq

def Strategy.text : Strategy → String
  | .singleton => "singleton"
  | .prototype => "prototype"

/-- A bean that is reached through another bean. -/
structure NestedBean where
  name : String
  type : TypeExpr
  annotations : List String := []
  nested : List NestedBean := []

/-- A module bean is built by its module from its sockets; a socket bean comes from outside. -/
inductive BeanKind
  | module (type : TypeExpr) (sockets : List Socket)
  | socket (socket : Socket)

structure Bean where
  name : String
  visibility : Visibility := .importers
  strategy : Strategy := .singleton
  annotations : List String := []
  nested : List NestedBean := []
  /-- Whether an importing module may put another bean in its place. -/
  overridable : Bool := false
  kind : BeanKind

namespace Bean

/-- A module bean without sockets. -/
def ofType (name : String) (type : TypeExpr) : Bean := { name, kind := .module type [] }

/-- A socket bean, which has the name of its socket. -/
def ofSocket (socket : Socket) : Bean := { name := socket.name, kind := .socket socket }

/-- The bean with one more socket; a socket bean takes none. -/
def withSocket (b : Bean) (socket : Socket) : Bean :=
  match b.kind with
  | .module type sockets => { b with kind := .module type (sockets ++ [socket]) }
  | .socket _ => b

def withNested (b : Bean) (nested : NestedBean) : Bean := { b with nested := b.nested ++ [nested] }

def withMarker (b : Bean) (marker : String) : Bean :=
  { b with annotations := b.annotations ++ [marker] }

/-- The type that the bean provides. -/
def type (b : Bean) : TypeExpr :=
  match b.kind with
  | .module type _ => type
  | .socket socket => socket.provided

/-- The sockets of a module bean. -/
def sockets (b : Bean) : List Socket :=
  match b.kind with
  | .module _ sockets => sockets
  | .socket _ => []

def isPublic (b : Bean) : Bool := b.visibility = .importers

def asSocket? (b : Bean) : Option Socket :=
  match b.kind with
  | .module _ _ => none
  | .socket socket => some socket

def isSocketBean (b : Bean) : Bool := b.asSocket?.isSome

end Bean

/-! ### Modules and graphs -/

/-- The author's choice of beans for a socket, in order. -/
structure Directive where
  beans : List Name
  into : Name
deriving DecidableEq

structure Module where
  name : Name
  beans : List Bean := []
  directives : List Directive := []
  imports : List Name := []

def Module.socketBeans (m : Module) : List Bean := m.beans.filter (·.isSocketBean)

structure Graph where
  types : List TypeDeclaration := []
  modules : List Module := []

def Graph.module? (g : Graph) (name : Name) : Option Module := g.modules.find? (·.name = name)

end Wiring
