import Wiring.Finding
import Wiring.Graph
import Wiring.Multiplicity

/-! The beans and sockets of a graph under their full names.  Taking the inventory finds the
declarations that cannot stand: names that are taken or not legal, mutators where several beans are
wanted, types that are not resolved.  The first declaration of a name is kept. -/

namespace Wiring

/-- How a bean came into the inventory; a nested bean knows the number of its parent. -/
inductive BeanOrigin
  | module
  | socket
  | nested (parent : Nat)
deriving DecidableEq

structure BeanEntry where
  /-- The place of the entry in the inventory. -/
  id : Nat
  name : Name
  module : Name
  type : TypeExpr
  visibility : Visibility
  strategy : Strategy
  annotations : List String
  origin : BeanOrigin
  /-- Whether importing modules see the bean. -/
  exported : Bool
deriving DecidableEq

def BeanEntry.candidate (b : BeanEntry) : Candidate := ⟨b.name, b.type, b.annotations⟩

/-- A socket of a module bean is filled by its own module; the two others, a socket bean and the
socket in which an overridable bean takes its replacement, by a module that imports it. -/
inductive SocketOrigin
  | beanSocket
  | socketBean
  | override
deriving DecidableEq

structure SocketEntry where
  /-- The place of the entry in the inventory. -/
  id : Nat
  name : Name
  /-- The number of the bean that takes what the socket gets. -/
  owner : Nat
  module : Name
  origin : SocketOrigin
  socket : Socket

namespace SocketEntry

def isExternal (s : SocketEntry) : Bool := s.origin != .beanSocket

/-- A replacement is for one bean, whatever its type. -/
def multiplicity (s : SocketEntry) (known : KnownTypes) : Multiplicity :=
  match s.origin with
  | .override => .single
  | .beanSocket | .socketBean => known.multiplicity s.socket.required

end SocketEntry

structure ModuleEntry where
  name : Name
  imports : List Name
  /-- The numbers of the beans, nested ones too, in the order of declaration. -/
  beans : List Nat := []
  sockets : List Nat := []
  directives : List Directive

/-- Beans and sockets stand at the places of their numbers; beside them is kept which name has which
number. -/
structure Inventory where
  beans : List BeanEntry := []
  beanIndex : List (Name × Nat) := []
  sockets : List SocketEntry := []
  socketIndex : List (Name × Nat) := []
  modules : List ModuleEntry := []
  beans_indexed : beanIndex = beans.map fun b => (b.name, b.id) := by rfl
  sockets_indexed : socketIndex = sockets.map fun k => (k.name, k.id) := by rfl

namespace Inventory

def hasBean (v : Inventory) (name : Name) : Bool := (v.beanIndex.lookup name).isSome

def hasSocket (v : Inventory) (name : Name) : Bool := (v.socketIndex.lookup name).isSome

def bean? (v : Inventory) (name : Name) : Option BeanEntry :=
  (v.beanIndex.lookup name).bind (v.beans[·]?)

def socket? (v : Inventory) (name : Name) : Option SocketEntry :=
  (v.socketIndex.lookup name).bind (v.sockets[·]?)

def module? (v : Inventory) (name : Name) : Option ModuleEntry := v.modules.find? (·.name = name)

def beansOf (v : Inventory) (m : ModuleEntry) : List BeanEntry := m.beans.filterMap (v.beans[·]?)

def socketsOf (v : Inventory) (m : ModuleEntry) : List SocketEntry :=
  m.sockets.filterMap (v.sockets[·]?)

def externalSockets (v : Inventory) (m : ModuleEntry) : List SocketEntry :=
  (v.socketsOf m).filter (·.isExternal)

def ownerName (v : Inventory) (s : SocketEntry) : Name :=
  (v.beans[s.owner]?).elim s.name (·.name)

def exportedBy (v : Inventory) (importer : ModuleEntry) (imported : Name) : List BeanEntry :=
  if imported = importer.name then []
  else
    match v.module? imported with
    | some m => (v.beansOf m).filter (·.exported)
    | none => []

/-- The beans that the sockets resolved in a module see, in the order of their names: its own and
the exported ones of its imports. -/
def visible (v : Inventory) (m : ModuleEntry) : List BeanEntry :=
  collapse <|
    (v.beansOf m ++ m.imports.flatMap (v.exportedBy m)).mergeSort fun a b => a.name.ble b.name

/-- The inventory with one more bean, which is indexed by its name and which its module lists. -/
def addBean (v : Inventory) (b : BeanEntry) : Inventory :=
  { v with
    beans := v.beans ++ [b]
    beanIndex := v.beanIndex ++ [(b.name, b.id)]
    modules := v.modules.map fun m =>
      if m.name = b.module then { m with beans := m.beans ++ [b.id] } else m
    beans_indexed := by rw [v.beans_indexed, List.map_append, List.map_singleton] }

/-- The inventory with one more socket, which is indexed by its name and which its module lists. -/
def addSocket (v : Inventory) (k : SocketEntry) : Inventory :=
  { v with
    sockets := v.sockets ++ [k]
    socketIndex := v.socketIndex ++ [(k.name, k.id)]
    modules := v.modules.map fun m =>
      if m.name = k.module then { m with sockets := m.sockets ++ [k.id] } else m
    sockets_indexed := by rw [v.sockets_indexed, List.map_append, List.map_singleton] }

def addModule (v : Inventory) (m : ModuleEntry) : Inventory :=
  { v with modules := v.modules ++ [m] }

end Inventory

/-! ### Taking the inventory -/

/-- An inventory in the making, with what has been found wrong so far. -/
structure Survey where
  inventory : Inventory := {}
  findings : List Finding := []

namespace Survey

def report (s : Survey) (f : Finding) : Survey := { s with findings := s.findings ++ [f] }

/-- Takes a bean in, unless its name is taken; the second part tells whether it was. -/
def addEntry (s : Survey) (entry : BeanEntry) : Survey × Bool :=
  if s.inventory.hasBean entry.name then (s.report (.duplicateName entry.name "bean"), false)
  else
    let s :=
      if entry.type.isMalformed then s.report (.unresolvedType entry.name entry.type.text) else s
    ({ s with inventory := s.inventory.addBean entry }, true)

/-- Takes a socket in, unless its name is taken.  Where several beans are wanted, a mutator is
dropped. -/
def addSocket (s : Survey) (known : KnownTypes) (owner : BeanEntry) (origin : SocketOrigin)
    (name : Name) (socket : Socket) : Survey :=
  if s.inventory.hasSocket name then s.report (.duplicateName name "socket")
  else
    let drop := socket.mutator?.isSome && (known.multiplicity socket.required).isMulti
    let s :=
      if drop then
        s.report (.invalidDeclaration name
          "only single sockets may declare a mutator; the mutator is ignored")
      else s
    let socket := if drop then { socket with mutator? := none } else socket
    let entry : SocketEntry :=
      { id := s.inventory.sockets.length
        name
        owner := owner.id
        module := owner.module
        origin
        socket }
    { s with inventory := s.inventory.addSocket entry }

def addBeanSocket (known : KnownTypes) (owner : BeanEntry) (s : Survey) (socket : Socket) :
    Survey :=
  match owner.name.withSocket socket.name with
  | .ok name => s.addSocket known owner .beanSocket name socket
  | .error fault =>
    s.report (.invalidDeclaration owner.name
      ("socket '" ++ socket.name ++ "': " ++ fault.message))

/-- The name of the socket in which an overridable bean takes its replacement. -/
def overrideName : String := "override"

def addOverride (known : KnownTypes) (owner : BeanEntry) (s : Survey) : Survey :=
  match owner.name.withSocket overrideName with
  | .ok name =>
    s.addSocket known owner .override name
      { name := overrideName, required := owner.type, optional := true }
  | .error fault => s.report (.invalidDeclaration owner.name fault.message)

/-- Takes in what hangs on the kind of a bean: its sockets, or the socket that it is. -/
def addSockets (known : KnownTypes) (owner : BeanEntry) (bean : Bean) (s : Survey) : Survey :=
  match bean.kind with
  | .module _ sockets =>
    let s := sockets.foldl (addBeanSocket known owner) s
    if bean.overridable then addOverride known owner s else s
  | .socket socket =>
    let s :=
      if bean.overridable then
        s.report (.invalidDeclaration owner.name "a socket bean cannot be overridable")
      else s
    s.addSocket known owner .socketBean owner.name socket

mutual

/-- Takes in a nested bean, and the beans nested in it if it is kept.  It inherits all but its type
and its annotations from its parent. -/
def addNested (parent : BeanEntry) (s : Survey) : NestedBean → Survey
  | ⟨written, type, annotations, nested⟩ =>
    match parent.name.nested written with
    | .error fault =>
      s.report (.invalidDeclaration parent.name
        ("nested bean '" ++ written ++ "': " ++ fault.message))
    | .ok name =>
      let entry : BeanEntry :=
        { parent with
          id := s.inventory.beans.length
          name
          type
          annotations
          origin := .nested parent.id }
      match s.addEntry entry with
      | (s, true) => addAllNested entry s nested
      | (s, false) => s

def addAllNested (parent : BeanEntry) (s : Survey) : List NestedBean → Survey
  | [] => s
  | b :: bs => addAllNested parent (addNested parent s b) bs

end

def entryOf (s : Survey) (module name : Name) (bean : Bean) : BeanEntry :=
  { id := s.inventory.beans.length
    name
    module
    type := bean.type
    visibility := bean.visibility
    strategy := bean.strategy
    annotations := bean.annotations
    origin := if bean.isSocketBean then .socket else .module
    exported := bean.isPublic && !bean.isSocketBean }

def addBean (known : KnownTypes) (module : Name) (s : Survey) (bean : Bean) : Survey :=
  match module.withBean bean.name with
  | .error fault =>
    s.report (.invalidDeclaration module ("bean '" ++ bean.name ++ "': " ++ fault.message))
  | .ok name =>
    if name.isNested then
      s.report (.invalidDeclaration module
        ("bean name '" ++ bean.name ++ "' must be a single identifier"))
    else
      let entry := s.entryOf module name bean
      match s.addEntry entry with
      | (s, false) => s
      | (s, true) => addAllNested entry (s.addSockets known entry bean) bean.nested

def addModule (known : KnownTypes) (s : Survey) (m : Module) : Survey :=
  if m.name.kind != .module then
    s.report (.invalidDeclaration m.name "a module name must have a single segment")
  else if (s.inventory.module? m.name).isSome then s.report (.duplicateName m.name "module")
  else
    let entry : ModuleEntry := { name := m.name, imports := m.imports, directives := m.directives }
    m.beans.foldl (addBean known m.name) { s with inventory := s.inventory.addModule entry }

end Survey

/-- The inventory of a graph, and what is wrong with its declarations. -/
def Graph.survey (g : Graph) (known : KnownTypes) : Survey :=
  g.modules.foldl (Survey.addModule known) {}

end Wiring
