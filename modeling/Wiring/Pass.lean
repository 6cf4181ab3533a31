import Wiring.Directives
import Wiring.Plan
import Wiring.Selection
import Wiring.Subtyping

/-! The pass of one module: its own sockets and those that it fills for modules it imports.  A
socket that a directive names gets the beans of its directives and no others; any other socket gets
the visible beans that its type and its selectors accept.  How many there are decides the outcome.
-/

namespace Wiring

structure Pass where
  inventory : Inventory
  hierarchy : Hierarchy
  module : ModuleEntry
  directives : DirectiveStore

namespace Pass

/-- The type that each bean for the socket has to satisfy: the component of a multi-socket, and
what the mutator takes for a single one. -/
def component (p : Pass) (k : SocketEntry) : TypeArg :=
  match k.multiplicity p.hierarchy.known with
  | .single => .exact k.socket.matched
  | _ => p.hierarchy.known.component k.socket.required

/-- The beans that the socket sees.  An external socket does not see those of the module that it
belongs to. -/
def pool (p : Pass) (k : SocketEntry) : List BeanEntry :=
  (p.inventory.visible p.module).filter fun b => !k.isExternal || !b.name.belongsTo k.module

/-! ### Beans of directives -/

/-- Why a bean that the socket does not see cannot be put into it. -/
def invisibleReason (p : Pass) (k : SocketEntry) (b : BeanEntry) : String :=
  if k.isExternal && b.name.belongsTo k.module then
    "belongs to " ++ k.module.text ++ ", the module declaring the socket"
  else "is not visible from module " ++ p.module.name.text

/-- What is wrong with a bean that a directive names, if it cannot be put into the socket; the
empty list for a bean whose own type is not resolved, which has been reported. -/
def directedFault? (p : Pass) (k : SocketEntry) (name : Name) : Option (List Finding) :=
  match p.inventory.bean? name with
  | none => some [.badDirectiveBean k.name name "does not exist"]
  | some b =>
    if b ∈ p.pool k then
      match p.hierarchy.accepts (p.component k) b.type with
      | .compatible => none
      | .incompatible =>
        some [.incompatibleDirectiveBean k.name b.name b.type.text (p.component k).text]
      | .indeterminate => some []
    else some [.badDirectiveBean k.name name (p.invisibleReason k b)]

/-- The beans of directives that can be put into the socket, in their order. -/
def directed (p : Pass) (k : SocketEntry) (beans : List Name) : List Name :=
  beans.filter fun b => (p.directedFault? k b).isNone

def directedFindings (p : Pass) (k : SocketEntry) (beans : List Name) : List Finding :=
  beans.flatMap fun b => (p.directedFault? k b).getD []

/-! ### Beans by type and selectors -/

/-- The beans that the socket sees and accepts, in the order of names. -/
def accepted (p : Pass) (k : SocketEntry) (conditions : List (Candidate → Bool)) : List Name :=
  ((p.pool k).filter fun b =>
    p.hierarchy.accepts (p.component k) b.type = .compatible &&
      conditions.all fun condition => condition b.candidate).map (·.name)

/-- The beans that fit the socket by themselves.  With a selector that cannot be read there are
none. -/
def matching [PatternEngine] (p : Pass) (k : SocketEntry) : List Name × List Finding :=
  match Selector.compileAll k.socket.selectors with
  | .ok conditions => (p.accepted k conditions, [])
  | .error (selector, bad) =>
    ([], [.invalidDeclaration k.name
      ("selector " ++ selector.text ++ " is invalid: " ++ bad.message)])

/-! ### Outcomes -/

/-- The outcome for the beans that have been found. -/
def reconcile (k : SocketEntry) (multiplicity : Multiplicity) (beans : List Name)
    (order : BeanOrder) : Outcome × List Finding :=
  if beans.isEmpty && k.socket.isMandatory then
    (.missing, [.missingRequired k.name k.socket.matched.text])
  else if multiplicity.isMulti then (.multi beans order, [])
  else
    match beans with
    | [] => (.unresolved, [])
    | [bean] => (.single bean (k.socket.mutator?.map fun m => ⟨m.input, m.output⟩), [])
    | beans => (.ambiguous beans, [.ambiguous k.name (Name.list beans)])

/-- The type of the socket that is not resolved, if there is one. -/
def malformed? (p : Pass) (k : SocketEntry) : Option TypeExpr :=
  if k.socket.required.isMalformed then some k.socket.required
  else if (p.component k).isMalformed then some k.socket.matched
  else none

def outcome [PatternEngine] (p : Pass) (k : SocketEntry) : Outcome × List Finding :=
  match p.malformed? k with
  | some type => (.unresolved, [.unresolvedType k.name type.text])
  | none =>
    let multiplicity := k.multiplicity p.hierarchy.known
    match p.directives.beans? k.name with
    | some beans =>
      let (outcome, findings) := reconcile k multiplicity (p.directed k beans) .directive
      (outcome, p.directedFindings k beans ++ findings)
    | none =>
      let (beans, faults) := p.matching k
      let (outcome, findings) := reconcile k multiplicity beans .name
      (outcome, faults ++ findings)

def entry [PatternEngine] (p : Pass) (k : SocketEntry) : PlanEntry :=
  { socket := k.name
    owner := p.inventory.ownerName k
    origin := k.origin
    multiplicity := k.multiplicity p.hierarchy.known
    resolvedIn? := some p.module.name
    outcome := (p.outcome k).1 }

end Pass

/-! ### The sockets of a pass -/

namespace Inventory

/-- The sockets that a module's pass resolves: its own, then the external ones that it fills. -/
def passSockets (v : Inventory) (m : ModuleEntry) (supplied : List Nat) : List SocketEntry :=
  ((v.socketsOf m).filter fun k => !k.isExternal) ++ supplied.filterMap (v.sockets[·]?)

/-- The entries of a module's pass, and what has been found wrong in it. -/
def resolveModule [PatternEngine] (v : Inventory) (h : Hierarchy) (m : ModuleEntry)
    (supplied : List Nat) : List PlanEntry × List Finding :=
  let sockets := v.passSockets m supplied
  let (directives, repeated) := DirectiveStore.ofList m.directives
  let p : Pass := ⟨v, h, m, directives⟩
  let stray := (directives.targets.map (·.1)).filter fun t => !sockets.any (·.name = t)
  (sockets.map p.entry,
    repeated ++ stray.map (.badDirectiveSocket · m.name) ++
      sockets.flatMap fun k => (p.outcome k).2)

end Inventory

end Wiring
