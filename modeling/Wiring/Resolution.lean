import Wiring.Cycle
import Wiring.Pass
import Wiring.Schedule

/-! The resolution of a whole graph: the passes of all scheduled modules, level by level, the
sockets that are left to be filled at run time, and the search for dependency cycles. -/

namespace Wiring

/-- How a resolution is done.  Whether modules are resolved in parallel makes no difference to the
result. -/
structure ResolverSettings where
  knownTypes : KnownTypes := {}
  parallel : Bool := true
  /-- The search for cycles does not follow again what it has followed from an earlier bean. -/
  memoizeCycleSearch : Bool := false
  /-- External sockets of modules that nobody imports are reported. -/
  warnOnUnresolvedRootSockets : Bool := false
deriving DecidableEq

/-- What a resolution starts from: the graph's inventory, its schedule and its types. -/
structure Resolution where
  settings : ResolverSettings
  survey : Survey
  schedule : Schedule
  hierarchy : Hierarchy

namespace Resolution

def ofGraph (settings : ResolverSettings) (g : Graph) : Resolution :=
  let survey := g.survey settings.knownTypes
  { settings
    survey
    schedule := survey.inventory.schedule
    hierarchy := ⟨g.types, settings.knownTypes⟩ }

def inventory (r : Resolution) : Inventory := r.survey.inventory

def supply (r : Resolution) : Supply := r.schedule.supply r.inventory

/-- The modules in the order of their passes. -/
def scheduled (r : Resolution) : List ModuleEntry :=
  r.schedule.ordered.filterMap r.inventory.module?

/-! ### Passes and the plan -/

section

variable [PatternEngine]

def pass (r : Resolution) (m : ModuleEntry) : List PlanEntry × List Finding :=
  r.inventory.resolveModule r.hierarchy m (r.supply.of m.name)

/-- The plan of all passes. -/
def passPlan (r : Resolution) : Plan :=
  Plan.insertAll {} (r.scheduled.flatMap fun m => (r.pass m).1)

def passFindings (r : Resolution) : List Finding := r.scheduled.flatMap fun m => (r.pass m).2

/-- The external sockets that no pass has resolved, of modules that are not blocked. -/
def runtimeSockets (r : Resolution) : List SocketEntry :=
  let planned := r.passPlan
  (r.inventory.modules.filter fun m => m.name ∉ r.schedule.blocked).flatMap fun m =>
    (r.inventory.externalSockets m).filter fun k => !planned.contains k.name

/-- The entry of a socket that is filled at run time. -/
def runtimeEntry (r : Resolution) (k : SocketEntry) : PlanEntry :=
  { socket := k.name
    owner := r.inventory.ownerName k
    origin := k.origin
    multiplicity := k.multiplicity r.settings.knownTypes
    resolvedIn? := none
    outcome := .unresolved }

def plan (r : Resolution) : Plan := r.passPlan.insertAll (r.runtimeSockets.map r.runtimeEntry)

def runtimeFindings (r : Resolution) : List Finding :=
  if r.settings.warnOnUnresolvedRootSockets then
    r.runtimeSockets.map fun k => .unsuppliedSocket k.name
  else []

def cycles (r : Resolution) : List Cycle :=
  (BeanGraph.ofPlan r.inventory r.plan).cycles r.settings.memoizeCycleSearch

def cycleFindings (r : Resolution) : List Finding :=
  r.cycles.filterMap fun c => c.start?.map fun start => .dependencyCycle start c.chain

/-- All that has been found wrong, in the order of the stages. -/
def findings (r : Resolution) : List Finding :=
  r.survey.findings ++ r.inventory.unknownImports ++ r.schedule.findings ++
    r.schedule.shared r.inventory ++ r.passFindings ++ r.runtimeFindings ++ r.cycleFindings

end

end Resolution

end Wiring
