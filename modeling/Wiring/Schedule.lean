import Wiring.Inventory

/-! The order in which modules are resolved.  A module waits for its imports: modules without
pending imports form the first level, and each level takes one pending import off every importer of
its modules.  What never gets free is blocked by an import cycle.  The sockets that importers fill
go to the first importer that is scheduled. -/

namespace Wiring

/-! ### Imports -/

namespace Inventory

/-- The modules that a module waits for: its imports that exist, each once, and not itself. -/
def knownImports (v : Inventory) (m : ModuleEntry) : List Name :=
  (m.imports.filter fun i => i ≠ m.name && (v.module? i).isSome).eraseDups

def dependents (v : Inventory) (imported : Name) : List Name :=
  (v.modules.filter fun m => imported ∈ v.knownImports m).map (·.name)

def unknownImports (v : Inventory) : List Finding :=
  v.modules.flatMap fun m =>
    (m.imports.filter fun i => i ≠ m.name && (v.module? i).isNone).map (.unknownImport m.name)

end Inventory

/-! ### Levels -/

abbrev Pending := List (Name × Nat)

namespace Pending

def total (p : Pending) : Nat := p.foldr (fun (_, k) n => k + n) 0

/-- Takes one pending import off a module; the second part is the module if that was the last. -/
def release (name : Name) : Pending → Pending × List Name
  | [] => ([], [])
  | (m, k) :: rest =>
    if m = name then
      match k with
      | 0 => ((m, 0) :: rest, [])
      | 1 => ((m, 0) :: rest, [m])
      | k + 2 => ((m, k + 1) :: rest, [])
    else
      let (rest, freed) := release name rest
      ((m, k) :: rest, freed)

/-- Takes one pending import off each module of a list, as often as it is there. -/
def releaseAll (p : Pending) : List Name → Pending × List Name
  | [] => (p, [])
  | name :: names =>
    let (p, freed) := p.release name
    let (p, later) := p.releaseAll names
    (p, freed ++ later)

theorem total_cons (m : Name) (k : Nat) (p : Pending) : total ((m, k) :: p) = k + total p := by
  simp [total]

theorem total_release (name : Name) (p : Pending) :
    (p.release name).1.total + (p.release name).2.length ≤ p.total := by
  fun_induction release name p with
  | case1 => simp [total]
  | case2 => simp [total_cons]
  | case3 => simp only [total_cons, List.length_singleton]; omega
  | case4 => simp only [total_cons, List.length_nil]; omega
  | case5 m k rest _ rest' freed h ih =>
    rw [h] at ih
    simp only [total_cons] at ih ⊢
    omega

theorem total_releaseAll (p : Pending) (names : List Name) :
    (p.releaseAll names).1.total + (p.releaseAll names).2.length ≤ p.total := by
  induction names generalizing p with
  | nil => simp [releaseAll]
  | cons name names ih =>
    have h := total_release name p
    have h' := ih (p.release name).1
    simp only [releaseAll, List.length_append]
    omega

/-- Freeing modules uses up pending imports, so there is less work after a round. -/
theorem work_releaseAll (p : Pending) (names : List Name) :
    (p.releaseAll names).1.total + (if (p.releaseAll names).2.isEmpty then 0 else 1) <
      p.total + 1 := by
  have h := total_releaseAll p names
  cases hf : (p.releaseAll names).2 with
  | nil => rw [hf, List.length_nil] at h; rw [List.isEmpty_nil, if_pos rfl]; omega
  | cons m ms => rw [hf, List.length_cons] at h; rw [List.isEmpty_cons, if_neg (by decide)]; omega

end Pending

/-- The levels from a point on: `free` are the modules that wait for nothing any more and have not
been in a level, `pending` are the numbers for the others.  Returns the levels and the numbers at
the end. -/
def levelsFrom (dependents : Name → List Name) (pending : Pending) (free : List Name) :
    List (List Name) × Pending :=
  if free.isEmpty then ([], pending)
  else
    let level := free.mergeSort Name.ble
    let next := pending.releaseAll (level.flatMap dependents)
    let (levels, pending) := levelsFrom dependents next.1 next.2
    (level :: levels, pending)
termination_by pending.total + (if free.isEmpty then 0 else 1)
decreasing_by
  rename_i hf
  rw [if_neg hf]
  exact pending.work_releaseAll _

structure Schedule where
  /-- Each level in the order of names. -/
  levels : List (List Name)
  /-- The modules that an import cycle keeps from being resolved, in the order of names. -/
  blocked : List Name
  /-- The modules that are imported, in the order of names, with their importers in that order. -/
  importers : List (Name × List Name)
deriving DecidableEq

namespace Schedule

def ordered (s : Schedule) : List Name := s.levels.flatten

def isScheduled (s : Schedule) (m : Name) : Bool := m ∈ s.ordered

def scheduledImporters (s : Schedule) (m : Name) : List Name :=
  ((s.importers.lookup m).getD []).filter s.isScheduled

def findings (s : Schedule) : List Finding :=
  s.blocked.map fun m => .importCycle m (Name.list s.blocked)

end Schedule

namespace Inventory

def initialPending (v : Inventory) : Pending :=
  v.modules.map fun m => (m.name, (v.knownImports m).length)

def importers (v : Inventory) : List (Name × List Name) :=
  let imported := (v.modules.map (·.name)).filter fun m => !(v.dependents m).isEmpty
  (imported.mergeSort Name.ble).map fun m => (m, (v.dependents m).mergeSort Name.ble)

/-- Unknown imports and imports of itself do not keep a module waiting. -/
def schedule (v : Inventory) : Schedule :=
  let pending := v.initialPending
  let free := (pending.filter (·.2 == 0)).map (·.1)
  let (levels, rest) := levelsFrom v.dependents pending free
  { levels
    blocked := ((rest.filter (·.2 != 0)).map (·.1)).mergeSort Name.ble
    importers := v.importers }

end Inventory

/-! ### Who fills the external sockets -/

/-- Modules with the numbers of the external sockets of other modules that they fill. -/
abbrev Supply := List (Name × Nat)

def Supply.of (s : Supply) (m : Name) : List Nat := (s.filter (·.1 = m)).map (·.2)

namespace Schedule

/-- The external sockets of a module go to its first scheduled importer. -/
def supplyOf (s : Schedule) (v : Inventory) (m : ModuleEntry) : Supply :=
  match s.scheduledImporters m.name with
  | [] => []
  | supplier :: _ => (v.externalSockets m).map fun k => (supplier, k.id)

def supply (s : Schedule) (v : Inventory) : Supply := v.modules.flatMap (s.supplyOf v)

def sharedOf (s : Schedule) (v : Inventory) (m : ModuleEntry) : List Finding :=
  let importers := s.scheduledImporters m.name
  if importers.length > 1 then
    (v.externalSockets m).map fun k => .sharedSocket k.name (Name.list importers)
  else []

def shared (s : Schedule) (v : Inventory) : List Finding := v.modules.flatMap (s.sharedOf v)

end Schedule

end Wiring
