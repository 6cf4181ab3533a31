import Wiring.Proofs.Schedule.Levels

/-! Which module resolves a socket.  A module resolves its own sockets; an external one goes to the
least scheduled module that imports the module it belongs to, if there is one.  So each socket has
at most one module that resolves it, and the passes have no socket twice. -/

namespace Wiring

def Inventory.Imports (v : Inventory) (importer imported : Name) : Prop :=
  importer ≠ imported ∧ ∃ m ∈ v.modules, m.name = importer ∧ imported ∈ m.imports

/-- The module is the least of the scheduled modules that import the other directly. -/
structure Inventory.LeastImporter (v : Inventory) (importer imported : Name) : Prop where
  scheduled : v.schedule.isScheduled importer = true
  imports : v.Imports importer imported
  least : ∀ other, v.schedule.isScheduled other = true → v.Imports other imported → importer ≤ other

/-- The module that resolves a socket if it is scheduled: that of a bean's own socket, and the first
scheduled importer for an external one. -/
def Schedule.resolver? (s : Schedule) (k : SocketEntry) : Option Name :=
  if k.isExternal then (s.scheduledImporters k.module).head? else some k.module

theorem Inventory.mem_dependents_iff {v : Inventory} {n imported : Name}
    (himported : v.HasModule imported) :
    n ∈ v.dependents imported ↔ v.Imports n imported := by
  rw [mem_dependents]
  simp only [mem_knownImports]
  constructor
  · rintro ⟨m, hm, rfl, himports, hne, _⟩
    exact ⟨hne.symm, m, hm, rfl, himports⟩
  · rintro ⟨hne, m, hm, rfl, himports⟩
    exact ⟨m, hm, rfl, himports, hne.symm, himported⟩

/-- The external sockets of other modules that a module resolves. -/
def Inventory.suppliedTo (v : Inventory) (name : Name) : List SocketEntry :=
  (v.modules.filter fun m => (v.schedule.scheduledImporters m.name).head? = some name).flatMap
    v.externalSockets

/-- A supply has the numbers of the sockets that a module fills, in their order. -/
theorem Inventory.of_supply (v : Inventory) (name : Name) :
    (v.schedule.supply v).of name = (v.suppliedTo name).map (·.id) := by
  unfold Schedule.supply suppliedTo Supply.of
  induction v.modules with
  | nil => rfl
  | cons m ms ih =>
    rw [List.flatMap_cons, List.filter_append, List.map_append, ih, Schedule.supplyOf]
    cases himporters : v.schedule.scheduledImporters m.name with
    | nil => simp [himporters]
    | cons first rest =>
      by_cases heq : first = name
      · subst heq
        simp [himporters, List.filter_map, Function.comp_def]
      · simp [himporters, List.filter_map, Function.comp_def, heq]

namespace Inventory.WellFormed

variable {v : Inventory} (h : v.WellFormed)
include h

/-! ### Importers -/

theorem lookup_importers (imported : Name) :
    (v.importers.lookup imported).getD [] = (v.dependents imported).mergeSort Name.ble := by
  have hkeys : v.importers.map (·.1) =
      ((v.modules.map (·.name)).filter fun m => !(v.dependents m).isEmpty).mergeSort Name.ble := by
    unfold importers
    rw [List.map_map]
    exact List.map_id _
  have hd : (v.importers.map (·.1)).Nodup := by
    rw [hkeys, (List.mergeSort_perm _ _).nodup_iff]
    exact h.module_names.filter _
  by_cases hempty : v.dependents imported = []
  · have hnone : v.importers.lookup imported = none := by
      rw [lookup_eq_none_iff_keys, hkeys, List.mem_mergeSort, List.mem_filter]
      rintro ⟨_, hne⟩
      simp [hempty] at hne
    rw [hnone, hempty, List.mergeSort_nil]
    rfl
  · have hmodule : v.HasModule imported := by
      obtain ⟨n, hn⟩ := List.exists_mem_of_ne_nil _ hempty
      obtain ⟨m, _, _, hi⟩ := mem_dependents.1 hn
      exact (mem_knownImports.1 hi).2.2
    have hsome : v.importers.lookup imported =
        some ((v.dependents imported).mergeSort Name.ble) := by
      rw [lookup_eq_some_iff_mem hd, importers, List.mem_map]
      refine ⟨imported, ?_, rfl⟩
      rw [List.mem_mergeSort, List.mem_filter]
      exact ⟨hmodule, by simpa using hempty⟩
    rw [hsome]
    rfl

theorem scheduledImporters_eq (imported : Name) :
    v.schedule.scheduledImporters imported =
      ((v.dependents imported).mergeSort Name.ble).filter v.schedule.isScheduled := by
  show ((v.importers.lookup imported).getD []).filter _ = _
  rw [h.lookup_importers]

theorem mem_scheduledImporters {n imported : Name} (himported : v.HasModule imported) :
    n ∈ v.schedule.scheduledImporters imported ↔
      v.Imports n imported ∧ v.schedule.isScheduled n = true := by
  rw [h.scheduledImporters_eq, List.mem_filter, List.mem_mergeSort, mem_dependents_iff himported]

theorem head?_scheduledImporters {importer imported : Name} (himported : v.HasModule imported) :
    (v.schedule.scheduledImporters imported).head? = some importer ↔
      v.LeastImporter importer imported := by
  have hsorted : (v.schedule.scheduledImporters imported).Pairwise (· ≤ ·) := by
    rw [h.scheduledImporters_eq]
    exact (Name.pairwise_mergeSort_ble id _).filter _
  constructor
  · intro hhead
    obtain ⟨rest, hlist⟩ := List.head?_eq_some_iff.1 hhead
    rw [hlist] at hsorted
    obtain ⟨himports, hscheduled⟩ := (h.mem_scheduledImporters himported).1
      (hlist ▸ List.mem_cons_self)
    refine ⟨hscheduled, himports, fun other hother hi => ?_⟩
    have hmem := (h.mem_scheduledImporters himported).2 ⟨hi, hother⟩
    rw [hlist] at hmem
    rcases List.mem_cons.1 hmem with rfl | hmem
    · exact Name.le_refl _
    · exact (List.pairwise_cons.1 hsorted).1 other hmem
  · rintro ⟨hscheduled, himports, hleast⟩
    have hmem := (h.mem_scheduledImporters himported).2 ⟨himports, hscheduled⟩
    cases hlist : v.schedule.scheduledImporters imported with
    | nil => rw [hlist] at hmem; cases hmem
    | cons first rest =>
      rw [hlist] at hmem hsorted
      obtain ⟨hi, hs⟩ := (h.mem_scheduledImporters himported).1 (hlist ▸ List.mem_cons_self)
      rcases List.mem_cons.1 hmem with rfl | hmem
      · rfl
      · have hle := (List.pairwise_cons.1 hsorted).1 importer hmem
        rw [List.head?_cons, Name.le_antisymm hle (hleast first hs hi)]

theorem head?_scheduledImporters_eq_none {imported : Name} (himported : v.HasModule imported) :
    (v.schedule.scheduledImporters imported).head? = none ↔
      ∀ n, v.schedule.isScheduled n = true → ¬ v.Imports n imported := by
  rw [List.head?_eq_none_iff, List.eq_nil_iff_forall_not_mem]
  simp only [h.mem_scheduledImporters himported, not_and]
  exact forall_congr' fun _ => ⟨fun hn hs hi => hn hi hs, fun hn hi hs => hn hs hi⟩

theorem isScheduled_of_imports {n imported : Name} (himported : v.HasModule imported)
    (himports : v.Imports n imported) (hn : v.schedule.isScheduled n = true) :
    imported ∈ v.schedule.ordered := by
  obtain ⟨m, hm, rfl, hall⟩ := h.mem_ordered.1 (of_decide_eq_true hn)
  obtain ⟨hne, m', hm', hname, hi⟩ := himports
  rw [h.module_name_injective hm' hm hname] at hi
  exact hall imported (mem_knownImports.2 ⟨hi, hne.symm, himported⟩)

/-! ### The sockets of a pass -/

theorem mem_suppliedTo {name : Name} {k : SocketEntry} :
    k ∈ v.suppliedTo name ↔ k ∈ v.sockets ∧ k.isExternal = true ∧
      (v.schedule.scheduledImporters k.module).head? = some name := by
  simp only [suppliedTo, List.mem_flatMap, List.mem_filter, decide_eq_true_iff]
  constructor
  · rintro ⟨m, ⟨hm, hhead⟩, hk⟩
    obtain ⟨⟨hk, hmodule⟩, hexternal⟩ := (h.mem_externalSockets hm).1 hk
    exact ⟨hk, hexternal, hmodule ▸ hhead⟩
  · rintro ⟨hk, hexternal, hhead⟩
    obtain ⟨m, hm, hname, _⟩ := h.exists_module (h.socket_hasModule hk)
    exact ⟨m, ⟨hm, hname ▸ hhead⟩, (h.mem_externalSockets hm).2 ⟨⟨hk, hname.symm⟩, hexternal⟩⟩

theorem supplied_eq (name : Name) :
    ((v.schedule.supply v).of name).filterMap (v.sockets[·]?) = v.suppliedTo name := by
  rw [v.of_supply]
  exact filterMap_ids h.socket_id fun k hk => (h.mem_suppliedTo.1 hk).1

/-- A pass has the sockets that its module resolves. -/
theorem mem_passSockets {m : ModuleEntry} (hm : m ∈ v.modules) {k : SocketEntry} :
    k ∈ v.passSockets m ((v.schedule.supply v).of m.name) ↔
      k ∈ v.sockets ∧ v.schedule.resolver? k = some m.name := by
  rw [passSockets, h.supplied_eq, List.mem_append, List.mem_filter, h.mem_socketsOf hm,
    h.mem_suppliedTo, Schedule.resolver?]
  cases hexternal : k.isExternal with
  | true => simp
  | false => simp

theorem nodup_passSockets {m : ModuleEntry} (hm : m ∈ v.modules) :
    (v.passSockets m ((v.schedule.supply v).of m.name)).Nodup := by
  rw [passSockets, h.supplied_eq, List.nodup_append]
  refine ⟨?_, h.nodup_flatMap_externalSockets _, ?_⟩
  · rw [h.socketsOf_eq hm]
    exact (h.nodup_sockets.filter _).filter _
  · rintro k hk _ hk' rfl
    have hown := (List.mem_filter.1 hk).2
    rw [(h.mem_suppliedTo.1 hk').2.1] at hown
    cases hown

end Inventory.WellFormed

end Wiring
