import Wiring.Proofs.Inventory.Items
import Wiring.Proofs.Schedule.Levels

/-! Inventories with the same entries.  The numbers of entries and the order of modules, of imports
and of what a module declares may differ; modules wait for the same imports then, and the schedules
are equal. -/

namespace Wiring

/-- The inventories have the same entries, whatever their numbers. -/
structure Inventory.Alike (v w : Inventory) : Prop where
  beans : ∀ b, b ∈ v.beans.map (·.facts) ↔ b ∈ w.beans.map (·.facts)
  sockets : ∀ k, k ∈ v.sockets.map (·.facts) ↔ k ∈ w.sockets.map (·.facts)
  modules : ∀ m, m ∈ v.modules.map (·.facts) ↔ m ∈ w.modules.map (·.facts)

theorem Survey.alike_of_has {s t : Survey} (h : ∀ i, s.Has i ↔ t.Has i) :
    s.inventory.Alike t.inventory :=
  ⟨fun b => h (.bean b), fun k => h (.socket k), fun m => h (.module m)⟩

namespace Inventory

namespace Alike

variable {v w : Inventory} (h : v.Alike w)
include h

theorem symm : w.Alike v :=
  ⟨fun b => (h.beans b).symm, fun k => (h.sockets k).symm, fun m => (h.modules m).symm⟩

theorem exists_bean {b : BeanEntry} (hb : b ∈ v.beans) : ∃ c ∈ w.beans, c.facts = b.facts :=
  List.mem_map.1 ((h.beans _).1 (List.mem_map_of_mem hb))

theorem exists_socket {k : SocketEntry} (hk : k ∈ v.sockets) :
    ∃ l ∈ w.sockets, l.facts = k.facts :=
  List.mem_map.1 ((h.sockets _).1 (List.mem_map_of_mem hk))

theorem exists_module {m : ModuleEntry} (hm : m ∈ v.modules) :
    ∃ n ∈ w.modules, n.facts = m.facts :=
  List.mem_map.1 ((h.modules _).1 (List.mem_map_of_mem hm))

theorem bean_name {n : Name} (hn : n ∈ v.beans.map (·.name)) : n ∈ w.beans.map (·.name) := by
  obtain ⟨b, hb, rfl⟩ := List.mem_map.1 hn
  obtain ⟨c, hc, hfacts⟩ := h.exists_bean hb
  have hname : c.name = b.name := congrArg BeanFacts.name hfacts
  exact hname ▸ List.mem_map_of_mem hc

theorem hasModule {name : Name} (hn : v.HasModule name) : w.HasModule name := by
  obtain ⟨m, hm, rfl⟩ := List.mem_map.1 hn
  obtain ⟨n, hn, hfacts⟩ := h.exists_module hm
  have hname : n.name = m.name := congrArg ModuleFacts.name hfacts
  exact hname ▸ List.mem_map_of_mem hn

theorem mem_knownImports {m n : ModuleEntry} (hfacts : n.facts = m.facts) {i : Name}
    (hi : i ∈ v.knownImports m) : i ∈ w.knownImports n := by
  obtain ⟨himports, hne, hmodule⟩ := Inventory.mem_knownImports.1 hi
  refine Inventory.mem_knownImports.2
    ⟨(ModuleEntry.mem_imports_of_facts hfacts).2 himports, ?_, h.hasModule hmodule⟩
  have hname : n.name = m.name := congrArg ModuleFacts.name hfacts
  rwa [hname]

theorem mem_dependents {n imported : Name} (hn : n ∈ v.dependents imported) :
    n ∈ w.dependents imported := by
  obtain ⟨m, hm, rfl, hi⟩ := Inventory.mem_dependents.1 hn
  obtain ⟨m', hm', hfacts⟩ := h.exists_module hm
  have hname : m'.name = m.name := congrArg ModuleFacts.name hfacts
  exact Inventory.mem_dependents.2 ⟨m', hm', hname, h.mem_knownImports hfacts hi⟩

theorem mem_dependents_iff {n imported : Name} :
    n ∈ v.dependents imported ↔ n ∈ w.dependents imported :=
  ⟨h.mem_dependents, h.symm.mem_dependents⟩

/-! ### Schedules -/

/-- A module whose known imports have all been in levels is such a module in the other inventory. -/
theorem exists_not_waiting {done : List Name} {n : Name}
    (hn : ∃ m ∈ v.modules, m.name = n ∧ v.waiting done m = 0) :
    ∃ m ∈ w.modules, m.name = n ∧ w.waiting done m = 0 := by
  obtain ⟨m, hm, rfl, hwaiting⟩ := hn
  obtain ⟨m', hm', hfacts⟩ := h.exists_module hm
  rw [waiting_eq_zero_iff] at hwaiting
  refine ⟨m', hm', congrArg ModuleFacts.name hfacts, waiting_eq_zero_iff.2 fun i hi => ?_⟩
  exact hwaiting i (h.symm.mem_knownImports hfacts.symm hi)

/-- After the same levels the same modules are free. -/
theorem mem_free {done free free' : List Name} (hf : Frontier v done free)
    (hf' : Frontier w done free') {n : Name} (hn : n ∈ free) : n ∈ free' := by
  have hdone : n ∉ done := hf.not_mem_done hn
  have hready := h.exists_not_waiting ((hf.mem_iff n).1 (List.mem_append_right _ hn))
  exact (List.mem_append.1 ((hf'.mem_iff n).2 hready)).resolve_left hdone

theorem mergeSort_free_eq {done free free' : List Name} (hf : Frontier v done free)
    (hf' : Frontier w done free') : free.mergeSort Name.ble = free'.mergeSort Name.ble :=
  Name.mergeSort_eq_of_mem_iff (List.nodup_append.1 hf.nodup).2.1
    (List.nodup_append.1 hf'.nodup).2.1 fun _ => ⟨h.mem_free hf hf', h.symm.mem_free hf' hf⟩

/-- From a frontier on, both inventories have the same levels. -/
theorem levelsFrom_eq (hv : v.WellFormed) (hw : w.WellFormed) {done free free' : List Name}
    {pending pending' : Pending} (hf : Frontier v done free) (hf' : Frontier w done free')
    (hp : pending = v.pendingAfter done) (hp' : pending' = w.pendingAfter done) :
    (levelsFrom v.dependents pending free).1 = (levelsFrom w.dependents pending' free').1 := by
  fun_induction levelsFrom v.dependents pending free generalizing done free' pending' with
  | case1 pending free hempty =>
    have hempty' : free' = [] := by
      rw [List.eq_nil_iff_forall_not_mem]
      intro n hn
      have hmem := h.symm.mem_free hf' hf hn
      rw [List.isEmpty_iff.1 hempty] at hmem
      cases hmem
    rw [hempty', levelsFrom, if_pos List.isEmpty_nil]
  | case2 pending free hne level next levels rest =>
    rename_i heq ih
    subst hp hp'
    -- the free modules may stand in another order, but their level is sorted
    have hsame : level = free'.mergeSort Name.ble := h.mergeSort_free_eq hf hf'
    have hperm : level.Perm free := List.mergeSort_perm free _
    have hperm' : level.Perm free' := hsame ▸ List.mergeSort_perm free' _
    have hne' : ¬ free'.isEmpty = true := by
      rw [List.isEmpty_iff_length_eq_zero] at hne ⊢
      rwa [← hperm'.length_eq, hperm.length_eq]
    have hlevel := hf.perm hperm
    have hlevel' := hf'.perm hperm'
    have hnext := ih (hlevel.level hv) (hlevel'.level hw) (hlevel.releaseAll_fst hv)
      (hlevel'.releaseAll_fst hw)
    rw [heq] at hnext
    rw [levelsFrom, if_neg hne', ← hsame]
    exact congrArg (level :: ·) hnext

theorem levels_eq (hv : v.WellFormed) (hw : w.WellFormed) :
    v.schedule.levels = w.schedule.levels :=
  h.levelsFrom_eq hv hw hv.frontier_start hw.frontier_start v.initialPending_eq w.initialPending_eq

theorem ordered_eq (hv : v.WellFormed) (hw : w.WellFormed) :
    v.schedule.ordered = w.schedule.ordered :=
  congrArg List.flatten (h.levels_eq hv hw)

theorem mem_blocked (hv : v.WellFormed) (hw : w.WellFormed) {n : Name}
    (hn : n ∈ v.schedule.blocked) : n ∈ w.schedule.blocked := by
  obtain ⟨m, hm, rfl, i, hi, hnot⟩ := hv.mem_blocked.1 hn
  obtain ⟨m', hm', hfacts⟩ := h.exists_module hm
  rw [h.ordered_eq hv hw] at hnot
  exact hw.mem_blocked.2 ⟨m', hm', congrArg ModuleFacts.name hfacts, i,
    h.mem_knownImports hfacts hi, hnot⟩

theorem blocked_eq (hv : v.WellFormed) (hw : w.WellFormed) :
    v.schedule.blocked = w.schedule.blocked :=
  eq_of_pairwise_of_mem_iff (fun _ _ _ _ hlt => hlt.asymm) hv.pairwise_blocked hw.pairwise_blocked
    fun _ => ⟨h.mem_blocked hv hw, h.symm.mem_blocked hw hv⟩

theorem importers_eq (hv : v.WellFormed) (hw : w.WellFormed) : v.importers = w.importers := by
  have hdependents : ∀ n, (v.dependents n).mergeSort Name.ble =
      (w.dependents n).mergeSort Name.ble := fun n =>
    Name.mergeSort_eq_of_mem_iff (hv.nodup_dependents n) (hw.nodup_dependents n) fun _ =>
      h.mem_dependents_iff
  have hempty : ∀ n, (v.dependents n).isEmpty = (w.dependents n).isEmpty := by
    intro n
    rw [Bool.eq_iff_iff, List.isEmpty_iff, List.isEmpty_iff, List.eq_nil_iff_forall_not_mem,
      List.eq_nil_iff_forall_not_mem]
    exact forall_congr' fun _ => not_congr h.mem_dependents_iff
  unfold importers
  simp only [hdependents, hempty]
  refine congrArg (List.map _) (Name.mergeSort_eq_of_mem_iff (hv.module_names.filter _)
    (hw.module_names.filter _) fun n => ?_)
  rw [List.mem_filter, List.mem_filter]
  exact and_congr_left fun _ => ⟨h.hasModule, h.symm.hasModule⟩

/-- Inventories with the same entries have the same schedule. -/
theorem schedule_eq (hv : v.WellFormed) (hw : w.WellFormed) : v.schedule = w.schedule :=
  calc
    v.schedule = ⟨v.schedule.levels, v.schedule.blocked, v.importers⟩ := rfl
    _ = ⟨w.schedule.levels, w.schedule.blocked, w.importers⟩ := by
      rw [h.levels_eq hv hw, h.blocked_eq hv hw, h.importers_eq hv hw]
    _ = w.schedule := rfl

end Alike

end Inventory

end Wiring
