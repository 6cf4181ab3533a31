import Wiring.Proofs.Inventory.Entries
import Wiring.Proofs.Name.Text
import Wiring.Proofs.Schedule.Pending

/-! The levels of modules.  Before each level the numbers count the imports that have not been in a
level, and the free modules are those whose imports all have.  So at the end a module has been in a
level, and in one only, or it is blocked: it waits for a module that has not been in a level either.
-/

namespace Wiring.Inventory

/-! ### Waiting -/

theorem mem_knownImports {v : Inventory} {m : ModuleEntry} {i : Name} :
    i ∈ v.knownImports m ↔ i ∈ m.imports ∧ i ≠ m.name ∧ v.HasModule i := by
  rw [knownImports, List.mem_eraseDups, List.mem_filter, Bool.and_eq_true, decide_eq_true_iff,
    isSome_module?_iff]

theorem nodup_knownImports (v : Inventory) (m : ModuleEntry) : (v.knownImports m).Nodup :=
  nodup_eraseDups _

theorem mem_dependents {v : Inventory} {n imported : Name} :
    n ∈ v.dependents imported ↔ ∃ m ∈ v.modules, m.name = n ∧ imported ∈ v.knownImports m := by
  simp only [dependents, List.mem_map, List.mem_filter, decide_eq_true_iff]
  constructor
  · rintro ⟨m, ⟨hm, hi⟩, rfl⟩
    exact ⟨m, hm, rfl, hi⟩
  · rintro ⟨m, hm, rfl, hi⟩
    exact ⟨m, ⟨hm, hi⟩, rfl⟩

theorem WellFormed.nodup_dependents {v : Inventory} (h : v.WellFormed) (imported : Name) :
    (v.dependents imported).Nodup :=
  h.module_names.sublist (List.filter_sublist.map _)

/-- The number of imports that a module waits for when some modules have been in levels. -/
def waiting (v : Inventory) (done : List Name) (m : ModuleEntry) : Nat :=
  (v.knownImports m).countP (· ∉ done)

theorem waiting_eq_zero_iff {v : Inventory} {done : List Name} {m : ModuleEntry} :
    v.waiting done m = 0 ↔ ∀ i ∈ v.knownImports m, i ∈ done := by
  simp [waiting, List.countP_eq_zero]

/-- The numbers of pending imports when some modules have been in levels. -/
def pendingAfter (v : Inventory) (done : List Name) : Pending :=
  v.modules.map fun m => (m.name, v.waiting done m)

theorem mem_pendingAfter {v : Inventory} {done : List Name} {n : Name} {k : Nat} :
    (n, k) ∈ v.pendingAfter done ↔ ∃ m ∈ v.modules, m.name = n ∧ v.waiting done m = k := by
  simp [pendingAfter]

theorem initialPending_eq (v : Inventory) : v.initialPending = v.pendingAfter [] := by
  simp [initialPending, pendingAfter, waiting]

theorem WellFormed.distinct_pendingAfter {v : Inventory} (h : v.WellFormed) (done : List Name) :
    (v.pendingAfter done).Distinct := by
  unfold Pending.Distinct pendingAfter
  rw [List.map_map]
  exact h.module_names

section

variable {v : Inventory} (h : v.WellFormed)
include h

/-- A module is released as often as it waits for modules of a level. -/
theorem WellFormed.count_dependents {m : ModuleEntry} (hm : m ∈ v.modules) {level : List Name}
    (hd : level.Nodup) :
    (level.flatMap v.dependents).count m.name = (v.knownImports m).countP (· ∈ level) := by
  have hone : ∀ i, (v.dependents i).count m.name = if i ∈ v.knownImports m then 1 else 0 := by
    intro i
    rw [(h.nodup_dependents i).count]
    refine if_congr ?_ rfl rfl
    rw [mem_dependents]
    constructor
    · rintro ⟨m', hm', hname, hi⟩
      rwa [← h.module_name_injective hm' hm hname]
    · intro hi
      exact ⟨m, hm, rfl, hi⟩
  have hlevel : (level.flatMap v.dependents).count m.name =
      level.countP (· ∈ v.knownImports m) := by
    clear hd
    induction level with
    | nil => rfl
    | cons i rest ih =>
      rw [List.flatMap_cons, List.count_append, hone, ih, List.countP_cons, Nat.add_comm]
      simp
  -- both numbers count the modules of the level that are imported
  have hperm : (level.filter (· ∈ v.knownImports m)).Perm
      ((v.knownImports m).filter (· ∈ level)) := by
    have hknown := (v.nodup_knownImports m).filter (· ∈ level)
    refine (List.perm_ext_iff_of_nodup (hd.filter _) hknown).2 fun i => ?_
    simp only [List.mem_filter, decide_eq_true_iff]
    exact and_comm
  rw [hlevel, List.countP_eq_length_filter, List.countP_eq_length_filter, hperm.length_eq]

omit h in
/-- Of the imports that have not been in a level, some are in the next one. -/
theorem waiting_append {done level : List Name} (hdisjoint : ∀ n ∈ level, n ∉ done)
    (m : ModuleEntry) :
    v.waiting done m = (v.knownImports m).countP (· ∈ level) + v.waiting (done ++ level) m := by
  unfold waiting
  induction v.knownImports m with
  | nil => rfl
  | cons i rest ih =>
    rw [List.countP_cons, List.countP_cons, List.countP_cons, ih]
    by_cases hlevel : i ∈ level
    · have hdone := hdisjoint i hlevel
      simp [hlevel, hdone]
      omega
    · by_cases hdone : i ∈ done
      · simp [hlevel, hdone]
      · simp [hlevel, hdone]
        omega

theorem WellFormed.releaseAll_fst {done level : List Name} (hd : level.Nodup)
    (hdisjoint : ∀ n ∈ level, n ∉ done) :
    ((v.pendingAfter done).releaseAll (level.flatMap v.dependents)).1 =
      v.pendingAfter (done ++ level) := by
  rw [Pending.releaseAll_fst (h.distinct_pendingAfter done), Pending.lower, pendingAfter,
    pendingAfter, List.map_map]
  refine List.map_congr_left fun m hm => ?_
  have hsplit := waiting_append (v := v) hdisjoint m
  have hcount := h.count_dependents hm hd
  simp only [Function.comp_apply, Prod.mk.injEq, true_and]
  omega

/-! ### The frontier -/

omit h in
/-- The modules that have been in levels and those that are free are, each once, the modules whose
known imports have all been in levels. -/
structure Frontier (v : Inventory) (done free : List Name) : Prop where
  nodup : (done ++ free).Nodup
  mem_iff : ∀ n, n ∈ done ++ free ↔ ∃ m ∈ v.modules, m.name = n ∧ v.waiting done m = 0

theorem WellFormed.frontier_start :
    Frontier v [] ((v.initialPending.filter (·.2 == 0)).map (·.1)) := by
  have hd := h.distinct_pendingAfter []
  rw [initialPending_eq]
  refine ⟨hd.sublist (List.filter_sublist.map _), fun n => ?_⟩
  rw [List.nil_append, List.mem_map]
  constructor
  · rintro ⟨⟨n, k⟩, hk, rfl⟩
    obtain ⟨hk, hzero⟩ := List.mem_filter.1 hk
    obtain ⟨m, hm, hname, rfl⟩ := mem_pendingAfter.1 hk
    exact ⟨m, hm, hname, by simpa using hzero⟩
  · rintro ⟨m, hm, rfl, hzero⟩
    exact ⟨(m.name, 0), List.mem_filter.2 ⟨mem_pendingAfter.2 ⟨m, hm, rfl, hzero⟩, rfl⟩, rfl⟩

/-- A level frees the modules that were waiting for modules of the level and for no others. -/
theorem WellFormed.mem_freed {done level : List Name} (hd : level.Nodup)
    (hdisjoint : ∀ n ∈ level, n ∉ done) {n : Name} :
    n ∈ ((v.pendingAfter done).releaseAll (level.flatMap v.dependents)).2 ↔
      ∃ m ∈ v.modules, m.name = n ∧ 0 < v.waiting done m ∧ v.waiting (done ++ level) m = 0 := by
  have hsplit := fun m => waiting_append (v := v) hdisjoint m
  rw [Pending.mem_releaseAll_snd (h.distinct_pendingAfter done)]
  constructor
  · rintro ⟨k, hk, hpos, hle⟩
    obtain ⟨m, hm, rfl, rfl⟩ := mem_pendingAfter.1 hk
    rw [h.count_dependents hm hd] at hle
    have := hsplit m
    exact ⟨m, hm, rfl, hpos, by omega⟩
  · rintro ⟨m, hm, rfl, hpos, hzero⟩
    refine ⟨_, mem_pendingAfter.2 ⟨m, hm, rfl, rfl⟩, hpos, ?_⟩
    rw [h.count_dependents hm hd]
    have := hsplit m
    omega

omit h in
/-- The free modules may stand in any order. -/
theorem Frontier.perm {done free level : List Name} (hf : Frontier v done free)
    (hperm : level.Perm free) : Frontier v done level := by
  have hlast : (done ++ level).Perm (done ++ free) := hperm.append_left done
  exact ⟨hlast.nodup_iff.2 hf.nodup, fun n => hlast.mem_iff.trans (hf.mem_iff n)⟩

omit h in
theorem Frontier.not_mem_done {done level : List Name} (hf : Frontier v done level) {n : Name}
    (hn : n ∈ level) : n ∉ done :=
  fun hdone => (List.nodup_append.1 hf.nodup).2.2 n hdone n hn rfl

theorem Frontier.level {done level : List Name} (hf : Frontier v done level) :
    Frontier v (done ++ level)
      ((v.pendingAfter done).releaseAll (level.flatMap v.dependents)).2 := by
  obtain ⟨_, hlevel, _⟩ := List.nodup_append.1 hf.nodup
  have hdisjoint : ∀ n ∈ level, n ∉ done := fun n => hf.not_mem_done
  have hfreed := Pending.nodup_releaseAll_snd (h.distinct_pendingAfter done)
    (level.flatMap v.dependents)
  refine ⟨List.nodup_append.2 ⟨hf.nodup, hfreed, ?_⟩, fun n => ?_⟩
  · rintro n hn _ hn' rfl
    obtain ⟨m, hm, rfl, hzero⟩ := (hf.mem_iff n).1 hn
    obtain ⟨m', hm', hname, hpos, _⟩ := (h.mem_freed hlevel hdisjoint).1 hn'
    rw [h.module_name_injective hm' hm hname, hzero] at hpos
    cases hpos
  · rw [List.mem_append, hf.mem_iff, h.mem_freed hlevel hdisjoint]
    constructor
    · rintro (⟨m, hm, rfl, hzero⟩ | ⟨m, hm, rfl, _, hzero⟩)
      · have hsplit := waiting_append (v := v) hdisjoint m
        exact ⟨m, hm, rfl, by omega⟩
      · exact ⟨m, hm, rfl, hzero⟩
    · rintro ⟨m, hm, rfl, hzero⟩
      rcases Nat.eq_zero_or_pos (v.waiting done m) with hnow | hpos
      · exact .inl ⟨m, hm, rfl, hnow⟩
      · exact .inr ⟨m, hm, rfl, hpos, hzero⟩

/-- Releasing what waits for a level leaves the numbers after the level. -/
theorem Frontier.releaseAll_fst {done level : List Name} (hf : Frontier v done level) :
    ((v.pendingAfter done).releaseAll (level.flatMap v.dependents)).1 =
      v.pendingAfter (done ++ level) :=
  h.releaseAll_fst (List.nodup_append.1 hf.nodup).2.1 fun _ => hf.not_mem_done

/-- From a frontier on, the levels move it until nothing is free. -/
theorem Frontier.levelsFrom {done free : List Name} {pending : Pending} (hf : Frontier v done free)
    (hp : pending = v.pendingAfter done) :
    Frontier v (done ++ (levelsFrom v.dependents pending free).1.flatten) [] ∧
      (levelsFrom v.dependents pending free).2 =
        v.pendingAfter (done ++ (levelsFrom v.dependents pending free).1.flatten) := by
  fun_induction Wiring.levelsFrom v.dependents pending free generalizing done with
  | case1 pending free hempty =>
    rw [List.isEmpty_iff.1 hempty] at hf
    rw [List.flatten_nil, List.append_nil]
    exact ⟨hf, hp⟩
  | case2 pending free hne level next levels rest heq =>
    rename_i ih
    subst hp
    have hlevel : Frontier v done level := hf.perm (List.mergeSort_perm free _)
    have hnext := ih (hlevel.level h) (hlevel.releaseAll_fst h)
    rwa [heq, List.append_assoc] at hnext

/-! ### The schedule -/

theorem WellFormed.frontier_ordered :
    Frontier v v.schedule.ordered [] ∧
      v.schedule.blocked =
        (((v.pendingAfter v.schedule.ordered).filter (·.2 != 0)).map (·.1)).mergeSort Name.ble := by
  obtain ⟨hfrontier, hrest⟩ := h.frontier_start.levelsFrom h v.initialPending_eq
  refine ⟨hfrontier, ?_⟩
  rw [List.nil_append] at hrest
  show (((levelsFrom v.dependents v.initialPending _).2.filter _).map _).mergeSort Name.ble = _
  rw [hrest]
  rfl

theorem WellFormed.nodup_ordered : v.schedule.ordered.Nodup := by
  simpa using h.frontier_ordered.1.nodup

/-- A module has been in a level exactly if all its known imports have. -/
theorem WellFormed.mem_ordered {n : Name} :
    n ∈ v.schedule.ordered ↔
      ∃ m ∈ v.modules, m.name = n ∧ ∀ i ∈ v.knownImports m, i ∈ v.schedule.ordered := by
  have hmem := h.frontier_ordered.1.mem_iff n
  simp only [waiting_eq_zero_iff, List.append_nil] at hmem
  exact hmem

theorem WellFormed.mem_blocked {n : Name} :
    n ∈ v.schedule.blocked ↔
      ∃ m ∈ v.modules, m.name = n ∧ ∃ i ∈ v.knownImports m, i ∉ v.schedule.ordered := by
  rw [h.frontier_ordered.2, List.mem_mergeSort, List.mem_map]
  constructor
  · rintro ⟨⟨n, k⟩, hk, rfl⟩
    obtain ⟨hk, hpos⟩ := List.mem_filter.1 hk
    obtain ⟨m, hm, hname, rfl⟩ := mem_pendingAfter.1 hk
    have hnot : ¬ ∀ i ∈ v.knownImports m, i ∈ v.schedule.ordered := by
      rw [← waiting_eq_zero_iff]
      simpa using hpos
    exact ⟨m, hm, hname, by simpa using hnot⟩
  · rintro ⟨m, hm, rfl, i, hi, hnot⟩
    refine ⟨_, List.mem_filter.2 ⟨mem_pendingAfter.2 ⟨m, hm, rfl, rfl⟩, ?_⟩, rfl⟩
    have hpos : v.waiting v.schedule.ordered m ≠ 0 := fun hzero =>
      hnot (waiting_eq_zero_iff.1 hzero i hi)
    simpa using hpos

/-- The blocked modules stand in the order of their names, each once. -/
theorem WellFormed.pairwise_blocked : v.schedule.blocked.Pairwise Name.Before := by
  have hd : (((v.pendingAfter v.schedule.ordered).filter (·.2 != 0)).map (·.1)).Nodup :=
    (h.distinct_pendingAfter v.schedule.ordered).sublist (List.filter_sublist.map _)
  rw [h.frontier_ordered.2]
  exact (Name.pairwise_mergeSort_ble id _).and ((List.mergeSort_perm _ _).nodup_iff.2 hd)

theorem WellFormed.mem_ordered_iff {n : Name} :
    n ∈ v.schedule.ordered ↔ v.HasModule n ∧ n ∉ v.schedule.blocked := by
  rw [h.mem_blocked]
  constructor
  · intro hn
    obtain ⟨m, hm, rfl, hall⟩ := h.mem_ordered.1 hn
    refine ⟨List.mem_map_of_mem hm, ?_⟩
    rintro ⟨m', hm', hname, i, hi, hnot⟩
    rw [h.module_name_injective hm' hm hname] at hi
    exact hnot (hall i hi)
  · rintro ⟨hmodule, hnot⟩
    obtain ⟨m, hm, rfl⟩ := List.mem_map.1 hmodule
    refine h.mem_ordered.2 ⟨m, hm, rfl, fun i hi => ?_⟩
    by_contra hi'
    exact hnot ⟨m, hm, rfl, i, hi, hi'⟩

end

end Wiring.Inventory
