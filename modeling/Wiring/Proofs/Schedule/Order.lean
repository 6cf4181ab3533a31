import Wiring.Proofs.Inventory.Survey
import Wiring.Proofs.Schedule.Supply

/-! The order of modules.  Each level is the frontier of the levels before it: it has the modules
whose awaited imports have all been in those levels, as far as they have not been there themselves.
So an import comes before its importer, and the importer in the very next level after the last of
its imports. -/

namespace Wiring

/-- The module has to wait for the other: it imports it, and the other exists and is another one. -/
def Inventory.Awaits (v : Inventory) (n imported : Name) : Prop :=
  v.Imports n imported ∧ v.HasModule imported

/-- The module stands in the level with this number. -/
def Schedule.AtLevel (s : Schedule) (n : Name) (k : Nat) : Prop :=
  ∃ level, s.levels[k]? = some level ∧ n ∈ level

/-- A schedule follows the imports of the modules of an inventory. -/
structure Schedule.Follows (s : Schedule) (v : Inventory) : Prop where
  /-- All levels and the blocked modules together have each module once. -/
  placed_once : ∀ n, v.HasModule n → (s.levels.flatten ++ s.blocked).count n = 1
  placed_only : ∀ n ∈ s.levels.flatten ++ s.blocked, v.HasModule n
  level_ne_nil : ∀ level ∈ s.levels, level ≠ []
  level_sorted : ∀ level ∈ s.levels, level.Pairwise Name.Before
  earlier : ∀ n k, s.AtLevel n k → ∀ i, v.Awaits n i → ∃ j < k, s.AtLevel i j
  /-- A module that waits for none is in the first level. -/
  first : ∀ n k, s.AtLevel n k → (∀ i, ¬ v.Awaits n i) → k = 0
  /-- Any other is in the level after the last one of its imports. -/
  next : ∀ n k, s.AtLevel n k → (∃ i, v.Awaits n i) →
    ∃ i j, v.Awaits n i ∧ s.AtLevel i j ∧ k = j + 1 ∧
      ∀ i' j', v.Awaits n i' → s.AtLevel i' j' → j' ≤ j
  unblocked : ∀ m ∈ v.modules, m.name ∈ s.ordered → ∀ i ∈ m.imports, i ∉ s.blocked
  apart : ∀ level ∈ s.levels, ∀ n ∈ level, ∀ i ∈ level, ¬ v.Imports n i

/-! ### Places -/

section

variable {s : Schedule} {n : Name} {k : Nat}

theorem Schedule.mem_ordered_iff : n ∈ s.ordered ↔ ∃ k, s.AtLevel n k := by
  rw [ordered, List.mem_flatten]
  simp only [List.mem_iff_getElem?, AtLevel]
  exact ⟨fun ⟨level, ⟨k, hk⟩, hn⟩ => ⟨k, level, hk, hn⟩,
    fun ⟨k, level, hk, hn⟩ => ⟨level, ⟨k, hk⟩, hn⟩⟩

/-- What has been in levels before one is in a level with a smaller number. -/
theorem Schedule.mem_flatten_take : n ∈ (s.levels.take k).flatten ↔ ∃ j < k, s.AtLevel n j := by
  rw [List.mem_flatten]
  constructor
  · rintro ⟨level, hlevel, hn⟩
    obtain ⟨j, hj⟩ := List.mem_iff_getElem?.1 hlevel
    rw [List.getElem?_take] at hj
    split at hj
    · next hlt => exact ⟨j, hlt, level, hj, hn⟩
    · cases hj
  · rintro ⟨j, hlt, level, hj, hn⟩
    refine ⟨level, List.mem_iff_getElem?.2 ⟨j, ?_⟩, hn⟩
    rw [List.getElem?_take, if_pos hlt, hj]

end

namespace Inventory

variable {v : Inventory}

section

variable (h : v.WellFormed)
include h

theorem WellFormed.awaits_iff {m : ModuleEntry} (hm : m ∈ v.modules) {i : Name} :
    v.Awaits m.name i ↔ i ∈ v.knownImports m := by
  rw [mem_knownImports]
  constructor
  · rintro ⟨⟨hne, m', hm', hname, himports⟩, hmodule⟩
    rw [h.module_name_injective hm' hm hname] at himports
    exact ⟨himports, hne.symm, hmodule⟩
  · rintro ⟨himports, hne, hmodule⟩
    exact ⟨⟨hne.symm, m, hm, rfl, himports⟩, hmodule⟩

/-! ### Levels as frontiers -/

/-- From a frontier on, each level is in order, and the frontier of what is done before it. -/
theorem Frontier.getElem?_levelsFrom {done free : List Name} {pending : Pending}
    (hf : Frontier v done free) (hp : pending = v.pendingAfter done) {k : Nat} {level : List Name}
    (hk : (Wiring.levelsFrom v.dependents pending free).1[k]? = some level) :
    Frontier v (done ++ ((Wiring.levelsFrom v.dependents pending free).1.take k).flatten) level ∧
      level ≠ [] ∧ level.Pairwise Name.Before := by
  fun_induction Wiring.levelsFrom v.dependents pending free generalizing done k with
  | case1 pending free hempty => cases hk
  | case2 pending free hne first next levels rest heq =>
    rename_i ih
    subst hp
    have hperm : first.Perm free := List.mergeSort_perm free _
    have hfirst : Frontier v done first := hf.perm hperm
    cases k with
    | zero =>
      obtain rfl : first = level := Option.some.inj hk
      rw [List.take_zero, List.flatten_nil, List.append_nil]
      refine ⟨hfirst, fun hnil => hne ?_, ?_⟩
      · rw [hnil] at hperm
        rw [List.perm_nil.1 hperm.symm, List.isEmpty_nil]
      · exact (Name.pairwise_mergeSort_ble id _).and (List.nodup_append.1 hfirst.nodup).2.1
    | succ k =>
      rw [heq] at ih
      have hnext := ih (hfirst.level h) (hfirst.releaseAll_fst h) hk
      rwa [List.append_assoc] at hnext

theorem WellFormed.frontier_of_level {k : Nat} {level : List Name}
    (hk : v.schedule.levels[k]? = some level) :
    Frontier v (v.schedule.levels.take k).flatten level ∧ level ≠ [] ∧
      level.Pairwise Name.Before :=
  h.frontier_start.getElem?_levelsFrom h v.initialPending_eq hk

theorem WellFormed.not_mem_take_of_atLevel {n : Name} {k : Nat}
    (hn : v.schedule.AtLevel n k) : n ∉ (v.schedule.levels.take k).flatten := by
  obtain ⟨level, hk, hn⟩ := hn
  exact (h.frontier_of_level hk).1.not_mem_done hn

/-- No module is in two levels. -/
theorem WellFormed.atLevel_unique {n : Name} {j k : Nat} (hj : v.schedule.AtLevel n j)
    (hk : v.schedule.AtLevel n k) : j = k := by
  rcases Nat.lt_trichotomy j k with hlt | heq | hlt
  · exact absurd (Schedule.mem_flatten_take.2 ⟨j, hlt, hj⟩) (h.not_mem_take_of_atLevel hk)
  · exact heq
  · exact absurd (Schedule.mem_flatten_take.2 ⟨k, hlt, hk⟩) (h.not_mem_take_of_atLevel hj)

theorem WellFormed.exists_of_atLevel {n : Name} {k : Nat} (hn : v.schedule.AtLevel n k) :
    ∃ m ∈ v.modules, m.name = n ∧ ∀ i ∈ v.knownImports m, ∃ j < k, v.schedule.AtLevel i j := by
  obtain ⟨level, hk, hn⟩ := hn
  obtain ⟨m, hm, hname, hwaiting⟩ :=
    ((h.frontier_of_level hk).1.mem_iff n).1 (List.mem_append_right _ hn)
  refine ⟨m, hm, hname, fun i hi => ?_⟩
  exact Schedule.mem_flatten_take.1 (waiting_eq_zero_iff.1 hwaiting i hi)

/-- What a module waits for is in an earlier level. -/
theorem WellFormed.exists_earlier {n : Name} {k : Nat} (hn : v.schedule.AtLevel n k) {i : Name}
    (hi : v.Awaits n i) : ∃ j < k, v.schedule.AtLevel i j := by
  obtain ⟨m, hm, rfl, hearlier⟩ := h.exists_of_atLevel hn
  exact hearlier i ((h.awaits_iff hm).1 hi)

/-- In a level after the first, a module waits for one of the level just before: else it would have
been free for that one. -/
theorem WellFormed.exists_awaited {n : Name} {j : Nat} (hn : v.schedule.AtLevel n (j + 1)) :
    ∃ i, v.Awaits n i ∧ v.schedule.AtLevel i j := by
  obtain ⟨m, hm, rfl, hearlier⟩ := h.exists_of_atLevel hn
  obtain ⟨before, hj⟩ : ∃ before, v.schedule.levels[j]? = some before := by
    obtain ⟨level, hk, -⟩ := hn
    obtain ⟨hlt, -⟩ := List.getElem?_eq_some_iff.1 hk
    exact ⟨_, List.getElem?_eq_getElem (by omega)⟩
  have htake : (v.schedule.levels.take (j + 1)).flatten =
      (v.schedule.levels.take j).flatten ++ before := by
    rw [List.take_add_one, hj, List.flatten_append]
    simp
  have hnot := h.not_mem_take_of_atLevel hn
  rw [htake, (h.frontier_of_level hj).1.mem_iff] at hnot
  obtain ⟨i, hi, hlate⟩ :
      ∃ i ∈ v.knownImports m, i ∉ (v.schedule.levels.take j).flatten := by
    by_contra hnone
    apply hnot
    refine ⟨m, hm, rfl, waiting_eq_zero_iff.2 fun i hi => ?_⟩
    by_contra hlate
    exact hnone ⟨i, hi, hlate⟩
  obtain ⟨j', hlt, hlevel⟩ := hearlier i hi
  have heq : j' = j := by
    by_contra hne
    apply hlate
    exact Schedule.mem_flatten_take.2 ⟨j', by omega, hlevel⟩
  exact ⟨i, (h.awaits_iff hm).2 hi, heq ▸ hlevel⟩

theorem WellFormed.nodup_places : (v.schedule.ordered ++ v.schedule.blocked).Nodup := by
  refine List.nodup_append.2 ⟨h.nodup_ordered, ?_, ?_⟩
  · exact h.pairwise_blocked.imp fun hbefore => hbefore.2
  · rintro n hn _ hblocked rfl
    exact (h.mem_ordered_iff.1 hn).2 hblocked

theorem WellFormed.mem_places {n : Name} :
    n ∈ v.schedule.ordered ++ v.schedule.blocked ↔ v.HasModule n := by
  rw [List.mem_append, h.mem_ordered_iff]
  constructor
  · rintro (⟨hmodule, -⟩ | hblocked)
    · exact hmodule
    · obtain ⟨m, hm, rfl, -⟩ := h.mem_blocked.1 hblocked
      exact List.mem_map_of_mem hm
  · intro hmodule
    by_cases hblocked : n ∈ v.schedule.blocked
    · exact .inr hblocked
    · exact .inl ⟨hmodule, hblocked⟩

theorem WellFormed.follows : v.schedule.Follows v where
  placed_once n hn := List.count_eq_one_of_mem h.nodup_places (h.mem_places.2 hn)
  placed_only n hn := h.mem_places.1 hn
  level_ne_nil level hlevel := by
    obtain ⟨k, hk⟩ := List.mem_iff_getElem?.1 hlevel
    exact (h.frontier_of_level hk).2.1
  level_sorted level hlevel := by
    obtain ⟨k, hk⟩ := List.mem_iff_getElem?.1 hlevel
    exact (h.frontier_of_level hk).2.2
  earlier n k hn i hi := h.exists_earlier hn hi
  first n k hn hnone := by
    cases k with
    | zero => rfl
    | succ j =>
      obtain ⟨i, hi, -⟩ := h.exists_awaited hn
      exact absurd hi (hnone i)
  next n k hn := by
    rintro ⟨i, hi⟩
    obtain ⟨j, hlt, -⟩ := h.exists_earlier hn hi
    obtain ⟨k, rfl⟩ : ∃ before, k = before + 1 := ⟨k - 1, by omega⟩
    obtain ⟨last, hlast, hlevel⟩ := h.exists_awaited hn
    refine ⟨last, k, hlast, hlevel, rfl, fun i' j' hi' hj' => ?_⟩
    obtain ⟨j, hlt, hj⟩ := h.exists_earlier hn hi'
    rw [h.atLevel_unique hj' hj]
    omega
  unblocked m hm hordered i himports hblocked := by
    have hmodule := h.mem_places.1 (List.mem_append_right _ hblocked)
    by_cases hself : i = m.name
    · exact (h.mem_ordered_iff.1 hordered).2 (hself ▸ hblocked)
    · obtain ⟨k, hk⟩ := Schedule.mem_ordered_iff.1 hordered
      obtain ⟨j, -, hj⟩ := h.exists_earlier hk
        ((h.awaits_iff hm).2 (mem_knownImports.2 ⟨himports, hself, hmodule⟩))
      exact (h.mem_ordered_iff.1 (Schedule.mem_ordered_iff.2 ⟨j, hj⟩)).2 hblocked
  apart level hlevel n hn i hi himports := by
    obtain ⟨k, hk⟩ := List.mem_iff_getElem?.1 hlevel
    have hmodule := h.mem_places.1 (List.mem_append_left _
      (Schedule.mem_ordered_iff.2 ⟨k, level, hk, hi⟩))
    obtain ⟨j, hlt, hj⟩ := h.exists_earlier ⟨level, hk, hn⟩ ⟨himports, hmodule⟩
    have heq : j = k := h.atLevel_unique hj ⟨level, hk, hi⟩
    omega

end

end Inventory

/-- The schedule of every graph has each module in one place, in a level or among the blocked, and
levels that follow the imports. -/
theorem Graph.schedule_follows (g : Graph) (known : KnownTypes) :
    (g.survey known).inventory.schedule.Follows (g.survey known).inventory :=
  (g.survey_wellFormed known).follows

namespace Sample

def lib : Path := ⟨⟨"lib", by decide⟩, []⟩

def app : Path := ⟨⟨"app", by decide⟩, []⟩

def web : Path := ⟨⟨"web", by decide⟩, []⟩

def inner : Path := ⟨⟨"inner", by decide⟩, []⟩

def outer : Path := ⟨⟨"outer", by decide⟩, []⟩

def cloud : Path := ⟨⟨"cloud", by decide⟩, []⟩

/-- The web imports what the app imports too, itself, and a module that does not exist; inner and
outer import each other. -/
def layered : Graph :=
  { modules :=
      [{ name := .module web, imports := [.module lib, .module app, .module web, .module cloud] },
       { name := .module app, imports := [.module lib, .module lib] },
       { name := .module inner, imports := [.module outer, .module web] },
       { name := .module outer, imports := [.module inner] },
       { name := .module lib }] }

end Sample

/-- Inner and outer are in no level. -/
example : (Sample.layered.survey {}).inventory.schedule.levels =
    [[.module Sample.lib], [.module Sample.app], [.module Sample.web]] := by decide +kernel

end Wiring
