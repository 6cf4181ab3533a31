import Mathlib.Data.Set.Card
import Wiring.Proofs.Schedule.Order
import Wiring.Proofs.Schedule.Tally

/-! The rounds of the scheduling.  Before each round the number of a module counts those of its
awaited imports that have been in no level, so in the round nothing is taken off a number that is
zero.  No module gets free twice, and there are no more rounds than modules. -/

namespace Wiring

/-- What there is before a round: the levels so far, the numbers of pending imports, and the modules
that are free for the next level. -/
structure Round where
  levels : List (List Name)
  pending : Pending
  free : List Name

namespace Round

def start (v : Inventory) : Round where
  levels := []
  pending := v.initialPending
  free := (v.initialPending.filter (·.2 == 0)).map (·.1)

def level (r : Round) : List Name := r.free.mergeSort Name.ble

/-- The modules from which a pending import is taken off in the round, in the order in which this is
done. -/
def released (v : Inventory) (r : Round) : List Name := r.level.flatMap v.dependents

def next (v : Inventory) (r : Round) : Round where
  levels := r.levels ++ [r.level]
  pending := (r.pending.releaseAll (r.released v)).1
  free := (r.pending.releaseAll (r.released v)).2

/-- There is another round as long as some module is free. -/
inductive Reached (v : Inventory) : Nat → Round → Prop
  | start : Reached v 0 (start v)
  | next {n : Nat} {r : Round} : Reached v n r → r.free ≠ [] → Reached v (n + 1) (r.next v)

/-- The levels from a round on, and the numbers at the end. -/
def run (v : Inventory) (r : Round) : List (List Name) × Pending :=
  levelsFrom v.dependents r.pending r.free

/-- What holds before and during a round that comes after `n` others. -/
structure Counted (v : Inventory) (n : Nat) (r : Round) : Prop where
  /-- The round is one of those that make up the schedule. -/
  on_course : (start v).run v = (r.levels ++ (r.run v).1, (r.run v).2)
  /-- Each module has one number. -/
  keys : r.pending.map (·.1) = v.modules.map (·.name)
  /-- The number is that of the imports that the module awaits and that have been in no level. -/
  counts : ∀ m, v.HasModule m →
    r.pending.lookup m = some {i | v.Awaits m i ∧ i ∉ r.levels.flatten}.ncard
  /-- At any point of the round, no module has become free twice. -/
  free_once : ∀ before after, r.released v = before ++ after →
    (r.levels.flatten ++ r.free ++ (r.pending.releaseAll before).2).Nodup
  /-- Where a pending import is taken off a module, there is one. -/
  positive : ∀ before m after, r.released v = before ++ m :: after →
    ∃ k, (r.pending.releaseAll before).1.lookup m = some (k + 1)
  rounds_le : n ≤ v.modules.length

end Round

namespace Inventory

/-- The imports that a module waits for are those that it awaits and that are not done. -/
theorem WellFormed.waiting_eq_ncard {v : Inventory} (h : v.WellFormed) {m : ModuleEntry}
    (hm : m ∈ v.modules) (done : List Name) :
    v.waiting done m = {i | v.Awaits m.name i ∧ i ∉ done}.ncard := by
  have hset : {i | v.Awaits m.name i ∧ i ∉ done} =
      (((v.knownImports m).filter (· ∉ done)).toFinset : Set Name) := by
    ext i
    simp [h.awaits_iff hm]
  rw [hset, Set.ncard_coe_finset, List.toFinset_card_of_nodup ((v.nodup_knownImports m).filter _),
    waiting, List.countP_eq_length_filter]

end Inventory

namespace Round

variable {v : Inventory}

/-! ### The course of the rounds -/

theorem run_of_free_ne_nil {r : Round} (hfree : r.free ≠ []) :
    r.run v = (r.level :: ((r.next v).run v).1, ((r.next v).run v).2) := by
  rw [run, levelsFrom, if_neg (by simpa using hfree)]
  rfl

theorem run_of_free_eq_nil {r : Round} (hfree : r.free = []) : r.run v = ([], r.pending) := by
  rw [run, levelsFrom, if_pos (by simp [hfree])]

theorem Reached.on_course {n : Nat} {r : Round} (hr : Reached v n r) :
    (Round.start v).run v = (r.levels ++ (r.run v).1, (r.run v).2) := by
  induction hr with
  | start => rfl
  | @next n r hr hfree ih =>
    rw [ih, run_of_free_ne_nil hfree]
    simp [Round.next]

/-! ### Counting -/

/-- Before a round the numbers count the imports that have been in no level, and the free modules
are at the frontier. -/
structure Steady (v : Inventory) (r : Round) : Prop where
  pending_eq : r.pending = v.pendingAfter r.levels.flatten
  frontier : Inventory.Frontier v r.levels.flatten r.free

theorem Steady.level {r : Round} (hs : Steady v r) :
    Inventory.Frontier v r.levels.flatten r.level :=
  hs.frontier.perm (List.mergeSort_perm _ _)

section

variable (h : v.WellFormed)
include h

theorem Steady.start : Steady v (.start v) :=
  ⟨v.initialPending_eq, h.frontier_start⟩

theorem Steady.next {r : Round} (hs : Steady v r) : Steady v (r.next v) := by
  have hlevels : (r.next v).levels.flatten = r.levels.flatten ++ r.level := by simp [Round.next]
  constructor
  · rw [hlevels, ← hs.level.releaseAll_fst h, ← hs.pending_eq]
    rfl
  · rw [hlevels]
    have hfrontier := hs.level.level h
    rwa [← hs.pending_eq] at hfrontier

theorem Reached.steady {n : Nat} {r : Round} (hr : Reached v n r) : Steady v r := by
  induction hr with
  | start => exact .start h
  | next _ _ ih => exact ih.next h

/-- During a round the number of a module is what it was before, less what has been taken off. -/
theorem Steady.lookup_releaseAll {r : Round} (hs : Steady v r) {m : ModuleEntry}
    (hm : m ∈ v.modules) (before : List Name) :
    (r.pending.releaseAll before).1.lookup m.name =
      some (v.waiting r.levels.flatten m - before.count m.name) := by
  have hd := h.distinct_pendingAfter r.levels.flatten
  rw [hs.pending_eq, Pending.releaseAll_fst hd, lookup_eq_some_iff_mem (hd.lower _)]
  exact Pending.mem_lower.2 ⟨_, Inventory.mem_pendingAfter.2 ⟨m, hm, rfl, rfl⟩, rfl⟩

theorem Steady.lookup_pending {r : Round} (hs : Steady v r) {m : ModuleEntry} (hm : m ∈ v.modules) :
    r.pending.lookup m.name = some (v.waiting r.levels.flatten m) :=
  hs.lookup_releaseAll h hm []

/-- In a round a module is not released more often than it waits. -/
theorem Steady.count_released_le {r : Round} (hs : Steady v r) {m : ModuleEntry}
    (hm : m ∈ v.modules) : (r.released v).count m.name ≤ v.waiting r.levels.flatten m := by
  have hlevel : r.level.Nodup := (List.nodup_append.1 hs.level.nodup).2.1
  have hsplit := Inventory.waiting_append (v := v) (fun _ => hs.level.not_mem_done) m
  rw [released, h.count_dependents hm hlevel]
  omega

theorem Steady.positive {r : Round} (hs : Steady v r) {before after : List Name} {n : Name}
    (hsplit : r.released v = before ++ n :: after) :
    ∃ k, (r.pending.releaseAll before).1.lookup n = some (k + 1) := by
  obtain ⟨i, -, hn⟩ : ∃ i ∈ r.level, n ∈ v.dependents i := by
    rw [← List.mem_flatMap, ← released, hsplit]
    simp
  obtain ⟨m, hm, rfl, -⟩ := Inventory.mem_dependents.1 hn
  have hcount := hs.count_released_le h hm
  rw [hsplit, List.count_append, List.count_cons_self] at hcount
  refine ⟨v.waiting r.levels.flatten m - before.count m.name - 1, ?_⟩
  rw [hs.lookup_releaseAll h hm, Option.some_inj]
  omega

theorem Steady.free_once {r : Round} (hs : Steady v r) {before after : List Name}
    (hsplit : r.released v = before ++ after) :
    (r.levels.flatten ++ r.free ++ (r.pending.releaseAll before).2).Nodup := by
  -- what this round frees is what is free at the next frontier
  have hnext := (hs.level.level h).nodup
  rw [← hs.pending_eq, ← released, hsplit, Pending.releaseAll_append] at hnext
  have hperm : (r.levels.flatten ++ r.level).Perm (r.levels.flatten ++ r.free) :=
    (List.mergeSort_perm _ _).append_left _
  have hprefix : (r.levels.flatten ++ r.level ++ (r.pending.releaseAll before).2).Nodup :=
    hnext.sublist ((List.sublist_append_left _ _).append_left _)
  exact (hperm.append_right _).nodup_iff.1 hprefix

/-! ### The number of rounds -/

omit h in
/-- Each round puts a module in a level. -/
theorem Reached.le_length {n : Nat} {r : Round} (hr : Reached v n r) :
    n ≤ r.levels.flatten.length := by
  induction hr with
  | start => exact Nat.zero_le _
  | @next n r _ hfree ih =>
    have hpos : 0 < r.level.length := by
      rw [level, List.length_mergeSort]
      exact List.length_pos_iff.2 hfree
    simp only [Round.next, List.flatten_append, List.length_append, List.flatten_singleton]
    omega

theorem Reached.rounds_le {n : Nat} {r : Round} (hr : Reached v n r) : n ≤ v.modules.length := by
  have hfrontier := (hr.steady h).frontier
  have hsub : r.levels.flatten ⊆ v.modules.map (·.name) := by
    intro i hi
    obtain ⟨m, hm, rfl, -⟩ := (hfrontier.mem_iff i).1 (List.mem_append_left _ hi)
    exact List.mem_map_of_mem hm
  have hd : r.levels.flatten.Nodup := (List.nodup_append.1 hfrontier.nodup).1
  calc
    n ≤ r.levels.flatten.length := hr.le_length
    _ ≤ (v.modules.map (·.name)).length := (List.subperm_of_subset hd hsub).length_le
    _ = v.modules.length := List.length_map _

theorem Reached.counted {n : Nat} {r : Round} (hr : Reached v n r) : Counted v n r := by
  have hs := hr.steady h
  refine ⟨hr.on_course, ?_, fun m hm => ?_, fun _ _ => hs.free_once h, fun _ _ _ => hs.positive h,
    hr.rounds_le h⟩
  · rw [hs.pending_eq, Inventory.pendingAfter, List.map_map]
    rfl
  · obtain ⟨entry, hentry, rfl⟩ := List.mem_map.1 hm
    rw [hs.lookup_pending h hentry, h.waiting_eq_ncard hentry]

/-- The rounds go on to one before which no module is free. -/
theorem Reached.exists_last {n : Nat} {r : Round} (hr : Reached v n r) :
    ∃ n r, Reached v n r ∧ r.free = [] := by
  by_cases hfree : r.free = []
  · exact ⟨n, r, hr, hfree⟩
  · -- each round leaves fewer that there can still be
    have hle := (hr.next hfree).rounds_le h
    exact (hr.next hfree).exists_last
termination_by v.modules.length - n

end

end Round

/-- Counting imports one by one comes to the numbers and dependents with which the levels begin.
Before every round the number of a module is that of the imports that it awaits and that have been
in no level, whatever is taken off in the round is taken off a number that is not zero, and no
module gets free twice.  There are no more rounds than modules, and the last one leaves the levels
and the blocked modules of the schedule. -/
theorem Graph.rounds_counted (g : Graph) (known : KnownTypes) :
    let v := (g.survey known).inventory
    v.importTally = ⟨v.initialPending, v.dependents⟩ ∧
    (∀ n r, Round.Reached v n r → r.Counted v n) ∧
    ∃ n ≤ v.modules.length, ∃ r, Round.Reached v n r ∧ r.free = [] ∧
      v.schedule.levels = r.levels ∧
      v.schedule.blocked = ((r.pending.filter (·.2 != 0)).map (·.1)).mergeSort Name.ble := by
  intro v
  have h : v.WellFormed := g.survey_wellFormed known
  obtain ⟨n, r, hr, hfree⟩ := Round.Reached.exists_last h (.start (v := v))
  have hend := hr.on_course
  rw [Round.run_of_free_eq_nil hfree, List.append_nil] at hend
  refine ⟨h.importTally_eq, fun n r hr => hr.counted h, n, hr.rounds_le h, r, hr, hfree, ?_, ?_⟩
  · exact congrArg Prod.fst hend
  · exact congrArg (fun p => ((p.2.filter (·.2 != 0)).map (·.1)).mergeSort Name.ble) hend

/-- When the lib has been in a level, the web waits for the app alone.  The app is free then, so the
next round takes a pending import off the web, which has not been free before. -/
theorem rounds_counted_layered :
    let v := (Sample.layered.survey {}).inventory
    let r := (Round.start v).next v
    Round.Reached v 1 r ∧ v.HasModule (.module Sample.web) ∧
      {i | v.Awaits (.module Sample.web) i ∧ i ∉ r.levels.flatten}.ncard = 1 ∧
      r.released v = [.module Sample.web] ∧
      (∃ k, r.pending.lookup (.module Sample.web) = some (k + 1)) ∧
      (r.levels.flatten ++ r.free ++ (r.pending.releaseAll [.module Sample.web]).2).Nodup := by
  intro v r
  have hreached : Round.Reached v 1 r := .next .start (by decide +kernel)
  have hweb : v.HasModule (.module Sample.web) := by
    show Name.module Sample.web ∈ v.modules.map (·.name)
    decide +kernel
  have hone : r.pending.lookup (.module Sample.web) = some 1 := by decide +kernel
  have hreleased : r.released v = [.module Sample.web] := by decide +kernel
  have hcounted := (Graph.rounds_counted Sample.layered {}).2.1 1 r hreached
  have hcount := hcounted.counts _ hweb
  rw [hone, Option.some_inj] at hcount
  exact ⟨hreached, hweb, hcount.symm, hreleased, hcounted.positive [] _ [] hreleased,
    hcounted.free_once [.module Sample.web] [] hreleased⟩

end Wiring
