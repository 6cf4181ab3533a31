import Mathlib.Data.List.Nodup
import Wiring.Cycle
import Wiring.Proofs.Lookup

/-! What a step of the search for cycles can do, and what every step keeps: the beans on the stack
are distinct, and the heights on record are their places in it.  A run ends with an empty stack. -/

namespace Wiring.Search

/-! ### Moves -/

/-- The four moves of the search.  It leaves the top of the stack when there is nothing left to look
at; otherwise it looks at the next dependency of the top, which leads to a bean on the stack, or has
been followed before, or is followed now. -/
inductive Move (g : BeanGraph) : Search → Search → Prop
  | leave {top : Frame} {rest : List Frame} {heights : List (Name × Nat)}
      {explored : List (Name × Name)} {found : List Cycle} :
      (g.edges top.bean)[top.next]? = none →
      Move g ⟨top :: rest, heights, explored, found⟩
        ⟨rest, heights.filter (·.1 ≠ top.bean), explored, found⟩
  | close {top : Frame} {rest : List Frame} {heights : List (Name × Nat)}
      {explored : List (Name × Name)} {found : List Cycle} {link : Link} {target : Name}
      {height : Nat} :
      (g.edges top.bean)[top.next]? = some (link, target) →
      heights.lookup target = some height →
      Move g ⟨top :: rest, heights, explored, found⟩
        ⟨{ top with next := top.next + 1 } :: rest, heights, explored,
          found ++ [closeCycle ({ top with next := top.next + 1 } :: rest) height link target]⟩
  | pass {top : Frame} {rest : List Frame} {heights : List (Name × Nat)}
      {explored : List (Name × Name)} {found : List Cycle} {link : Link} {target : Name} :
      (g.edges top.bean)[top.next]? = some (link, target) →
      heights.lookup target = none →
      (top.bean, target) ∈ explored →
      Move g ⟨top :: rest, heights, explored, found⟩
        ⟨{ top with next := top.next + 1 } :: rest, heights, explored, found⟩
  | enter {top : Frame} {rest : List Frame} {heights : List (Name × Nat)}
      {explored : List (Name × Name)} {found : List Cycle} {link : Link} {target : Name} :
      (g.edges top.bean)[top.next]? = some (link, target) →
      heights.lookup target = none →
      (top.bean, target) ∉ explored →
      Move g ⟨top :: rest, heights, explored, found⟩
        ⟨⟨target, some link, 0⟩ :: { top with next := top.next + 1 } :: rest,
          (target, rest.length + 1) :: heights, (top.bean, target) :: explored, found⟩

theorem move_of_step? {g : BeanGraph} {s t : Search} (h : s.step? g = some t) : Move g s t := by
  obtain ⟨frames, heights, explored, found⟩ := s
  unfold step? at h
  cases frames with
  | nil => simp at h
  | cons top rest =>
    simp only at h
    split at h
    · rename_i hnone
      cases h
      exact .leave hnone
    · rename_i link target hedge
      split at h
      · rename_i height hmet
        cases h
        exact .close hedge hmet
      · rename_i hfresh
        split at h
        · rename_i hknown
          cases h
          exact .pass hedge hfresh hknown
        · rename_i hnew
          cases h
          exact .enter hedge hfresh hnew

theorem step?_eq_none_iff {g : BeanGraph} {s : Search} : s.step? g = none ↔ s.frames = [] := by
  obtain ⟨frames, heights, explored, found⟩ := s
  constructor
  · intro h
    unfold step? at h
    cases frames with
    | nil => rfl
    | cons top rest =>
      simp only at h
      split at h
      · simp at h
      · split at h
        · simp at h
        · split at h <;> simp at h
  · rintro rfl
    rfl

/-- What every move keeps holds at the end of a run. -/
theorem run_induct {g : BeanGraph} {P : Search → Prop} (hmove : ∀ s t, P s → Move g s t → P t)
    {s : Search} (h : P s) : P (s.run g) := by
  fun_induction run g s with
  | case1 s hs => exact h
  | case2 s t hs ih => exact ih (hmove s t h (move_of_step? hs))

theorem frames_run (g : BeanGraph) (s : Search) : (s.run g).frames = [] := by
  fun_induction run g s with
  | case1 s hs => exact step?_eq_none_iff.1 hs
  | case2 s t hs ih => exact ih

theorem run_of_step? {g : BeanGraph} {s t : Search} (h : s.step? g = some t) :
    s.run g = t.run g := by
  conv => lhs; rw [run]
  split
  · rename_i hnone
    rw [h] at hnone
    cases hnone
  · rename_i u hu
    rw [h] at hu
    cases hu
    rfl

theorem run_of_frames_eq_nil {g : BeanGraph} {s : Search} (h : s.frames = []) : s.run g = s := by
  rw [run]
  split
  · rfl
  · rename_i t ht
    rw [step?_eq_none_iff.2 h] at ht
    cases ht

theorem found_subset_move {g : BeanGraph} {s t : Search} (hm : Move g s t) : s.found ⊆ t.found := by
  cases hm with
  | close _ _ => exact List.subset_append_left _ _
  | _ => exact List.Subset.refl _

theorem found_subset_run (g : BeanGraph) (s : Search) : s.found ⊆ (s.run g).found :=
  run_induct (P := fun t => s.found ⊆ t.found)
    (fun _ _ ht hm => List.Subset.trans ht (found_subset_move hm)) (List.Subset.refl _)

/-! ### The stack -/

/-- The beans of a stack with their places in it, counted from the bottom. -/
def heightsOf : List Frame → List (Name × Nat)
  | [] => []
  | f :: rest => (f.bean, rest.length) :: heightsOf rest

theorem keys_heightsOf (frames : List Frame) :
    (heightsOf frames).map (·.1) = frames.map (·.bean) := by
  induction frames with
  | nil => rfl
  | cons f rest ih => rw [heightsOf, List.map_cons, ih, List.map_cons]

theorem lookup_heightsOf_eq_none {frames : List Frame} {bean : Name} :
    (heightsOf frames).lookup bean = none ↔ bean ∉ frames.map (·.bean) := by
  rw [lookup_eq_none_iff_keys, keys_heightsOf]

/-- A height on record splits the stack at a frame of its bean, with as many frames below. -/
theorem split_of_lookup_heightsOf {frames : List Frame} {bean : Name} {height : Nat}
    (h : (heightsOf frames).lookup bean = some height) :
    ∃ above f below, frames = above ++ f :: below ∧ f.bean = bean ∧ below.length = height := by
  induction frames with
  | nil => simp [heightsOf] at h
  | cons f rest ih =>
    by_cases hb : bean = f.bean
    · subst hb
      rw [heightsOf, List.lookup_cons_self, Option.some.injEq] at h
      exact ⟨[], f, rest, rfl, rfl, h⟩
    · rw [heightsOf, lookup_cons_ne hb] at h
      obtain ⟨above, f', below, rfl, hf', hlen⟩ := ih h
      exact ⟨f :: above, f', below, rfl, hf', hlen⟩

theorem lt_length_of_lookup_heightsOf {frames : List Frame} {bean : Name} {height : Nat}
    (h : (heightsOf frames).lookup bean = some height) : height < frames.length := by
  obtain ⟨above, f, below, rfl, _, rfl⟩ := split_of_lookup_heightsOf h
  rw [List.length_append, List.length_cons]
  omega

theorem filter_heightsOf {frames : List Frame} {bean : Name} (h : bean ∉ frames.map (·.bean)) :
    (heightsOf frames).filter (·.1 ≠ bean) = heightsOf frames := by
  rw [List.filter_eq_self]
  intro p hp
  have hmem : p.1 ∈ frames.map (·.bean) := keys_heightsOf frames ▸ List.mem_map_of_mem hp
  have hne : p.1 ≠ bean := fun he => h (he ▸ hmem)
  simpa using hne

/-- No bean is on the stack twice, and the heights on record are those of the stack. -/
structure Upright (s : Search) : Prop where
  distinct : (s.frames.map (·.bean)).Nodup
  heights : s.heights = heightsOf s.frames

theorem Upright.start (root : Name) (explored : List (Name × Name)) (found : List Cycle) :
    Upright (start root explored found) :=
  ⟨List.nodup_singleton _, rfl⟩

theorem Upright.move {g : BeanGraph} {s t : Search} (h : s.Upright) (hm : Move g s t) :
    t.Upright := by
  obtain ⟨hdistinct, hheights⟩ := h
  cases hm with
  | @leave top rest heights explored found hnone =>
    obtain ⟨htop, hrest⟩ := List.nodup_cons.1 hdistinct
    refine ⟨hrest, ?_⟩
    simp only at hheights ⊢
    rw [hheights, heightsOf, List.filter_cons_of_neg (by simp), filter_heightsOf htop]
  | close hedge hmet => exact ⟨hdistinct, hheights⟩
  | pass hedge hfresh hknown => exact ⟨hdistinct, hheights⟩
  | enter hedge hfresh hnew =>
    simp only at hheights
    rw [hheights, lookup_heightsOf_eq_none] at hfresh
    refine ⟨List.nodup_cons.2 ⟨hfresh, hdistinct⟩, ?_⟩
    simp only [hheights, heightsOf, List.length_cons]

/-! ### Closed cycles -/

theorem mem_steps_ofSteps {steps : List Step} {step : Step} :
    step ∈ (Cycle.ofSteps steps).steps ↔ step ∈ steps := by
  rw [Cycle.ofSteps, List.mem_append, or_comm, ← List.mem_append, List.take_append_drop]

theorem mem_steps_closeCycle {top : Frame} {rest : List Frame} {height : Nat} (link : Link)
    (target : Name) (h : height ≤ rest.length) :
    ⟨top.bean, link, target⟩ ∈ (closeCycle (top :: rest) height link target).steps := by
  have hlast : ((top :: rest).reverse.drop height).getLast? = some top := by
    rw [List.getLast?_drop, if_neg (by simp; omega), List.reverse_cons, List.getLast?_concat]
  rw [closeCycle, mem_steps_ofSteps]
  refine List.mem_append_right _ ?_
  rw [hlast]
  exact List.mem_cons_self

/-! ### Bounded searches -/

/-- The search after `n` steps, or when its stack is empty. -/
def stepsWithin (g : BeanGraph) : Nat → Search → Search
  | 0, s => s
  | n + 1, s =>
    match s.step? g with
    | none => s
    | some t => stepsWithin g n t

/-- A run ends where enough steps lead to an empty stack. -/
theorem run_eq_stepsWithin {g : BeanGraph} {s : Search} (n : Nat)
    (h : (stepsWithin g n s).frames = []) : s.run g = stepsWithin g n s := by
  induction n generalizing s with
  | zero => exact run_of_frames_eq_nil h
  | succ n ih =>
    unfold stepsWithin at h ⊢
    cases hs : s.step? g with
    | none => exact run_of_frames_eq_nil (step?_eq_none_iff.1 hs)
    | some t =>
      rw [hs] at h
      rw [run_of_step? hs, ih h]

end Wiring.Search

namespace Wiring.BeanGraph

/-- The cycles that the searches from some beans find if each of them ends within `n` steps. -/
def searchWithin (g : BeanGraph) (memory : Bool) (n : Nat) (explored : List (Name × Name))
    (found : List Cycle) : List Name → Option (List Cycle)
  | [] => some found
  | root :: roots =>
    let s := Search.stepsWithin g n (.start root (if memory then explored else []) found)
    if s.frames.isEmpty then g.searchWithin memory n s.explored s.found roots else none

theorem searchAll_of_searchWithin {g : BeanGraph} {memory : Bool} {n : Nat}
    {explored : List (Name × Name)} {found cycles : List Cycle} {roots : List Name}
    (h : g.searchWithin memory n explored found roots = some cycles) :
    g.searchAll memory explored found roots = cycles := by
  induction roots generalizing explored found with
  | nil => exact Option.some.inj h
  | cons root roots ih =>
    rw [searchWithin] at h
    have hempty : (Search.stepsWithin g n
        (.start root (if memory then explored else []) found)).frames = [] := by
      by_contra hne
      simp [hne] at h
    simp only [hempty, List.isEmpty_nil, if_true] at h
    rw [searchAll, Search.run_eq_stepsWithin n hempty]
    exact ih h

theorem cycles_eq_nil_of_searchWithin {g : BeanGraph} {memory : Bool} {n : Nat}
    (h : g.searchWithin memory n [] [] (g.map (·.1)) = some []) : g.cycles memory = [] := by
  rw [cycles, searchAll_of_searchWithin h, List.mergeSort_nil]
  rfl

end Wiring.BeanGraph
