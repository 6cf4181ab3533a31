import Wiring.Proofs.Cycle.Memory

/-! The search from one bean step by step, whatever pairs of beans have been followed before it.  It
ends within a number of steps that the graph and the pairs still to be followed bound, follows no
pair twice, and puts on its stack just the beans that the first one reaches by pairs that it may
follow. -/

namespace Wiring

open Relation

namespace Search

/-- The pair of beans that a step follows: the top of the stack before it and the one that it puts
on top of that, if it does. -/
def followed? (s t : Search) : Option (Name × Name) :=
  if s.frames.length < t.frames.length then
    match s.frames, t.frames with
    | top :: _, new :: _ => some (top.bean, new.bean)
    | _, _ => none
  else none

/-- The search gets from one state to another in a number of steps, and follows some pairs of beans
in their order. -/
inductive Trace (g : BeanGraph) (s : Search) : Nat → List (Name × Name) → Search → Prop
  | start : Trace g s 0 [] s
  | step {n : Nat} {pairs : List (Name × Name)} {t u : Search} :
      Trace g s n pairs t → t.step? g = some u →
        Trace g s (n + 1) (pairs ++ (followed? t u).toList) u

/-- What holds at the start and is kept by every move holds all along. -/
theorem Trace.induct {g : BeanGraph} {s : Search} {P : List (Name × Name) → Search → Prop}
    (hstart : P [] s)
    (hmove : ∀ pairs t u, P pairs t → Move g t u → P (pairs ++ (followed? t u).toList) u)
    {n : Nat} {pairs : List (Name × Name)} {t : Search} (h : Trace g s n pairs t) : P pairs t := by
  induction h with
  | start => exact hstart
  | step _ hstep ih => exact hmove _ _ _ ih (move_of_step? hstep)

/-- Every trace goes on to the end of the run. -/
theorem Trace.run {g : BeanGraph} {s t : Search} {n : Nat} {pairs : List (Name × Name)}
    (h : Trace g s n pairs t) : ∃ n pairs, Trace g s n pairs (t.run g) := by
  fun_induction Search.run g t generalizing n pairs with
  | case1 t hnone => exact ⟨n, pairs, h⟩
  | case2 t u hstep ih => exact ih (h.step hstep)

/-! ### The number of steps -/

theorem length_edges_le (g : BeanGraph) (bean : Name) : (g.edges bean).length ≤ g.pairs.length := by
  unfold BeanGraph.edges BeanGraph.pairs
  induction g with
  | nil => exact Nat.le_refl 0
  | cons p rest ih =>
    obtain ⟨b, es⟩ := p
    rw [List.flatMap_cons, List.length_append, List.length_map]
    by_cases hb : bean = b
    · subst hb
      rw [List.lookup_cons_self, Option.getD_some]
      exact Nat.le_add_right _ _
    · rw [lookup_cons_ne hb]
      exact Nat.le_trans ih (Nat.le_add_left _ _)

/-- The work on the stack, and that of all beans that may yet be put on it. -/
def potential (g : BeanGraph) (s : Search) : Nat :=
  s.work g + s.unexplored g * (g.pairs.length + 1)

/-- A step adds to the work no more than that of one bean. -/
theorem work_le_of_step? {g : BeanGraph} {s t : Search} (h : s.step? g = some t) :
    t.work g ≤ s.work g + g.pairs.length := by
  cases move_of_step? h with
  | leave hnone =>
    simp only [work, List.foldr_cons]
    omega
  | close hedge hmet =>
    simp only [work, List.foldr_cons]
    omega
  | pass hedge hfresh hknown =>
    simp only [work, List.foldr_cons]
    omega
  | @enter top rest heights explored found link target hedge hfresh hnew =>
    have hlt : top.next < (g.edges top.bean).length := (List.getElem?_eq_some_iff.1 hedge).1
    have htarget := length_edges_le g target
    simp only [work, List.foldr_cons]
    omega

theorem potential_lt_of_step? {g : BeanGraph} {s t : Search} (h : s.step? g = some t) :
    t.potential g < s.potential g := by
  unfold potential
  rcases step?_decreases h with hfewer | ⟨hsame, hless⟩
  · have hwork := work_le_of_step? h
    have hpairs : t.unexplored g * (g.pairs.length + 1) + (g.pairs.length + 1) ≤
        s.unexplored g * (g.pairs.length + 1) := by
      rw [← Nat.succ_mul]
      exact Nat.mul_le_mul_right _ hfewer
    omega
  · rw [hsame]
    exact Nat.add_lt_add_right hless _

theorem Trace.steps_le {g : BeanGraph} {s t : Search} {n : Nat} {pairs : List (Name × Name)}
    (h : Trace g s n pairs t) : n + t.potential g ≤ s.potential g := by
  induction h with
  | start => exact Nat.le_of_eq (Nat.zero_add _)
  | step _ hstep ih =>
    have hlt := potential_lt_of_step? hstep
    omega

theorem potential_start_le (g : BeanGraph) (root : Name) (explored : List (Name × Name))
    (found : List Cycle) :
    (start root explored found).potential g ≤
      ((start root explored found).unexplored g + 1) * (g.pairs.length + 1) := by
  have hroot := length_edges_le g root
  rw [Nat.succ_mul, potential, Nat.add_comm]
  refine Nat.add_le_add_left ?_ _
  simp only [work, start, List.foldr_cons, List.foldr_nil]
  omega

/-! ### The stack -/

/-- The frame was entered from the one below it, by the dependency that this has looked at last. -/
def EnteredLast (g : BeanGraph) (f below : Frame) : Prop :=
  ∃ i link, below.next = i + 1 ∧ (g.edges below.bean)[i]? = some (link, f.bean) ∧
    f.via? = some link

/-- No bean is on the stack twice, the heights on record are those of the stack, and its frames were
entered one from the other, beginning with the one of `root`. -/
structure Stacked (g : BeanGraph) (root : Name) (s : Search) : Prop where
  upright : s.Upright
  joined : s.frames.IsChain (EnteredLast g)
  bottom : ∀ f, s.frames.getLast? = some f → f.bean = root ∧ f.via? = none

theorem Stacked.start (g : BeanGraph) (root : Name) (explored : List (Name × Name))
    (found : List Cycle) : Stacked g root (start root explored found) where
  upright := .start root explored found
  joined := List.isChain_singleton _
  bottom := by
    intro f hf
    obtain rfl : ⟨root, none, 0⟩ = f := by simpa [Search.start] using hf
    exact ⟨rfl, rfl⟩

section

variable {g : BeanGraph} {root : Name} {top : Frame} {rest : List Frame} (n : Nat)

theorem isChain_enteredLast_next (h : (top :: rest).IsChain (EnteredLast g)) :
    ({ top with next := n } :: rest).IsChain (EnteredLast g) := by
  rw [List.isChain_cons] at h ⊢
  exact h

theorem bottom_next
    (h : ∀ f, (top :: rest).getLast? = some f → f.bean = root ∧ f.via? = none) :
    ∀ f, ({ top with next := n } :: rest).getLast? = some f → f.bean = root ∧ f.via? = none := by
  intro f hf
  cases rest with
  | nil =>
    obtain rfl : { top with next := n } = f := by simpa using hf
    exact h top rfl
  | cons below rest => exact h f (by simpa using hf)

end

theorem Stacked.move {g : BeanGraph} {root : Name} {s t : Search} (h : Stacked g root s)
    (hm : Move g s t) : Stacked g root t := by
  have hupright := h.upright.move hm
  cases hm with
  | @leave top rest heights explored found hnone =>
    refine ⟨hupright, h.joined.tail, fun f hf => ?_⟩
    cases rest with
    | nil => simp at hf
    | cons below rest => exact h.bottom f (by simpa using hf)
  | close hedge hmet =>
    exact ⟨hupright, isChain_enteredLast_next _ h.joined, bottom_next _ h.bottom⟩
  | pass hedge hfresh hknown =>
    exact ⟨hupright, isChain_enteredLast_next _ h.joined, bottom_next _ h.bottom⟩
  | @enter top rest heights explored found link target hedge hfresh hnew =>
    have hentered : EnteredLast g ⟨target, some link, 0⟩ { top with next := top.next + 1 } :=
      ⟨top.next, link, rfl, hedge, rfl⟩
    refine ⟨hupright,
      List.isChain_cons_cons.2 ⟨hentered, isChain_enteredLast_next _ h.joined⟩, fun f hf => ?_⟩
    exact bottom_next (top.next + 1) h.bottom f (by simpa using hf)

/-- The heights tell where on the stack, counted from its bottom, a bean stands. -/
theorem Upright.lookup_heights {s : Search} (h : s.Upright) {bean : Name} {height : Nat} :
    s.heights.lookup bean = some height ↔
      (s.frames.reverse.map (·.bean))[height]? = some bean := by
  obtain ⟨frames, heights, explored, found⟩ := s
  obtain ⟨hdistinct, hheights⟩ := h
  simp only at hdistinct hheights ⊢
  subst hheights
  constructor
  · intro hlookup
    obtain ⟨above, f, below, rfl, rfl, rfl⟩ := split_of_lookup_heightsOf hlookup
    simp
  · intro hat
    have hmem : bean ∈ frames.map (·.bean) := by
      simpa using List.mem_of_getElem? hat
    obtain ⟨height', hlookup⟩ : ∃ height', (heightsOf frames).lookup bean = some height' :=
      Option.ne_none_iff_exists'.1 fun hnone => lookup_heightsOf_eq_none.1 hnone hmem
    obtain ⟨above, f, below, rfl, rfl, rfl⟩ := split_of_lookup_heightsOf hlookup
    rw [hlookup]
    have hhere : (((above ++ f :: below).reverse).map (·.bean))[below.length]? = some f.bean := by
      simp
    have hlt := (List.getElem?_eq_some_iff.1 hhere).1
    have hd : (((above ++ f :: below).reverse).map (·.bean)).Nodup := by
      rw [List.map_reverse]
      exact List.nodup_reverse.2 hdistinct
    rw [(List.getElem?_inj hlt hd).1 (hhere.trans hat.symm)]

/-! ### The pairs that are followed -/

theorem followed?_eq_none {s t : Search} (h : t.frames.length ≤ s.frames.length) :
    followed? s t = none :=
  if_neg (Nat.not_lt.2 h)

/-- A move follows at most one pair, which then counts as followed and did not before. -/
theorem Move.explored_eq {g : BeanGraph} {s t : Search} (hm : Move g s t) :
    t.explored = (followed? s t).toList ++ s.explored ∧
      ∀ p ∈ (followed? s t).toList, p ∉ s.explored := by
  cases hm with
  | leave hnone => simp [followed?]
  | close hedge hmet => simp [followed?]
  | pass hedge hfresh hknown => simp [followed?]
  | enter hedge hfresh hnew =>
    refine ⟨by simp [followed?], fun p hp => ?_⟩
    obtain rfl : p = _ := by simpa [followed?] using hp
    exact hnew

theorem Trace.explored_eq {g : BeanGraph} {s t : Search} {n : Nat} {pairs : List (Name × Name)}
    (h : Trace g s n pairs t) :
    t.explored = pairs.reverse ++ s.explored ∧ pairs.Nodup ∧ ∀ p ∈ pairs, p ∉ s.explored := by
  refine h.induct (P := fun pairs t => t.explored = pairs.reverse ++ s.explored ∧ pairs.Nodup ∧
    ∀ p ∈ pairs, p ∉ s.explored) ⟨rfl, .nil, by simp⟩ ?_
  rintro pairs t u ⟨hexplored, hdistinct, hnew⟩ hm
  obtain ⟨hnext, hfresh⟩ := hm.explored_eq
  have hapart : ∀ p ∈ (followed? t u).toList, p ∉ pairs ∧ p ∉ s.explored := by
    intro p hp
    simpa [hexplored] using hfresh p hp
  refine ⟨?_, ?_, ?_⟩
  · rw [hnext, hexplored]
    cases followed? t u <;> simp
  · refine List.nodup_append.2 ⟨hdistinct, by cases followed? t u <;> simp, ?_⟩
    rintro p hp q hq rfl
    exact (hapart p hq).1 hp
  · intro p hp
    rcases List.mem_append.1 hp with hp | hp
    · exact hnew p hp
    · exact (hapart p hp).2

/-! ### The beans that are visited -/

/-- The search begins at the bean, or one of the pairs that it has followed leads there. -/
def Reached (root : Name) (pairs : List (Name × Name)) (bean : Name) : Prop :=
  bean = root ∨ ∃ before, (before, bean) ∈ pairs

theorem Reached.append {root bean : Name} {pairs : List (Name × Name)}
    (h : Reached root pairs bean) (more : List (Name × Name)) : Reached root (pairs ++ more) bean :=
  h.imp_right fun ⟨before, hb⟩ => ⟨before, List.mem_append_left _ hb⟩

/-- Every dependency of a bean that has been reached is still to be looked at from the stack, or
must not be followed since it was explored before the search, or leads to a bean that has been
reached. -/
structure Exhaustive (g : BeanGraph) (root : Name) (explored pairs : List (Name × Name))
    (s : Search) : Prop where
  upright : s.Upright
  known : ∀ p ∈ s.explored, p ∈ pairs ∨ p ∈ explored
  stacked : ∀ bean ∈ s.frames.map (·.bean), Reached root pairs bean
  looked : ∀ bean, Reached root pairs bean → ∀ i link target,
    (g.edges bean)[i]? = some (link, target) →
      (∃ f ∈ s.frames, f.bean = bean ∧ f.next ≤ i) ∨ (bean, target) ∈ explored ∨
        Reached root pairs target

theorem Exhaustive.start (g : BeanGraph) (root : Name) (explored : List (Name × Name))
    (found : List Cycle) : Exhaustive g root explored [] (start root explored found) where
  upright := .start root explored found
  known := fun _ hp => .inr hp
  stacked := by
    intro bean hbean
    exact .inl (by simpa [Search.start] using hbean)
  looked := by
    rintro bean (rfl | ⟨_, hb⟩) i link target _
    · exact .inl ⟨_, List.mem_singleton_self _, rfl, Nat.zero_le i⟩
    · cases hb

section

variable {g : BeanGraph} {root : Name} {before pairs : List (Name × Name)} {top : Frame}
  {rest : List Frame} {heights : List (Name × Nat)} {explored : List (Name × Name)}
  {found : List Cycle} {link : Link} {target : Name}
  (h : Exhaustive g root before pairs ⟨top :: rest, heights, explored, found⟩)
include h

/-- When the top has looked at one more dependency, the others are where they were. -/
theorem Exhaustive.advance (hedge : (g.edges top.bean)[top.next]? = some (link, target))
    {bean target' : Name} {i : Nat} {link' : Link} (hbean : Reached root pairs bean)
    (hi : (g.edges bean)[i]? = some (link', target')) :
    (∃ f ∈ { top with next := top.next + 1 } :: rest, f.bean = bean ∧ f.next ≤ i) ∨
      (bean = top.bean ∧ target' = target) ∨ (bean, target') ∈ before ∨
        Reached root pairs target' := by
  rcases h.looked bean hbean i link' target' hi with ⟨f, hf, rfl, hle⟩ | hsettled
  · rcases List.mem_cons.1 hf with rfl | hf
    · rcases Nat.lt_or_eq_of_le hle with hlt | rfl
      · exact .inl ⟨_, List.mem_cons_self, rfl, hlt⟩
      · rw [hedge] at hi
        cases hi
        exact .inr (.inl ⟨rfl, rfl⟩)
    · exact .inl ⟨f, List.mem_cons_of_mem _ hf, rfl, hle⟩
  · exact .inr (.inr hsettled)

/-- The search stays exhaustive when the top passes over a dependency that need not be followed. -/
theorem Exhaustive.settle {found' : List Cycle}
    (hedge : (g.edges top.bean)[top.next]? = some (link, target))
    (hsettled : (top.bean, target) ∈ before ∨ Reached root pairs target) :
    Exhaustive g root before pairs
      ⟨{ top with next := top.next + 1 } :: rest, heights, explored, found'⟩ := by
  refine ⟨⟨h.upright.distinct, h.upright.heights⟩, h.known, h.stacked, ?_⟩
  intro bean hbean i link' target' hi
  rcases h.advance hedge hbean hi with hf | ⟨rfl, rfl⟩ | hsettled'
  · exact .inl hf
  · exact .inr hsettled
  · exact .inr hsettled'

/-- Only a top with nothing left to look at is left. -/
theorem Exhaustive.leave (hnone : (g.edges top.bean)[top.next]? = none)
    (hupright : Upright ⟨rest, heights.filter (·.1 ≠ top.bean), explored, found⟩) :
    Exhaustive g root before pairs
      ⟨rest, heights.filter (·.1 ≠ top.bean), explored, found⟩ := by
  refine ⟨hupright, h.known, fun bean hbean => h.stacked bean (List.mem_cons_of_mem _ hbean), ?_⟩
  intro bean hbean i link target hi
  rcases h.looked bean hbean i link target hi with ⟨f, hf, rfl, hle⟩ | hsettled
  · rcases List.mem_cons.1 hf with rfl | hf
    · have hlt := (List.getElem?_eq_some_iff.1 hi).1
      have hge := List.getElem?_eq_none_iff.1 hnone
      omega
    · exact .inl ⟨f, hf, rfl, hle⟩
  · exact .inr hsettled

/-- A target that is entered has been reached, and all its dependencies are still to be looked at
from the new top of the stack. -/
theorem Exhaustive.enter (hedge : (g.edges top.bean)[top.next]? = some (link, target))
    (hupright : Upright ⟨⟨target, some link, 0⟩ :: { top with next := top.next + 1 } :: rest,
      (target, rest.length + 1) :: heights, (top.bean, target) :: explored, found⟩) :
    Exhaustive g root before (pairs ++ [(top.bean, target)])
      ⟨⟨target, some link, 0⟩ :: { top with next := top.next + 1 } :: rest,
        (target, rest.length + 1) :: heights, (top.bean, target) :: explored, found⟩ := by
  have htarget : Reached root (pairs ++ [(top.bean, target)]) target :=
    .inr ⟨top.bean, List.mem_append_right _ (List.mem_singleton_self _)⟩
  refine ⟨hupright, fun p hp => ?_, fun bean hbean => ?_, fun bean hbean i link' target' hi => ?_⟩
  · rcases List.mem_cons.1 hp with rfl | hp
    · exact .inl (List.mem_append_right _ (List.mem_singleton_self _))
    · exact (h.known p hp).imp_left (List.mem_append_left _)
  · rcases List.mem_cons.1 hbean with rfl | hbean
    · exact htarget
    · exact (h.stacked bean hbean).append _
  · by_cases hnewbean : bean = target
    · exact .inl ⟨_, List.mem_cons_self, hnewbean.symm, Nat.zero_le i⟩
    · have hold : Reached root pairs bean := by
        refine hbean.imp_right fun ⟨a, ha⟩ => ⟨a, ?_⟩
        refine (List.mem_append.1 ha).resolve_right fun heq => hnewbean ?_
        exact (Prod.mk.inj (List.mem_singleton.1 heq)).2
      rcases h.advance hedge hold hi with ⟨f, hf, hfb⟩ | ⟨rfl, rfl⟩ | hsettled
      · exact .inl ⟨f, List.mem_cons_of_mem _ hf, hfb⟩
      · exact .inr (.inr htarget)
      · exact .inr (hsettled.imp_right fun hreached => hreached.append _)

end

theorem Exhaustive.move {g : BeanGraph} {root : Name} {explored pairs : List (Name × Name)}
    {s t : Search} (h : Exhaustive g root explored pairs s) (hm : Move g s t) :
    Exhaustive g root explored (pairs ++ (followed? s t).toList) t := by
  have hupright := h.upright.move hm
  cases hm with
  | leave hnone =>
    rw [followed?_eq_none, Option.toList_none, List.append_nil]
    · exact h.leave hnone hupright
    · exact Nat.le_succ _
  | @close top rest heights _ found link target height hedge hmet =>
    have hheights : heights = heightsOf (top :: rest) := h.upright.heights
    have honstack : target ∈ (top :: rest).map (·.bean) := by
      by_contra hnot
      rw [hheights, lookup_heightsOf_eq_none.2 hnot] at hmet
      cases hmet
    rw [followed?_eq_none, Option.toList_none, List.append_nil]
    · exact h.settle hedge (.inr (h.stacked target honstack))
    · exact Nat.le_refl _
  | @pass top rest heights _ found link target hedge hfresh hknown =>
    have hsettled : (top.bean, target) ∈ explored ∨ Reached root pairs target :=
      (h.known _ hknown).symm.imp_right fun hp => .inr ⟨top.bean, hp⟩
    rw [followed?_eq_none, Option.toList_none, List.append_nil]
    · exact h.settle hedge hsettled
    · exact Nat.le_refl _
  | enter hedge hfresh hnew => simpa [followed?] using h.enter hedge hupright

theorem mem_frames_of_followed? {s t : Search} {a b : Name} (h : followed? s t = some (a, b)) :
    b ∈ t.frames.map (·.bean) := by
  unfold followed? at h
  split at h
  · split at h
    · rename_i top _ new _ _ hnew
      obtain ⟨_, rfl⟩ := Prod.mk.inj (Option.some.inj h)
      rw [hnew]
      exact List.mem_cons_self
    · cases h
  · cases h

/-- The target of every pair that is followed is put on the stack. -/
theorem Trace.stacked_of_mem {g : BeanGraph} {s t : Search} {n : Nat} {pairs : List (Name × Name)}
    {a b : Name} (h : Trace g s n pairs t) (hp : (a, b) ∈ pairs) :
    ∃ n pairs u, Trace g s n pairs u ∧ b ∈ u.frames.map (·.bean) := by
  induction h with
  | start => cases hp
  | @step n pairs t u htrace hstep ih =>
    rcases List.mem_append.1 hp with hp | hp
    · exact ih hp
    · exact ⟨_, _, u, htrace.step hstep, mem_frames_of_followed? (Option.mem_toList.1 hp)⟩

/-- What the search may follow from a bean: a dependency to another one, unless the pair has been
explored before. -/
def MayFollow (g : BeanGraph) (explored : List (Name × Name)) (a b : Name) : Prop :=
  g.Leads a b ∧ (a, b) ∉ explored

theorem Trace.reaches {g : BeanGraph} {root : Name} {explored : List (Name × Name)}
    {found : List Cycle} {n : Nat} {pairs : List (Name × Name)} {t : Search}
    (h : Trace g (.start root explored found) n pairs t) :
    ∀ bean ∈ t.frames.map (·.bean), ReflTransGen (MayFollow g explored) root bean := by
  refine (h.induct (P := fun _ t => explored ⊆ t.explored ∧
    ∀ bean ∈ t.frames.map (·.bean), ReflTransGen (MayFollow g explored) root bean) ?_ ?_).2
  · refine ⟨List.Subset.refl _, fun bean hbean => ?_⟩
    obtain rfl : bean = root := by simpa [Search.start] using hbean
    exact .refl
  · rintro pairs t u ⟨hsub, hreach⟩ hm
    cases hm with
    | leave hnone => exact ⟨hsub, fun bean hbean => hreach bean (List.mem_cons_of_mem _ hbean)⟩
    | close hedge hmet => exact ⟨hsub, hreach⟩
    | pass hedge hfresh hknown => exact ⟨hsub, hreach⟩
    | @enter top rest heights _ found link target hedge hfresh hnew =>
      refine ⟨List.Subset.trans hsub (List.subset_cons_self _ _), fun bean hbean => ?_⟩
      rcases List.mem_cons.1 hbean with rfl | hbean
      · exact (hreach top.bean List.mem_cons_self).tail
          ⟨⟨link, List.mem_of_getElem? hedge⟩, fun hp => hnew (hsub hp)⟩
      · exact hreach bean hbean

/-- The search puts on its stack what it may reach, and nothing else. -/
theorem exists_stacked_iff {g : BeanGraph} {root : Name} {explored : List (Name × Name)}
    {found : List Cycle} {bean : Name} :
    (∃ n pairs t, Trace g (.start root explored found) n pairs t ∧
      bean ∈ t.frames.map (·.bean)) ↔ ReflTransGen (MayFollow g explored) root bean := by
  refine ⟨fun ⟨_, _, _, htrace, hbean⟩ => htrace.reaches bean hbean, fun hreach => ?_⟩
  obtain ⟨n, pairs, hend⟩ :=
    Trace.run (Trace.start (g := g) (s := .start root explored found))
  have hexhaustive : Exhaustive g root explored pairs ((start root explored found).run g) :=
    hend.induct (.start g root explored found) fun _ _ _ h hm => h.move hm
  have hreached : Reached root pairs bean := by
    induction hreach with
    | refl => exact .inl rfl
    | @tail a b _ hfollow ih =>
      obtain ⟨⟨link, hedge⟩, hnew⟩ := hfollow
      obtain ⟨i, hi⟩ := List.mem_iff_getElem?.1 hedge
      rcases hexhaustive.looked a ih i link b hi with ⟨f, hf, _⟩ | hexplored | hb
      · rw [frames_run] at hf
        cases hf
      · exact absurd hexplored hnew
      · exact hb
  rcases hreached with rfl | ⟨a, hp⟩
  · exact ⟨0, [], _, .start, List.mem_singleton_self _⟩
  · exact hend.stacked_of_mem hp

end Search

/-- From any bean and with any pairs explored before, the search comes to an end.  After every step
the beans on its stack are distinct, each frame was entered from the one below it by the dependency
that this has looked at last, and the heights tell which bean stands where.  The number of steps is
bounded by what is left to follow, no pair is followed twice or after it had been explored, and the
beans that are ever on the stack are those that the search may reach. -/
theorem search_invariants (g : BeanGraph) (root : Name) (explored : List (Name × Name))
    (found : List Cycle) :
    let s := Search.start root explored found
    (s.run g).frames = [] ∧ (∃ n pairs, Search.Trace g s n pairs (s.run g)) ∧
    (∀ n pairs t, Search.Trace g s n pairs t →
      n ≤ (s.unexplored g + 1) * (g.pairs.length + 1) ∧
      (t.frames.map (·.bean)).Nodup ∧ t.frames.IsChain (Search.EnteredLast g) ∧
      (∀ f, t.frames.getLast? = some f → f.bean = root ∧ f.via? = none) ∧
      (∀ bean height, t.heights.lookup bean = some height ↔
        (t.frames.reverse.map (·.bean))[height]? = some bean) ∧
      pairs.Nodup ∧ ∀ p ∈ pairs, p ∉ explored) ∧
    ∀ bean, (∃ n pairs t, Search.Trace g s n pairs t ∧ bean ∈ t.frames.map (·.bean)) ↔
      ReflTransGen (Search.MayFollow g explored) root bean := by
  intro s
  refine ⟨Search.frames_run g s, Search.Trace.start.run, fun n pairs t htrace => ?_,
    fun bean => Search.exists_stacked_iff⟩
  have hstacked : Search.Stacked g root t :=
    htrace.induct (P := fun _ t => Search.Stacked g root t) (.start g root explored found)
      fun _ _ _ h hm => h.move hm
  obtain ⟨_, hdistinct, hnew⟩ := htrace.explored_eq
  have hsteps := htrace.steps_le
  have hbound := Search.potential_start_le g root explored found
  exact ⟨Nat.le_trans (Nat.le_trans (Nat.le_add_right _ _) hsteps) hbound,
    hstacked.upright.distinct, hstacked.joined,
    hstacked.bottom, fun _ _ => hstacked.upright.lookup_heights, hdistinct, hnew⟩

/-- The search from the boiler, when the pump's dependency has been explored, has the valve on its
stack at some step, and follows no pair twice up to there. -/
theorem search_invariants_pipes :
    ∃ n pairs t, Search.Trace Sample.pipes
        (.start Sample.relief.source [(Sample.flow.source, Sample.flow.target)] []) n pairs t ∧
      Sample.relief.target ∈ t.frames.map (·.bean) ∧ (t.frames.map (·.bean)).Nodup ∧
      pairs.Nodup ∧ (Sample.flow.source, Sample.flow.target) ∉ pairs := by
  obtain ⟨_, _, hsteps, hstacked⟩ := search_invariants Sample.pipes Sample.relief.source
    [(Sample.flow.source, Sample.flow.target)] []
  have hleads : Sample.pipes.Leads Sample.relief.source Sample.relief.target :=
    ⟨Sample.relief.via, by decide +kernel⟩
  obtain ⟨n, pairs, t, htrace, hvalve⟩ :=
    (hstacked Sample.relief.target).2 (.single ⟨hleads, by decide⟩)
  obtain ⟨_, hdistinct, _, _, _, honce, hnew⟩ := hsteps n pairs t htrace
  exact ⟨n, pairs, t, htrace, hvalve, hdistinct, honce,
    fun hp => hnew _ hp (List.mem_singleton_self _)⟩

end Wiring
