import Wiring.Proofs.Cycle.Dependency
import Wiring.Proofs.Cycle.Search

/-! The search without memory misses no dependency on a cycle.  The search from a bean comes to
every bean that it reaches, looks at each of its dependencies, and so closes a cycle with every
dependency that leads back to the first bean: that one is on the stack for the whole run. -/

namespace Wiring

open Relation

namespace Search

/-- The search from `root` has come to the bean. -/
def Visited (root : Name) (s : Search) (bean : Name) : Prop :=
  bean = root ∨ ∃ before, (before, bean) ∈ s.explored

/-- The search has come to the target of the step, and if that is `root`, the step is on a cycle
that has been found. -/
def Settled (root : Name) (s : Search) (step : Step) : Prop :=
  s.Visited root step.target ∧ (step.target = root → ∃ c ∈ s.found, step ∈ c.steps)

/-- Of the beans that the search from `root` has come to, every dependency is settled or still to be
looked at from the stack. -/
structure Thorough (g : BeanGraph) (root : Name) (s : Search) : Prop where
  upright : s.Upright
  bottom : ∀ bean, (s.frames.map (·.bean)).getLast? = some bean → bean = root
  stacked : ∀ bean ∈ s.frames.map (·.bean), s.Visited root bean
  looked : ∀ bean, s.Visited root bean → ∀ i link target,
    (g.edges bean)[i]? = some (link, target) →
      (∃ f ∈ s.frames, f.bean = bean ∧ f.next ≤ i) ∨ s.Settled root ⟨bean, link, target⟩

theorem Visited.mono {root bean : Name} {s t : Search} (h : s.Visited root bean)
    (hsub : s.explored ⊆ t.explored) : t.Visited root bean :=
  h.imp_right fun ⟨before, hb⟩ => ⟨before, hsub hb⟩

theorem Settled.mono {root : Name} {step : Step} {s t : Search} (h : s.Settled root step)
    (hsub : s.explored ⊆ t.explored) (hfound : s.found ⊆ t.found) : t.Settled root step :=
  ⟨h.1.mono hsub, fun heq => (h.2 heq).imp fun _ hc => ⟨hfound hc.1, hc.2⟩⟩

theorem Thorough.start (g : BeanGraph) (root : Name) (found : List Cycle) :
    Thorough g root (start root [] found) where
  upright := .start root [] found
  bottom := by
    intro bean hbean
    simpa [Search.start] using hbean.symm
  stacked := by
    intro bean hbean
    exact .inl (by simpa [Search.start] using hbean)
  looked := by
    rintro bean (rfl | ⟨before, hb⟩) i link target _
    · exact .inl ⟨_, List.mem_singleton_self _, rfl, Nat.zero_le i⟩
    · simp [Search.start] at hb

section

variable {g : BeanGraph} {root : Name} {top : Frame} {rest : List Frame}
  {heights : List (Name × Nat)} {explored : List (Name × Name)} {found : List Cycle} {link : Link}
  {target : Name}

/-- A target that has no height is not the first bean of the search, which is on the stack as long
as that is not empty. -/
theorem Thorough.ne_root (h : Thorough g root ⟨top :: rest, heights, explored, found⟩)
    (hfresh : heights.lookup target = none) : target ≠ root := by
  have hheights : heights = heightsOf (top :: rest) := h.upright.heights
  rw [hheights, lookup_heightsOf_eq_none] at hfresh
  have hne : (top :: rest).map (·.bean) ≠ [] := List.cons_ne_nil _ _
  have hlast := h.bottom _ (List.getLast?_eq_some_getLast hne)
  rintro rfl
  exact hfresh (hlast ▸ List.getLast_mem hne)

/-- When the top has looked at one more dependency, all others are settled or still to be looked at
as before. -/
theorem Thorough.advance (h : Thorough g root ⟨top :: rest, heights, explored, found⟩)
    (hedge : (g.edges top.bean)[top.next]? = some (link, target)) {bean target' : Name} {i : Nat}
    {link' : Link} (hbean : Visited root ⟨top :: rest, heights, explored, found⟩ bean)
    (hi : (g.edges bean)[i]? = some (link', target')) :
    (∃ f ∈ { top with next := top.next + 1 } :: rest, f.bean = bean ∧ f.next ≤ i) ∨
      (⟨bean, link', target'⟩ : Step) = ⟨top.bean, link, target⟩ ∨
        Settled root ⟨top :: rest, heights, explored, found⟩ ⟨bean, link', target'⟩ := by
  rcases h.looked bean hbean i link' target' hi with ⟨f, hf, rfl, hle⟩ | hs
  · rcases List.mem_cons.1 hf with rfl | hf
    · rcases Nat.lt_or_eq_of_le hle with hlt | rfl
      · exact .inl ⟨_, List.mem_cons_self, rfl, hlt⟩
      · rw [hedge] at hi
        cases hi
        exact .inr (.inl rfl)
    · exact .inl ⟨f, List.mem_cons_of_mem _ hf, rfl, hle⟩
  · exact .inr (.inr hs)

/-- The search stays thorough when it settles a dependency of the top without following it. -/
theorem Thorough.settle (h : Thorough g root ⟨top :: rest, heights, explored, found⟩)
    {found' : List Cycle} (hfound : found ⊆ found')
    (hedge : (g.edges top.bean)[top.next]? = some (link, target))
    (hs : Settled root ⟨{ top with next := top.next + 1 } :: rest, heights, explored, found'⟩
      ⟨top.bean, link, target⟩) :
    Thorough g root ⟨{ top with next := top.next + 1 } :: rest, heights, explored, found'⟩ := by
  refine ⟨⟨h.upright.distinct, h.upright.heights⟩, h.bottom, h.stacked, ?_⟩
  intro bean hbean i link' target' hi
  rcases h.advance hedge hbean hi with hf | heq | hs'
  · exact .inl hf
  · rw [heq]
    exact .inr hs
  · exact .inr (hs'.mono (List.Subset.refl _) hfound)

/-- Only a top with nothing left to look at is left. -/
theorem Thorough.leave (h : Thorough g root ⟨top :: rest, heights, explored, found⟩)
    (hupright : Upright ⟨rest, heights.filter (·.1 ≠ top.bean), explored, found⟩)
    (hnone : (g.edges top.bean)[top.next]? = none) :
    Thorough g root ⟨rest, heights.filter (·.1 ≠ top.bean), explored, found⟩ := by
  refine ⟨hupright, fun bean hbean => ?_, fun bean hbean => ?_,
    fun bean hbean i link target hi => ?_⟩
  · cases rest with
    | nil => simp at hbean
    | cons f' rest' => exact h.bottom bean hbean
  · exact h.stacked bean (List.mem_cons_of_mem _ hbean)
  · rcases h.looked bean hbean i link target hi with ⟨f, hf, rfl, hle⟩ | hs
    · rcases List.mem_cons.1 hf with rfl | hf
      · have hlt := (List.getElem?_eq_some_iff.1 hi).1
        have hge := List.getElem?_eq_none_iff.1 hnone
        omega
      · exact .inl ⟨f, hf, rfl, hle⟩
    · exact .inr hs

/-- A target that is on the stack is settled by the cycle that it closes. -/
theorem Thorough.close (h : Thorough g root ⟨top :: rest, heights, explored, found⟩) {height : Nat}
    (hedge : (g.edges top.bean)[top.next]? = some (link, target))
    (hmet : heights.lookup target = some height) :
    Thorough g root ⟨{ top with next := top.next + 1 } :: rest, heights, explored,
      found ++ [closeCycle ({ top with next := top.next + 1 } :: rest) height link target]⟩ := by
  have hheights : heights = heightsOf (top :: rest) := h.upright.heights
  rw [hheights] at hmet
  obtain ⟨above, f, below, hsplit, rfl, hlen⟩ := split_of_lookup_heightsOf hmet
  refine h.settle (List.subset_append_left _ _) hedge ⟨?_, fun _ => ?_⟩
  · exact h.stacked f.bean (List.mem_map_of_mem (show f ∈ top :: rest by rw [hsplit]; simp))
  · have hlt := lt_length_of_lookup_heightsOf hmet
    exact ⟨_, List.mem_append_right _ (List.mem_singleton_self _),
      mem_steps_closeCycle link f.bean (Nat.le_of_lt_succ hlt)⟩

/-- A target that is entered has all its dependencies before it, from the new top of the stack. -/
theorem Thorough.enter (h : Thorough g root ⟨top :: rest, heights, explored, found⟩)
    (hupright : Upright ⟨⟨target, some link, 0⟩ :: { top with next := top.next + 1 } :: rest,
      (target, rest.length + 1) :: heights, (top.bean, target) :: explored, found⟩)
    (hedge : (g.edges top.bean)[top.next]? = some (link, target))
    (hfresh : heights.lookup target = none) :
    Thorough g root ⟨⟨target, some link, 0⟩ :: { top with next := top.next + 1 } :: rest,
      (target, rest.length + 1) :: heights, (top.bean, target) :: explored, found⟩ := by
  have hsub : explored ⊆ (top.bean, target) :: explored := List.subset_cons_self _ _
  have htarget : Visited root
      ⟨⟨target, some link, 0⟩ :: { top with next := top.next + 1 } :: rest,
      (target, rest.length + 1) :: heights, (top.bean, target) :: explored, found⟩ target :=
    .inr ⟨top.bean, List.mem_cons_self⟩
  refine ⟨hupright, fun bean hbean => h.bottom bean hbean, fun bean hbean => ?_,
    fun bean hbean i link' target' hi => ?_⟩
  · rcases List.mem_cons.1 hbean with rfl | hbean
    · exact htarget
    · exact (h.stacked bean hbean).mono hsub
  · by_cases hnewbean : bean = target
    · exact .inl ⟨_, List.mem_cons_self, hnewbean.symm, Nat.zero_le i⟩
    · have hold : Visited root ⟨top :: rest, heights, explored, found⟩ bean := by
        refine hbean.imp_right fun ⟨before, hb⟩ => ⟨before, ?_⟩
        exact (List.mem_cons.1 hb).resolve_left fun heq => hnewbean (Prod.mk.inj heq).2
      rcases h.advance hedge hold hi with ⟨f, hf, hfb⟩ | heq | hs
      · exact .inl ⟨f, List.mem_cons_of_mem _ hf, hfb⟩
      · rw [heq]
        exact .inr ⟨htarget, fun heq => absurd heq (h.ne_root hfresh)⟩
      · exact .inr (hs.mono hsub (List.Subset.refl _))

end

theorem Thorough.move {g : BeanGraph} {root : Name} {s t : Search} (h : Thorough g root s)
    (hm : Move g s t) : Thorough g root t := by
  have hupright := h.upright.move hm
  cases hm with
  | leave hnone => exact h.leave hupright hnone
  | close hedge hmet => exact h.close hedge hmet
  | pass hedge hfresh hknown =>
    exact h.settle (List.Subset.refl _) hedge
      ⟨.inr ⟨_, hknown⟩, fun heq => absurd heq (h.ne_root hfresh)⟩
  | enter hedge hfresh hnew => exact h.enter hupright hedge hfresh

/-- The search from a bean comes to all that the bean reaches, and closes a cycle with every
dependency that leads back to it. -/
theorem closes_all {g : BeanGraph} {root bean : Name} {link : Link} (found : List Cycle)
    (hreach : ReflTransGen g.Leads root bean) (hedge : (link, root) ∈ g.edges bean) :
    ∃ c ∈ ((start root [] found).run g).found, ⟨bean, link, root⟩ ∈ c.steps := by
  have hthorough : Thorough g root ((start root [] found).run g) :=
    run_induct (fun _ _ h hm => h.move hm) (.start g root found)
  have hsettled : ∀ a, Visited root ((start root [] found).run g) a → ∀ l b, (l, b) ∈ g.edges a →
      Settled root ((start root [] found).run g) ⟨a, l, b⟩ := by
    intro a ha l b hb
    obtain ⟨i, hi⟩ := List.mem_iff_getElem?.1 hb
    refine (hthorough.looked a ha i l b hi).resolve_left ?_
    rintro ⟨f, hf, _⟩
    simp [frames_run] at hf
  have hvisited : Visited root ((start root [] found).run g) bean := by
    clear hedge
    induction hreach with
    | refl => exact .inl rfl
    | tail _ hleads ih =>
      obtain ⟨l, hl⟩ := hleads
      exact (hsettled _ ih l _ hl).1
  exact (hsettled bean hvisited link root hedge).2 rfl

end Search

/-! ### All searches -/

namespace BeanGraph

theorem mem_cycles {g : BeanGraph} {memory : Bool} {c : Cycle} :
    c ∈ g.cycles memory ↔ c ∈ g.searchAll memory [] [] (g.map (·.1)) := by
  rw [cycles, mem_collapse, List.mem_mergeSort]

theorem found_subset_searchAll (g : BeanGraph) (memory : Bool) (explored : List (Name × Name))
    (found : List Cycle) (roots : List Name) : found ⊆ g.searchAll memory explored found roots := by
  induction roots generalizing explored found with
  | nil => exact List.Subset.refl _
  | cons root roots ih =>
    exact List.Subset.trans (Search.found_subset_run g (Search.start root _ found)) (ih _ _)

/-- Without memory, what the search from one bean finds is what a search on its own finds. -/
theorem run_subset_searchAll (g : BeanGraph) {root : Name} {roots : List Name} (h : root ∈ roots)
    (explored : List (Name × Name)) (found : List Cycle) :
    ∃ before, ((Search.start root [] before).run g).found ⊆
      g.searchAll false explored found roots := by
  induction roots generalizing explored found with
  | nil => simp at h
  | cons first roots ih =>
    rcases List.mem_cons.1 h with rfl | h
    · exact ⟨found, found_subset_searchAll g false _ _ roots⟩
    · exact ih h _ _

/-- Every edge that lies on a closed walk is a step of a cycle that is found. -/
theorem exists_mem_cycles {g : BeanGraph} {a b : Name} {link : Link} (hedge : (link, b) ∈ g.edges a)
    (hreach : ReflTransGen g.Leads b a) : ∃ c ∈ g.cycles false, ⟨a, link, b⟩ ∈ c.steps := by
  have hroot : b ∈ g.map (·.1) := by
    rcases hreach.cases_head with rfl | ⟨_, ⟨l, hl⟩, _⟩
    · exact mem_keys_of_mem_edges hedge
    · exact mem_keys_of_mem_edges hl
  obtain ⟨before, hsub⟩ := run_subset_searchAll g hroot [] []
  obtain ⟨c, hc, hstep⟩ := Search.closes_all before hreach hedge
  exact ⟨c, mem_cycles.2 (hsub hc), hstep⟩

end BeanGraph

/-- Every dependency that lies on a cycle, whichever link it is by, is a step of a cycle that is
found without memory, and every bean on a cycle is in one that is found. -/
theorem cycles_complete (v : Inventory) (p : Plan) :
    (∀ a link b, Dependency v p a link b → ReflTransGen (Depends v p) b a →
      ∃ c ∈ (BeanGraph.ofPlan v p).cycles false, ⟨a, link, b⟩ ∈ c.steps) ∧
    ∀ bean, TransGen (Depends v p) bean bean →
      ∃ c ∈ (BeanGraph.ofPlan v p).cycles false, bean ∈ c.beans := by
  have hedges : ∀ a link b, Dependency v p a link b → ReflTransGen (Depends v p) b a →
      ∃ c ∈ (BeanGraph.ofPlan v p).cycles false, ⟨a, link, b⟩ ∈ c.steps := by
    intro a link b hdep hreach
    exact BeanGraph.exists_mem_cycles (BeanGraph.mem_edges_ofPlan.2 hdep)
      (BeanGraph.leads_ofPlan ▸ hreach)
  refine ⟨hedges, fun bean hbean => ?_⟩
  obtain ⟨next, ⟨link, hdep⟩, hreach⟩ := TransGen.head'_iff.1 hbean
  obtain ⟨c, hc, hstep⟩ := hedges bean link next hdep hreach
  exact ⟨c, hc, List.mem_map.2 ⟨_, hstep, rfl⟩⟩

namespace Sample

def plant : Path := ⟨⟨"plant", by decide⟩, []⟩

def pump : Path := ⟨⟨"pump", by decide⟩, []⟩

def motor : Path := ⟨⟨"motor", by decide⟩, []⟩

/-- The entry of a socket of one bean that gets another. -/
def wire (owner bean : Path) (socket : Identifier) : PlanEntry :=
  { socket := .socket plant owner socket
    owner := .bean plant owner
    origin := .beanSocket
    multiplicity := .single
    resolvedIn? := some (.module plant)
    outcome := .single (.bean plant bean) none }

def drive : PlanEntry := wire pump motor ⟨"drive", by decide⟩

def spare : PlanEntry := wire pump motor ⟨"spare", by decide⟩

def coolant : PlanEntry := wire motor pump ⟨"coolant", by decide⟩

/-- A pump takes a motor twice, and the motor takes the pump. -/
def cooled : Plan := Plan.insertAll {} [drive, spare, coolant]

end Sample

/-- Of two parallel sockets each is on a cycle that is found. -/
theorem cycles_complete_cooled :
    (∃ c ∈ (BeanGraph.ofPlan {} Sample.cooled).cycles false,
      ⟨Sample.drive.owner, .socket Sample.drive.socket, Sample.coolant.owner⟩ ∈ c.steps) ∧
    ∃ c ∈ (BeanGraph.ofPlan {} Sample.cooled).cycles false,
      ⟨Sample.spare.owner, .socket Sample.spare.socket, Sample.coolant.owner⟩ ∈ c.steps := by
  obtain ⟨hedges, _⟩ := cycles_complete {} Sample.cooled
  have hback : Depends {} Sample.cooled Sample.coolant.owner Sample.drive.owner :=
    ⟨_, .socket (e := Sample.coolant) (by decide +kernel) List.mem_cons_self⟩
  constructor
  · refine hedges _ _ _ (.socket (e := Sample.drive) ?_ List.mem_cons_self) (.single hback)
    decide +kernel
  · refine hedges _ _ _ (.socket (e := Sample.spare) ?_ List.mem_cons_self) (.single hback)
    decide +kernel

end Wiring
