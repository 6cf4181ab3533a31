import Mathlib.Data.List.Chain
import Mathlib.Data.List.Rotate
import Wiring.Proofs.Cycle.Complete
import Wiring.Proofs.Cycle.Order

/-! Every cycle that the searches find is one of the graph.  The frames of the stack are joined by
the links that were followed, so what stands on it above a bean that is met again is a closed walk
through distinct beans.  A cycle is turned to its smallest bean, so no two of those found are the
same walk begun at different beans. -/

namespace Wiring

namespace Cycle

/-- A closed walk along the edges of the graph that comes to no bean twice. -/
structure Proper (g : BeanGraph) (c : Cycle) : Prop where
  nonempty : c.steps ≠ []
  edges : ∀ s ∈ c.steps, (s.via, s.target) ∈ g.edges s.source
  closed : c.steps.map (·.target) = c.beans.rotate 1
  distinct : c.beans.Nodup

/-- The first bean is the smallest. -/
def Canonical (c : Cycle) : Prop := ∀ first, c.beans.head? = some first → ∀ b ∈ c.beans, first ≤ b

theorem Proper.rotate {g : BeanGraph} {steps : List Step} (h : Proper g ⟨steps⟩) (n : Nat) :
    Proper g ⟨steps.rotate n⟩ := by
  refine ⟨?_, fun s hs => h.edges s (List.mem_rotate.1 hs), ?_, ?_⟩
  · simpa using h.nonempty
  · have hclosed : steps.map (·.target) = (steps.map (·.source)).rotate 1 := h.closed
    simp only [beans, List.map_rotate, hclosed, List.rotate_rotate, Nat.add_comm]
  · simpa [beans, List.map_rotate] using h.distinct

/-! ### Turning to the smallest bean -/

theorem smallest_spec {steps : List Step} (h : steps ≠ []) :
    ∃ least, steps[smallest steps]? = some least ∧ ∀ s ∈ steps, least.source ≤ s.source := by
  fun_induction smallest steps with
  | case1 => exact absurd rfl h
  | case2 s => exact ⟨s, rfl, by simp [Name.le_refl]⟩
  | case3 s t rest i least hi hle ih =>
    obtain ⟨least', hsome, hleast⟩ := ih (by simp)
    obtain rfl : least = least' := Option.some.inj (hi.symm.trans hsome)
    refine ⟨s, rfl, fun u hu => ?_⟩
    rcases List.mem_cons.1 hu with rfl | hu
    · exact Name.le_refl _
    · exact Name.le_trans hle (hleast u hu)
  | case4 s t rest i least hi hgt ih =>
    obtain ⟨least', hsome, hleast⟩ := ih (by simp)
    obtain rfl : least = least' := Option.some.inj (hi.symm.trans hsome)
    refine ⟨least, by simpa using hi, fun u hu => ?_⟩
    rcases List.mem_cons.1 hu with rfl | hu
    · exact (Name.le_total _ _).resolve_right hgt
    · exact hleast u hu
  | case5 s t rest i hi ih =>
    obtain ⟨least, hsome, _⟩ := ih (by simp)
    rw [hi] at hsome
    cases hsome

theorem ofSteps_eq {steps : List Step} (h : steps ≠ []) :
    ofSteps steps = ⟨steps.rotate (smallest steps)⟩ := by
  obtain ⟨least, hleast, _⟩ := smallest_spec h
  have hlt := (List.getElem?_eq_some_iff.1 hleast).1
  rw [List.rotate_eq_drop_append_take (Nat.le_of_lt hlt)]
  rfl

theorem Proper.ofSteps {g : BeanGraph} {steps : List Step} (h : Proper g ⟨steps⟩) :
    (ofSteps steps).Proper g ∧ (ofSteps steps).Canonical := by
  obtain ⟨least, hleast, hall⟩ := smallest_spec h.nonempty
  have hlt := (List.getElem?_eq_some_iff.1 hleast).1
  rw [ofSteps_eq h.nonempty]
  refine ⟨h.rotate _, fun first hfirst b hb => ?_⟩
  have hhead : (steps.rotate (smallest steps)).head? = some least := by
    rw [List.head?_rotate hlt, hleast]
  obtain rfl : least.source = first := by
    simpa only [beans, List.head?_map, hhead, Option.map_some, Option.some.injEq] using hfirst
  obtain ⟨s, hs, rfl⟩ := List.mem_map.1 hb
  exact hall s (List.mem_rotate.1 hs)

theorem mod_eq_zero_of_head?_rotate {names : List Name} (hd : names.Nodup) (hne : names ≠ [])
    {n : Nat} (h : (names.rotate n).head? = names.head?) : n % names.length = 0 := by
  have hlt : n % names.length < names.length := Nat.mod_lt _ (List.length_pos_iff.2 hne)
  rw [← List.rotate_mod, List.head?_rotate hlt, List.head?_eq_getElem?] at h
  exact (List.getElem?_inj hlt hd).1 h

/-- Two cycles that begin at their smallest beans are the same if one is the other turned. -/
theorem eq_of_isRotated {g : BeanGraph} {c d : Cycle} (hp : c.Proper g) (hc : c.Canonical)
    (hd : d.Canonical) (h : c.steps.IsRotated d.steps) : c = d := by
  obtain ⟨cs⟩ := c
  obtain ⟨ds⟩ := d
  obtain ⟨n, rfl⟩ := h
  have hne : beans ⟨cs⟩ ≠ [] := by simpa [beans] using hp.nonempty
  have hturned : beans ⟨cs.rotate n⟩ = (beans ⟨cs⟩).rotate n := List.map_rotate _ _ _
  have hhead : ((beans ⟨cs⟩).rotate n).head? = (beans ⟨cs⟩).head? := by
    obtain ⟨a, ha⟩ := Option.ne_none_iff_exists'.1 (mt List.head?_eq_none_iff.1 hne)
    obtain ⟨b, hb⟩ : ∃ b, ((beans ⟨cs⟩).rotate n).head? = some b :=
      Option.ne_none_iff_exists'.1 (by simpa using hne)
    have hab : a ≤ b := hc a ha b (List.mem_rotate.1 (List.mem_of_head? hb))
    have hba : b ≤ a := by
      refine hd b (hturned ▸ hb) a ?_
      rw [hturned]
      exact List.mem_rotate.2 (List.mem_of_head? ha)
    rw [ha, hb, Name.le_antisymm hab hba]
  -- Distinct beans, and the same one first: the turn is by whole rounds.
  have hzero := mod_eq_zero_of_head?_rotate hp.distinct hne hhead
  rw [beans, List.length_map] at hzero
  rw [← List.rotate_mod cs n, hzero, List.rotate_zero]

end Cycle

/-! ### Closing a cycle -/

/-- The frame was entered by its link from the one below it. -/
def Frame.Entered (g : BeanGraph) (f below : Frame) : Prop :=
  ∃ link, f.via? = some link ∧ (link, f.bean) ∈ g.edges below.bean

namespace Search

/-- Between frames that were entered from each other lead edges from each bean to the next. -/
theorem stepsBetween_spec {g : BeanGraph} {loop : List Frame}
    (h : loop.IsChain fun below f => f.Entered g below) :
    (stepsBetween loop).map (·.source) = (loop.map (·.bean)).dropLast ∧
      (stepsBetween loop).map (·.target) = (loop.map (·.bean)).tail ∧
      ∀ s ∈ stepsBetween loop, (s.via, s.target) ∈ g.edges s.source := by
  fun_induction stepsBetween loop with
  | case1 a b rest ih =>
    obtain ⟨⟨link, hvia, hedge⟩, hrest⟩ := List.isChain_cons_cons.1 h
    obtain ⟨hsources, htargets, hedges⟩ := ih hrest
    simp only [hvia, Option.toList_some, List.map_cons, List.map_nil, List.singleton_append,
      List.tail_cons, List.dropLast_cons_cons, List.forall_mem_cons]
    exact ⟨by rw [hsources]; rfl, by rw [htargets]; rfl, hedge, hedges⟩
  | case2 loop hshort =>
    match loop, hshort with
    | [], _ => simp
    | [a], _ => simp
    | a :: b :: rest, hshort => exact absurd rfl (hshort a b rest)

theorem proper_loop {g : BeanGraph} {loop : List Frame} {top : Frame} {link : Link} {target : Name}
    (hchain : loop.IsChain fun below f => f.Entered g below) (hd : (loop.map (·.bean)).Nodup)
    (hfirst : (loop.map (·.bean)).head? = some target) (hlast : loop.getLast? = some top)
    (hedge : (link, target) ∈ g.edges top.bean) :
    Cycle.Proper g ⟨stepsBetween loop ++ [⟨top.bean, link, target⟩]⟩ := by
  obtain ⟨hsources, htargets, hedges⟩ := stepsBetween_spec hchain
  have hbeans : Cycle.beans ⟨stepsBetween loop ++ [⟨top.bean, link, target⟩]⟩ =
      loop.map (·.bean) := by
    have htop : top.bean ∈ (loop.map (·.bean)).getLast? := by simp [hlast]
    rw [Cycle.beans, List.map_append, hsources]
    exact List.dropLast_append_getLast? _ htop
  refine ⟨by simp, fun s hs => ?_, ?_, hbeans ▸ hd⟩
  · rcases List.mem_append.1 hs with hs | hs
    · exact hedges s hs
    · rw [List.mem_singleton.1 hs]
      exact hedge
  · rw [hbeans]
    obtain ⟨rest, hrest⟩ := List.head?_eq_some_iff.1 hfirst
    rw [List.map_append, htargets, hrest]
    simp

/-- What closes with a bean on the stack is a proper cycle that begins at its smallest bean. -/
theorem proper_closeCycle {g : BeanGraph} {top : Frame} {rest : List Frame} {height : Nat}
    {link : Link} {target : Name} (hd : ((top :: rest).map (·.bean)).Nodup)
    (hjoined : (top :: rest).IsChain (Frame.Entered g))
    (hmet : (heightsOf (top :: rest)).lookup target = some height)
    (hedge : (link, target) ∈ g.edges top.bean) :
    (closeCycle (top :: rest) height link target).Proper g ∧
      (closeCycle (top :: rest) height link target).Canonical := by
  have hlt := lt_length_of_lookup_heightsOf hmet
  obtain ⟨above, f, below, hsplit, rfl, hlen⟩ := split_of_lookup_heightsOf hmet
  have hchain : ((top :: rest).reverse.drop height).IsChain fun below f => f.Entered g below :=
    (List.isChain_reverse.2 hjoined).drop height
  have hdistinct : (((top :: rest).reverse.drop height).map (·.bean)).Nodup := by
    rw [List.map_drop, List.map_reverse]
    exact (List.nodup_reverse.2 hd).sublist (List.drop_sublist height _)
  have hfirst : (((top :: rest).reverse.drop height).map (·.bean)).head? = some f.bean := by
    rw [hsplit, List.reverse_append, List.reverse_cons, List.append_assoc, ← hlen,
      ← List.length_reverse, List.drop_left]
    rfl
  have hlast : ((top :: rest).reverse.drop height).getLast? = some top := by
    rw [List.getLast?_drop, if_neg (by simpa using hlt), List.getLast?_reverse]
    rfl
  have hloop := proper_loop hchain hdistinct hfirst hlast hedge
  rw [closeCycle, hlast]
  exact hloop.ofSteps

/-! ### Searching -/

/-- The frames on the stack were entered one from the other, and all cycles found are proper and
begin at their smallest beans. -/
structure Sound (g : BeanGraph) (s : Search) : Prop where
  upright : s.Upright
  joined : s.frames.IsChain (Frame.Entered g)
  found : ∀ c ∈ s.found, c.Proper g ∧ c.Canonical

theorem Sound.start {g : BeanGraph} (root : Name) (explored : List (Name × Name))
    {found : List Cycle} (h : ∀ c ∈ found, c.Proper g ∧ c.Canonical) :
    Sound g (start root explored found) :=
  ⟨.start root explored found, List.isChain_singleton _, h⟩

theorem isChain_entered_next {g : BeanGraph} {top : Frame} {rest : List Frame} (n : Nat)
    (h : (top :: rest).IsChain (Frame.Entered g)) :
    ({ top with next := n } :: rest).IsChain (Frame.Entered g) := by
  rw [List.isChain_cons] at h ⊢
  exact h

theorem Sound.move {g : BeanGraph} {s t : Search} (h : Sound g s) (hm : Move g s t) :
    Sound g t := by
  have hupright := h.upright.move hm
  cases hm with
  | leave hnone => exact ⟨hupright, h.joined.tail, h.found⟩
  | @close top rest heights explored found link target height hedge hmet =>
    have hjoined := isChain_entered_next (top.next + 1) h.joined
    have hheights : heights = heightsOf (top :: rest) := h.upright.heights
    rw [hheights] at hmet
    refine ⟨hupright, hjoined, fun c hc => ?_⟩
    rcases List.mem_append.1 hc with hc | hc
    · exact h.found c hc
    · rw [List.mem_singleton.1 hc]
      exact proper_closeCycle hupright.distinct hjoined hmet (List.mem_of_getElem? hedge)
  | @pass top rest heights explored found link target hedge hfresh hknown =>
    exact ⟨hupright, isChain_entered_next (top.next + 1) h.joined, h.found⟩
  | @enter top rest heights explored found link target hedge hfresh hnew =>
    have hentered : Frame.Entered g ⟨target, some link, 0⟩ { top with next := top.next + 1 } :=
      ⟨link, rfl, List.mem_of_getElem? hedge⟩
    exact ⟨hupright,
      List.isChain_cons_cons.2 ⟨hentered, isChain_entered_next (top.next + 1) h.joined⟩, h.found⟩

end Search

namespace BeanGraph

theorem proper_of_mem_cycles {g : BeanGraph} {memory : Bool} {c : Cycle}
    (hc : c ∈ g.cycles memory) : c.Proper g ∧ c.Canonical := by
  have hall : ∀ roots explored found, (∀ c ∈ found, c.Proper g ∧ c.Canonical) →
      ∀ c ∈ g.searchAll memory explored found roots, c.Proper g ∧ c.Canonical := by
    intro roots
    induction roots with
    | nil => intro explored found h; exact h
    | cons root roots ih =>
      intro explored found h
      have hrun := Search.run_induct (fun _ _ hs hm => hs.move hm)
        (Search.Sound.start root (if memory then explored else []) h)
      exact ih _ _ hrun.found
  exact hall _ _ _ (by simp) c (mem_cycles.1 hc)

end BeanGraph

namespace Cycle

theorem Proper.exists_first {g : BeanGraph} {c : Cycle} (h : c.Proper g) (hc : c.Canonical) :
    ∃ first rest, c.beans = first :: rest ∧ ∀ b ∈ rest, first.Before b := by
  have hne : c.beans ≠ [] := by simpa [beans] using h.nonempty
  obtain ⟨first, rest, hbeans⟩ := List.exists_cons_of_ne_nil hne
  have hnotin : first ∉ rest := (List.nodup_cons.1 (hbeans ▸ h.distinct)).1
  refine ⟨first, rest, hbeans, fun b hb => ⟨hc first ?_ b ?_, ?_⟩⟩
  · rw [hbeans, List.head?_cons]
  · rw [hbeans]
    exact List.mem_cons_of_mem _ hb
  · rintro rfl
    exact hnotin hb

end Cycle

/-- Every cycle found, with memory or without, is a closed chain of dependencies through distinct
beans that begins at the smallest of them.  The cycles stand in strict order, and none of them is
another one begun elsewhere. -/
theorem cycles_canonical (v : Inventory) (p : Plan) (memory : Bool) :
    let found := (BeanGraph.ofPlan v p).cycles memory
    (∀ c ∈ found, c.steps ≠ [] ∧
      (∀ s ∈ c.steps, Dependency v p s.source s.via s.target) ∧
      c.steps.map (·.target) = c.beans.rotate 1 ∧ c.beans.Nodup ∧
      ∃ first rest, c.beans = first :: rest ∧ ∀ b ∈ rest, first.Before b) ∧
    found.Pairwise Cycle.Before ∧ found.Pairwise fun c d => ¬ c.steps.IsRotated d.steps := by
  intro found
  have hbefore : found.Pairwise Cycle.Before := BeanGraph.pairwise_cycles _ memory
  refine ⟨fun c hc => ?_, hbefore, hbefore.imp_of_mem fun {c d} hc hd hlt hrotated => ?_⟩
  · obtain ⟨hproper, hcanonical⟩ := BeanGraph.proper_of_mem_cycles hc
    exact ⟨hproper.nonempty, fun s hs => BeanGraph.mem_edges_ofPlan.1 (hproper.edges s hs),
      hproper.closed, hproper.distinct, hproper.exists_first hcanonical⟩
  · obtain ⟨hproper, hcanonical⟩ := BeanGraph.proper_of_mem_cycles hc
    have heq := Cycle.eq_of_isRotated hproper hcanonical (BeanGraph.proper_of_mem_cycles hd).2
      hrotated
    exact d.not_before_self (heq ▸ hlt)

theorem cycles_canonical_cooled :
    ∃ c ∈ (BeanGraph.ofPlan {} Sample.cooled).cycles false,
      ⟨Sample.drive.owner, .socket Sample.drive.socket, Sample.coolant.owner⟩ ∈ c.steps ∧
      c.steps.map (·.target) = c.beans.rotate 1 ∧ c.beans.Nodup := by
  have hdrive : Dependency {} Sample.cooled Sample.drive.owner (.socket Sample.drive.socket)
      Sample.coolant.owner := .socket (e := Sample.drive) (by decide +kernel) List.mem_cons_self
  have hback : Depends {} Sample.cooled Sample.coolant.owner Sample.drive.owner :=
    ⟨_, .socket (e := Sample.coolant) (by decide +kernel) List.mem_cons_self⟩
  obtain ⟨c, hc, hstep⟩ := BeanGraph.exists_mem_cycles (BeanGraph.mem_edges_ofPlan.2 hdrive)
    (BeanGraph.leads_ofPlan ▸ .single hback)
  obtain ⟨_, _, hclosed, hdistinct, _⟩ := (cycles_canonical {} Sample.cooled false).1 c hc
  exact ⟨c, hc, hstep, hclosed, hdistinct⟩

end Wiring
