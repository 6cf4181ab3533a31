import Wiring.Proofs.Cycle.Closed

/-! The steps of the cycles that the searches find are on every cycle of the graph, whether or not a
search remembers what earlier ones followed.  A bean is grounded when every walk from it along the
other steps ends; what a search leaves behind is grounded. -/

namespace Wiring

open Relation

namespace BeanGraph

/-- A step that is kept leads from a bean to another. -/
def LeadsBy (g : BeanGraph) (kept : Step → Prop) (a b : Name) : Prop :=
  ∃ link, (link, b) ∈ g.edges a ∧ kept ⟨a, link, b⟩

/-- Every walk from the bean along steps that are kept ends. -/
def Grounded (g : BeanGraph) (kept : Step → Prop) (bean : Name) : Prop :=
  Acc (fun b a => g.LeadsBy kept a b) bean

theorem grounded_of_edges {g : BeanGraph} {kept : Step → Prop} {bean : Name}
    (h : ∀ link b, (link, b) ∈ g.edges bean → kept ⟨bean, link, b⟩ → g.Grounded kept b) :
    g.Grounded kept bean :=
  Acc.intro _ fun b ⟨link, hb, hkept⟩ => h link b hb hkept

theorem Grounded.not_transGen {g : BeanGraph} {kept : Step → Prop} {bean : Name}
    (h : g.Grounded kept bean) : ¬ TransGen (g.LeadsBy kept) bean bean := by
  induction h with
  | intro bean _ ih =>
    intro hcycle
    obtain ⟨next, hleads, hback⟩ := TransGen.head'_iff.1 hcycle
    exact ih next hleads (TransGen.tail' hback hleads)

end BeanGraph

namespace Search

variable {g : BeanGraph} {kept : Step → Prop} {root : Name}

/-- No step of a cycle that has been found is kept. -/
def Cut (kept : Step → Prop) (found : List Cycle) : Prop :=
  ∀ c ∈ found, ∀ step ∈ c.steps, ¬ kept step

theorem Cut.mono {found found' : List Cycle} (h : Cut kept found') (hsub : found ⊆ found') :
    Cut kept found :=
  fun c hc => h c (hsub hc)

/-- What each frame of a stack has looked at so far along steps that are kept is grounded, or is the
bean of the frame `above?` it, which its last look entered. -/
def Descent (g : BeanGraph) (kept : Step → Prop) : (above? : Option Name) → List Frame → Prop
  | _, [] => True
  | above?, f :: rest =>
    (∀ i < f.next, ∀ link target, (g.edges f.bean)[i]? = some (link, target) →
      kept ⟨f.bean, link, target⟩ → g.Grounded kept target ∨ above? = some target) ∧
    Descent g kept (some f.bean) rest

/-- Of the beans that the search from `root` has come to, those that are off the stack are grounded.
-/
structure Landed (g : BeanGraph) (kept : Step → Prop) (root : Name) (s : Search) : Prop where
  descent : Descent g kept none s.frames
  explored : ∀ a b, (a, b) ∈ s.explored → g.Grounded kept b ∨ b ∈ s.frames.map (·.bean)
  root : g.Grounded kept root ∨ root ∈ s.frames.map (·.bean)

theorem Landed.start (root : Name) {explored : List (Name × Name)} (found : List Cycle)
    (h : ∀ a b, (a, b) ∈ explored → g.Grounded kept b) :
    Landed g kept root (start root explored found) where
  descent := ⟨by simp, trivial⟩
  explored := fun a b hab => .inl (h a b hab)
  root := .inr (List.mem_singleton_self root)

section

variable {top : Frame} {rest : List Frame} {heights : List (Name × Nat)}
  {explored : List (Name × Name)} {found : List Cycle} {link : Link} {target : Name}

theorem Landed.grounded_top (h : Landed g kept root ⟨top :: rest, heights, explored, found⟩)
    (hnone : (g.edges top.bean)[top.next]? = none) : g.Grounded kept top.bean := by
  refine BeanGraph.grounded_of_edges fun link b hb hkept => ?_
  obtain ⟨i, hi⟩ := List.mem_iff_getElem?.1 hb
  have hlt : i < top.next := by
    have hlen := (List.getElem?_eq_some_iff.1 hi).1
    have hge := List.getElem?_eq_none_iff.1 hnone
    omega
  exact (h.descent.1 i hlt link b hi hkept).resolve_right (by simp)

theorem Landed.advance (h : Landed g kept root ⟨top :: rest, heights, explored, found⟩)
    (hedge : (g.edges top.bean)[top.next]? = some (link, target)) {above? : Option Name}
    (htarget : kept ⟨top.bean, link, target⟩ → g.Grounded kept target ∨ above? = some target) :
    Descent g kept above? ({ top with next := top.next + 1 } :: rest) := by
  refine ⟨fun i hi link' target' hi' hkept => ?_, h.descent.2⟩
  rcases Nat.lt_or_eq_of_le (Nat.le_of_lt_succ hi) with hlt | rfl
  · exact .inl ((h.descent.1 i hlt link' target' hi' hkept).resolve_right (by simp))
  · rw [hedge] at hi'
    cases hi'
    exact htarget hkept

end

/-- Grounding the frame above a stack lets it be taken off. -/
theorem Descent.leave {bean : Name} {frames : List Frame}
    (h : Descent g kept (some bean) frames) (hb : g.Grounded kept bean) :
    Descent g kept none frames := by
  cases frames with
  | nil => trivial
  | cons f rest =>
    refine ⟨fun i hi link target he hkept => .inl ?_, h.2⟩
    rcases h.1 i hi link target he hkept with hg | heq
    · exact hg
    · exact Option.some.inj heq ▸ hb

/-- A move leaves nothing behind but grounded beans, if no step of the cycles found is kept. -/
theorem Landed.move {s t : Search} (hu : s.Upright) (h : Landed g kept root s) (hm : Move g s t)
    (hcut : Cut kept t.found) : Landed g kept root t := by
  cases hm with
  | @leave top rest heights explored found hnone =>
    have htop := h.grounded_top hnone
    have hleft : ∀ b, g.Grounded kept b ∨ b ∈ (top :: rest).map (·.bean) →
        g.Grounded kept b ∨ b ∈ rest.map (·.bean) := by
      rintro b (hb | hb)
      · exact .inl hb
      · rcases List.mem_cons.1 hb with rfl | hb
        · exact .inl htop
        · exact .inr hb
    exact ⟨h.descent.2.leave htop, fun a b hab => hleft b (h.explored a b hab), hleft root h.root⟩
  | @close top rest heights explored found link target height hedge hmet =>
    have hheights : heights = heightsOf (top :: rest) := hu.heights
    rw [hheights] at hmet
    -- The step that closes the cycle is one of its steps.
    have hstep : ⟨top.bean, link, target⟩ ∈ (closeCycle ({ top with next := top.next + 1 } :: rest)
        height link target).steps :=
      mem_steps_closeCycle link target (Nat.le_of_lt_succ (lt_length_of_lookup_heightsOf hmet))
    have hdropped := hcut _ (List.mem_append_right _ (List.mem_singleton_self _)) _ hstep
    exact ⟨h.advance hedge fun hkept => absurd hkept hdropped, h.explored, h.root⟩
  | @pass top rest heights explored found link target hedge hfresh hknown =>
    have hheights : heights = heightsOf (top :: rest) := hu.heights
    rw [hheights, lookup_heightsOf_eq_none] at hfresh
    -- Whoever followed this pair has left its target, since that is not on the stack.
    have htarget := (h.explored _ _ hknown).resolve_right hfresh
    exact ⟨h.advance hedge fun _ => .inl htarget, h.explored, h.root⟩
  | @enter top rest heights explored found link target hedge hfresh hnew =>
    refine ⟨⟨by simp, h.advance hedge fun _ => .inr rfl⟩, fun a b hab => ?_,
      h.root.imp_right (List.mem_cons_of_mem _)⟩
    rcases List.mem_cons.1 hab with heq | hab
    · obtain ⟨rfl, rfl⟩ := Prod.mk.inj heq
      exact .inr List.mem_cons_self
    · exact (h.explored a b hab).imp_right (List.mem_cons_of_mem _)

/-- If no step of the cycles that a run has found is kept, its first bean and all that it has
followed are grounded. -/
theorem grounded_run {explored : List (Name × Name)} {found : List Cycle}
    (h : ∀ a b, (a, b) ∈ explored → g.Grounded kept b)
    (hcut : Cut kept ((start root explored found).run g).found) :
    g.Grounded kept root ∧
      ∀ a b, (a, b) ∈ ((start root explored found).run g).explored → g.Grounded kept b := by
  -- The cut is known of the last list only, which holds those before it.
  have hinv : ((start root explored found).run g).Upright ∧
      (Cut kept ((start root explored found).run g).found →
        Landed g kept root ((start root explored found).run g)) := by
    refine run_induct (P := fun s => s.Upright ∧ (Cut kept s.found → Landed g kept root s)) ?_
      ⟨.start root explored found, fun _ => .start root found h⟩
    rintro s t ⟨hu, hs⟩ hm
    exact ⟨hu.move hm, fun ht => (hs (ht.mono (found_subset_move hm))).move hu hm ht⟩
  have hlanded := hinv.2 hcut
  have hempty := frames_run g (start root explored found)
  refine ⟨?_, fun a b hab => ?_⟩
  · simpa [hempty] using hlanded.root
  · simpa [hempty] using hlanded.explored a b hab

end Search

namespace BeanGraph

theorem grounded_of_searchAll {g : BeanGraph} {kept : Step → Prop} {memory : Bool}
    {explored : List (Name × Name)} {found : List Cycle} {roots : List Name}
    (h : ∀ a b, (a, b) ∈ explored → g.Grounded kept b)
    (hcut : Search.Cut kept (g.searchAll memory explored found roots)) :
    ∀ root ∈ roots, g.Grounded kept root := by
  induction roots generalizing explored found with
  | nil => simp
  | cons first roots ih =>
    rw [searchAll] at hcut
    have hstart : ∀ a b, (a, b) ∈ (if memory then explored else []) → g.Grounded kept b := by
      cases memory with
      | false => simp
      | true => exact h
    obtain ⟨hfirst, hrest⟩ :=
      Search.grounded_run hstart (hcut.mono (found_subset_searchAll g memory _ _ roots))
    intro root hroot
    rcases List.mem_cons.1 hroot with rfl | hroot
    · exact hfirst
    · exact ih hrest hcut root hroot

/-- Without the steps of the cycles that are found, no walk of one step or more leads from a bean to
itself. -/
theorem not_transGen_residue (g : BeanGraph) (memory : Bool) (bean : Name) :
    ¬ TransGen (g.LeadsBy fun step => ∀ c ∈ g.cycles memory, step ∉ c.steps) bean bean := by
  intro hcycle
  obtain ⟨next, ⟨link, hedge, _⟩, _⟩ := TransGen.head'_iff.1 hcycle
  have hcut : Search.Cut (fun step => ∀ c ∈ g.cycles memory, step ∉ c.steps)
      (g.searchAll memory [] [] (g.map (·.1))) :=
    fun c hc step hstep hkept => hkept c (mem_cycles.2 hc) hstep
  have hgrounded := grounded_of_searchAll (by simp) hcut bean (mem_keys_of_mem_edges hedge)
  exact hgrounded.not_transGen hcycle

theorem not_transGen_of_cycles_eq_nil {g : BeanGraph} {memory : Bool} (h : g.cycles memory = [])
    (bean : Name) : ¬ TransGen g.Leads bean bean := by
  intro hcycle
  refine not_transGen_residue g memory bean (TransGen.mono (fun a b hleads => ?_) _ _ hcycle)
  obtain ⟨link, hedge⟩ := hleads
  exact ⟨link, hedge, by simp [h]⟩

end BeanGraph

end Wiring
