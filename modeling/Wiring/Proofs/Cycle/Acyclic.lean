import Wiring.Proofs.Cycle.Grounded

/-! The searches find no cycle exactly if there is none: what they find is a closed walk of the
graph, and what they leave out has no closed walk. -/

namespace Wiring

open Relation

/-- Steps that each lead to where the next begins make a walk from the first source to the last
target. -/
theorem transGen_of_linked {r : Name → Name → Prop} {s : Step} {ss : List Step} {last : Name}
    (hsteps : ∀ t ∈ s :: ss, r t.source t.target)
    (hlinked : (s :: ss).map (·.target) = ss.map (·.source) ++ [last]) :
    TransGen r s.source last := by
  have hfirst : r s.source s.target := hsteps s List.mem_cons_self
  induction ss generalizing s with
  | nil =>
    obtain rfl : s.target = last := by simpa using hlinked
    exact .single hfirst
  | cons t ts ih =>
    simp only [List.map_cons, List.cons_append, List.cons.injEq] at hlinked
    obtain ⟨htarget, hrest⟩ := hlinked
    have hsteps' : ∀ u ∈ t :: ts, r u.source u.target :=
      fun u hu => hsteps u (List.mem_cons_of_mem _ hu)
    have hwalk := ih hsteps' (by simpa using hrest) (hsteps' t List.mem_cons_self)
    rw [htarget] at hfirst
    exact .head hfirst hwalk

/-- Each step of a cycle leads to where the next begins, and the last to where the first does. -/
theorem Cycle.Proper.linked {g : BeanGraph} {s : Step} {ss : List Step} (h : Proper g ⟨s :: ss⟩) :
    (s :: ss).map (·.target) = ss.map (·.source) ++ [s.source] := by
  have hclosed : (s :: ss).map (·.target) = ((s :: ss).map (·.source)).rotate 1 := h.closed
  rw [hclosed, List.map_cons, List.rotate_cons_succ, List.rotate_zero]

theorem Cycle.Proper.transGen {g : BeanGraph} {c : Cycle} (h : c.Proper g)
    {r : Name → Name → Prop} (hsteps : ∀ s ∈ c.steps, r s.source s.target) :
    ∃ bean, TransGen r bean bean := by
  obtain ⟨steps⟩ := c
  obtain ⟨s, ss, rfl⟩ := List.exists_cons_of_ne_nil h.nonempty
  exact ⟨s.source, transGen_of_linked hsteps h.linked⟩

/-- No cycle is found, with memory or without, exactly if no bean depends on itself, directly or
through others. -/
theorem cycles_eq_nil_iff (v : Inventory) (p : Plan) (memory : Bool) :
    (BeanGraph.ofPlan v p).cycles memory = [] ↔ ∀ bean, ¬ TransGen (Depends v p) bean bean := by
  rw [← BeanGraph.leads_ofPlan]
  constructor
  · intro hnil bean
    exact BeanGraph.not_transGen_of_cycles_eq_nil hnil bean
  · intro hacyclic
    rw [List.eq_nil_iff_forall_not_mem]
    intro c hc
    have hproper := (BeanGraph.proper_of_mem_cycles hc).1
    have hleads : ∀ s ∈ c.steps, (BeanGraph.ofPlan v p).Leads s.source s.target :=
      fun s hs => ⟨s.via, hproper.edges s hs⟩
    obtain ⟨bean, hcycle⟩ := hproper.transGen hleads
    exact hacyclic bean hcycle

end Wiring
