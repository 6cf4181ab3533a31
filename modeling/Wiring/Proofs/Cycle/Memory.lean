import Wiring.Proofs.Cycle.Acyclic

/-! A search that remembers what earlier ones followed may miss a cycle that shares a step with one
it finds.  It misses no others, so memory makes no difference where no two cycles share a step. -/

namespace Wiring

open Relation

namespace BeanGraph

/-- Every cycle of the graph shares a step with one that is found, with memory or without. -/
theorem exists_shared_step {g : BeanGraph} {c : Cycle} (h : c.Proper g) (memory : Bool) :
    ∃ d ∈ g.cycles memory, ∃ s ∈ c.steps, s ∈ d.steps := by
  by_contra hnone
  have hkept : ∀ s ∈ c.steps,
      g.LeadsBy (fun step => ∀ d ∈ g.cycles memory, step ∉ d.steps) s.source s.target :=
    fun s hs => ⟨s.via, h.edges s hs, fun d hd hshared => hnone ⟨d, hd, s, hs, hshared⟩⟩
  obtain ⟨bean, hcycle⟩ := h.transGen hkept
  exact not_transGen_residue g memory bean hcycle

/-- Cycles that share a step are one cycle begun at different beans. -/
def StepDisjoint (g : BeanGraph) : Prop :=
  ∀ c d : Cycle, c.Proper g → d.Proper g → (∃ s ∈ c.steps, s ∈ d.steps) →
    c.steps.IsRotated d.steps

theorem StepDisjoint.mem_cycles {g : BeanGraph} (h : g.StepDisjoint) {memory : Bool} {c : Cycle} :
    c ∈ g.cycles memory ↔ c.Proper g ∧ c.Canonical := by
  refine ⟨proper_of_mem_cycles, fun ⟨hc, hcanonical⟩ => ?_⟩
  obtain ⟨d, hd, hshared⟩ := exists_shared_step hc memory
  obtain ⟨hd', hcanonical'⟩ := proper_of_mem_cycles hd
  rwa [Cycle.eq_of_isRotated hc hcanonical hcanonical' (h c d hc hd' hshared)]

end BeanGraph

/-- If no two cycles of a plan share a dependency, the searches find the same with memory as
without. -/
theorem cycles_memory_of_stepDisjoint (v : Inventory) (p : Plan)
    (h : (BeanGraph.ofPlan v p).StepDisjoint) :
    (BeanGraph.ofPlan v p).cycles true = (BeanGraph.ofPlan v p).cycles false :=
  BeanGraph.cycles_eq_of_mem_iff fun _ => h.mem_cycles.trans h.mem_cycles.symm

/-! ### Beans with one dependency -/

/-- From one step on, walks in which each step has one continuation are the same up to where they
first come to an end. -/
theorem eq_of_linked {s : Step} {ss ts : List Step} {last : Name}
    (hunique : ∀ t ∈ ss, ∀ u ∈ ts, t.source = u.source → t = u)
    (hss : (s :: ss).map (·.target) = ss.map (·.source) ++ [last])
    (hts : (s :: ts).map (·.target) = ts.map (·.source) ++ [last])
    (hlast : last ∉ ss.map (·.source)) (hlast' : last ∉ ts.map (·.source)) : ss = ts := by
  induction ss generalizing s ts with
  | nil =>
    cases ts with
    | nil => rfl
    | cons u us =>
      simp only [List.map_cons, List.map_nil, List.nil_append, List.cons_append,
        List.cons.injEq] at hss hts
      simp [← hts.1, hss.1] at hlast'
  | cons t rest ih =>
    cases ts with
    | nil =>
      simp only [List.map_cons, List.map_nil, List.nil_append, List.cons_append,
        List.cons.injEq] at hss hts
      simp [← hss.1, hts.1] at hlast
    | cons u us =>
      simp only [List.map_cons, List.cons_append, List.cons.injEq] at hss hts
      obtain rfl : t = u :=
        hunique t List.mem_cons_self u List.mem_cons_self (hss.1.symm.trans hts.1)
      rw [List.map_cons, List.mem_cons, not_or] at hlast hlast'
      have hrest : ∀ x ∈ rest, ∀ y ∈ us, x.source = y.source → x = y := fun x hx y hy =>
        hunique x (List.mem_cons_of_mem _ hx) y (List.mem_cons_of_mem _ hy)
      rw [ih hrest (by simpa using hss.2) (by simpa using hts.2) hlast.2 hlast'.2]

/-- A cycle may be begun at any of its steps. -/
theorem Cycle.Proper.exists_begun {g : BeanGraph} {c : Cycle} (h : c.Proper g) {s : Step}
    (hs : s ∈ c.steps) : ∃ ss, c.steps.IsRotated (s :: ss) ∧ Proper g ⟨s :: ss⟩ := by
  obtain ⟨steps⟩ := c
  obtain ⟨before, after, rfl⟩ := List.append_of_mem hs
  have hturned : (before ++ s :: after).IsRotated (s :: after ++ before) := List.isRotated_append
  obtain ⟨n, hn⟩ := hturned
  refine ⟨after ++ before, ⟨n, hn⟩, ?_⟩
  rw [← List.cons_append, ← hn]
  exact h.rotate n

/-- Where no bean has two dependencies, no two cycles share a step. -/
theorem BeanGraph.stepDisjoint_of_single {g : BeanGraph} (h : ∀ p ∈ g, p.2.length ≤ 1) :
    g.StepDisjoint := by
  have hunique : ∀ t u : Step, (t.via, t.target) ∈ g.edges t.source →
      (u.via, u.target) ∈ g.edges u.source → t.source = u.source → t = u := by
    rintro ⟨a, via, target⟩ ⟨_, via', target'⟩ ht hu rfl
    unfold edges at ht hu
    cases hes : g.lookup a with
    | none => simp [hes] at ht
    | some es =>
      rw [hes, Option.getD_some] at ht hu
      have hlength : es.length ≤ 1 := h _ (mem_of_lookup hes)
      match es, hlength with
      | [e], _ =>
        have heq := (List.mem_singleton.1 ht).trans (List.mem_singleton.1 hu).symm
        obtain ⟨rfl, rfl⟩ := Prod.mk.inj heq
        rfl
  rintro c d hc hd ⟨s, hsc, hsd⟩
  obtain ⟨ss, hcs, hss⟩ := hc.exists_begun hsc
  obtain ⟨ts, hdt, hts⟩ := hd.exists_begun hsd
  have heq : ss = ts := by
    refine eq_of_linked (fun t ht u hu => hunique t u ?_ ?_) hss.linked hts.linked
      (List.nodup_cons.1 hss.distinct).1 (List.nodup_cons.1 hts.distinct).1
    · exact hss.edges t (List.mem_cons_of_mem _ ht)
    · exact hts.edges u (List.mem_cons_of_mem _ hu)
  exact hcs.trans (heq ▸ hdt.symm)

namespace Sample

def boiler : Path := ⟨⟨"boiler", by decide⟩, []⟩

def radiator : Path := ⟨⟨"radiator", by decide⟩, []⟩

def fan : Path := ⟨⟨"fan", by decide⟩, []⟩

def pipe (owner bean : Path) (socket : Identifier) : Step :=
  ⟨.bean plant owner, .socket (.socket plant owner socket), .bean plant bean⟩

def feed : Step := pipe boiler pump ⟨"feed", by decide⟩

def flow : Step := pipe pump radiator ⟨"flow", by decide⟩

def back : Step := pipe radiator boiler ⟨"back", by decide⟩

def spin : Step := pipe fan motor ⟨"spin", by decide⟩

def air : Step := pipe motor fan ⟨"air", by decide⟩

/-- A boiler takes a pump, the pump a radiator, and the radiator the boiler; a fan and its motor
take each other. -/
def circuits : Plan :=
  Plan.insertAll {} [wire boiler pump ⟨"feed", by decide⟩, wire pump radiator ⟨"flow", by decide⟩,
    wire radiator boiler ⟨"back", by decide⟩, wire fan motor ⟨"spin", by decide⟩,
    wire motor fan ⟨"air", by decide⟩]

def ducts : BeanGraph :=
  [(.bean plant boiler, [(feed.via, feed.target)]), (.bean plant fan, [(spin.via, spin.target)]),
    (.bean plant motor, [(air.via, air.target)]), (.bean plant pump, [(flow.via, flow.target)]),
    (.bean plant radiator, [(back.via, back.target)])]

theorem ofPlan_circuits : BeanGraph.ofPlan {} circuits = ducts :=
  BeanGraph.sorted_eq (g := ducts) rfl (by decide +kernel) (by decide +kernel)

theorem mem_cycles_ducts {c : Cycle} :
    c ∈ ducts.cycles false ↔ c = ⟨[feed, flow, back]⟩ ∨ c = ⟨[spin, air]⟩ := by
  have hfound : ducts.searchAll false [] [] (ducts.map (·.1)) =
      [⟨[feed, flow, back]⟩, ⟨[spin, air]⟩, ⟨[spin, air]⟩, ⟨[feed, flow, back]⟩,
        ⟨[feed, flow, back]⟩] :=
    BeanGraph.searchAll_of_searchWithin (n := 20) (by decide +kernel)
  rw [BeanGraph.mem_cycles, hfound]
  simp only [List.mem_cons, List.not_mem_nil, or_false]
  tauto

end Sample

/-- Both cycles are found with memory, although the search from the pump does not follow again what
the search from the boiler has followed. -/
theorem cycles_memory_circuits :
    (BeanGraph.ofPlan {} Sample.circuits).StepDisjoint ∧
      ∀ c, c ∈ (BeanGraph.ofPlan {} Sample.circuits).cycles true ↔
        c = ⟨[Sample.feed, Sample.flow, Sample.back]⟩ ∨ c = ⟨[Sample.spin, Sample.air]⟩ := by
  have hdisjoint : (BeanGraph.ofPlan {} Sample.circuits).StepDisjoint := by
    rw [Sample.ofPlan_circuits]
    exact BeanGraph.stepDisjoint_of_single (by decide +kernel)
  refine ⟨hdisjoint, fun c => ?_⟩
  rw [cycles_memory_of_stepDisjoint {} Sample.circuits hdisjoint, Sample.ofPlan_circuits]
  exact Sample.mem_cycles_ducts

namespace Sample

def valve : Path := ⟨⟨"valve", by decide⟩, []⟩

def relief : Step := pipe boiler valve ⟨"relief", by decide⟩

def drain : Step := pipe valve pump ⟨"drain", by decide⟩

/-- A boiler takes a pump, the pump a radiator, and the radiator the boiler; the boiler also takes a
valve, which takes the pump. -/
def heating : Plan :=
  Plan.insertAll {} [wire boiler pump ⟨"feed", by decide⟩, wire boiler valve ⟨"relief", by decide⟩,
    wire pump radiator ⟨"flow", by decide⟩, wire radiator boiler ⟨"back", by decide⟩,
    wire valve pump ⟨"drain", by decide⟩]

def pipes : BeanGraph :=
  [(.bean plant boiler, [(feed.via, feed.target), (relief.via, relief.target)]),
    (.bean plant pump, [(flow.via, flow.target)]),
    (.bean plant radiator, [(back.via, back.target)]),
    (.bean plant valve, [(drain.via, drain.target)])]

theorem ofPlan_heating : BeanGraph.ofPlan {} heating = pipes :=
  BeanGraph.sorted_eq (g := pipes) rfl (by decide +kernel) (by decide +kernel)

theorem cycles_pipes : pipes.cycles true = [⟨[feed, flow, back]⟩] := by
  have hfound : pipes.searchAll true [] [] (pipes.map (·.1)) = [⟨[feed, flow, back]⟩] :=
    BeanGraph.searchAll_of_searchWithin (n := 20) (by decide +kernel)
  rw [BeanGraph.cycles, hfound, List.mergeSort_singleton]
  rfl

theorem exists_valve_cycle : ∃ c ∈ pipes.cycles false, .bean plant valve ∈ c.beans := by
  have hdrain : (drain.via, drain.target) ∈ pipes.edges drain.source := by decide +kernel
  have hflow : pipes.Leads flow.source flow.target := ⟨flow.via, by decide +kernel⟩
  have hback : pipes.Leads back.source back.target := ⟨back.via, by decide +kernel⟩
  have hrelief : pipes.Leads relief.source relief.target := ⟨relief.via, by decide +kernel⟩
  obtain ⟨c, hc, hstep⟩ :=
    BeanGraph.exists_mem_cycles hdrain (.head hflow (.head hback (.single hrelief)))
  exact ⟨c, hc, List.mem_map.2 ⟨_, hstep, rfl⟩⟩

end Sample

/-- With memory the cycle through the valve is missed: when the search from the boiler comes to the
valve, it has followed the pump's dependency already, and no later search follows it again. -/
theorem memory_misses_cycle :
    (BeanGraph.ofPlan {} Sample.heating).cycles true ≠
      (BeanGraph.ofPlan {} Sample.heating).cycles false ∧
    (∃ c ∈ (BeanGraph.ofPlan {} Sample.heating).cycles false,
      .bean Sample.plant Sample.valve ∈ c.beans) ∧
    ∀ c ∈ (BeanGraph.ofPlan {} Sample.heating).cycles true,
      .bean Sample.plant Sample.valve ∉ c.beans := by
  rw [Sample.ofPlan_heating]
  have hmissed : ∀ c ∈ Sample.pipes.cycles true, .bean Sample.plant Sample.valve ∉ c.beans := by
    rw [Sample.cycles_pipes]
    decide
  refine ⟨fun heq => ?_, Sample.exists_valve_cycle, hmissed⟩
  obtain ⟨c, hc, hbean⟩ := Sample.exists_valve_cycle
  exact hmissed c (heq ▸ hc) hbean

end Wiring
