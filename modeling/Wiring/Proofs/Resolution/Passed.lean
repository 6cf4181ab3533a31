import Wiring.Proofs.Cycle.Grounded
import Wiring.Proofs.Pass.Outcome
import Wiring.Proofs.Resolution.Coverage

/-! What a passed report promises.  Whatever a stage leaves out or cannot do, it reports as an
error, so if there is none then every declared socket is planned, every socket that must get a bean
gets one, and the beans depend on each other without cycles. -/

namespace Wiring

open Relation

namespace Resolution

/-- Nothing that has been found is an error. -/
def Clean [PatternEngine] (r : Resolution) : Prop := ∀ f ∈ r.findings, f.isError = false

namespace Clean

variable [PatternEngine] {r : Resolution} (hc : r.Clean)
include hc

theorem survey : r.survey.Clean := fun f hf => hc f (by simp [findings, hf])

theorem blocked : r.schedule.blocked = [] := by
  rw [List.eq_nil_iff_forall_not_mem]
  intro n hn
  have hfinding : Finding.importCycle n (Name.list r.schedule.blocked) ∈ r.findings := by
    have hmem : Finding.importCycle n (Name.list r.schedule.blocked) ∈ r.schedule.findings :=
      List.mem_map_of_mem hn
    simp [findings, hmem]
  cases hc _ hfinding

/-- The pass of every scheduled module finds no error at any of its sockets. -/
theorem outcome {m : ModuleEntry} (hm : m ∈ r.scheduled) {k : SocketEntry}
    (hk : k ∈ r.passSockets m) : ∀ f ∈ ((r.passOf m).outcome k).2, f.isError = false := by
  intro f hf
  have hpass : f ∈ (r.pass m).2 := List.mem_append_right _ (List.mem_flatMap.2 ⟨k, hk, hf⟩)
  exact hc f (mem_findings_of_pass hm hpass)

theorem cycles : r.cycles = [] := by
  rw [List.eq_nil_iff_forall_not_mem]
  intro c hcycle
  obtain ⟨step, rest, hsteps⟩ :=
    List.exists_cons_of_ne_nil (BeanGraph.proper_of_mem_cycles hcycle).1.nonempty
  have hmem : Finding.dependencyCycle step.source c.chain ∈ r.cycleFindings := by
    refine List.mem_filterMap.2 ⟨c, hcycle, ?_⟩
    simp [Cycle.start?, hsteps]
  have hfinding : Finding.dependencyCycle step.source c.chain ∈ r.findings :=
    List.mem_append_right _ hmem
  cases hc _ hfinding

end Clean

/-- Without errors every entry is of a socket, has no bad outcome, and gives a socket that must get
a bean one. -/
theorem Sound.entry_of_clean [PatternEngine] {r : Resolution} (h : r.Sound) (hc : r.Clean)
    {e : PlanEntry} (he : e ∈ r.plan.toList) :
    e.outcome.isError = false ∧ ∃ k ∈ r.inventory.sockets, k.name = e.socket ∧
      (e.resolvedIn? ≠ none → k.socket.isMandatory = true →
        k.socket.required.isMalformed = false →
        (k.component r.hierarchy.known).isMalformed = false → e.outcome.Filled) := by
  rcases h.mem_written.1 (h.mem_plan.1 he) with
    ⟨m, hm, k, hk, hn, hresolver, rfl⟩ | ⟨k, hk, _, _, rfl⟩
  · have hpass := (h.mem_passSockets hm).2 ⟨hk, hresolver⟩
    have hclean := hc.outcome (h.mem_scheduled.2 ⟨hm, hn⟩) hpass
    obtain ⟨herror, hfilled⟩ := Pass.outcome_of_clean hclean
    exact ⟨herror, k, hk, rfl, fun _ hmandatory hrequired hcomponent =>
      hfilled hrequired hcomponent hmandatory⟩
  · exact ⟨rfl, k, hk, rfl, fun hresolved => absurd rfl hresolved⟩

end Resolution

/-- If a report has passed, no module is blocked, every socket that the graph declares has an entry
of its own, no outcome is ambiguous or missing, every socket that must get a bean and has been
resolved with known types has got one, and no bean depends on itself. -/
theorem passed_guarantees [PatternEngine] (g : Graph) (settings : ResolverSettings) (time : String)
    (hpassed : (g.resolve settings time).summary.passed = true) :
    let v := (g.survey settings.knownTypes).inventory
    let plan := (g.resolve settings time).plan
    (v.schedule.blocked = [] ∧ (g.declaredSockets.map (·.2)).Nodup ∧
      ∀ d ∈ g.declaredSockets, ∃ n e, d.2 = .ok n ∧ plan.get? n = some e ∧ e.socket = n ∧
        e.origin = d.1) ∧
    (∀ e ∈ plan.toList, e.outcome ≠ .missing ∧ ∀ beans, e.outcome ≠ .ambiguous beans) ∧
    (∀ e ∈ plan.toList, ∃ k ∈ v.sockets, k.name = e.socket ∧
      (e.resolvedIn? ≠ none → k.socket.isMandatory = true →
        k.socket.required.isMalformed = false →
        (k.component settings.knownTypes).isMalformed = false →
        (∃ bean mutation?, e.outcome = .single bean mutation?) ∨
          ∃ beans order, e.outcome = .multi beans order ∧ beans ≠ [])) ∧
    ∀ bean, ¬ TransGen (Depends v plan) bean bean := by
  intro v plan
  have h := Resolution.sound_ofGraph settings g
  have hc : (Resolution.ofGraph settings g).Clean := passed_resolve_iff.1 hpassed
  have hsockets : v.sockets.map (fun k => (k.origin, .ok k.name)) = g.declaredSockets :=
    Graph.sockets_survey hc.survey
  refine ⟨⟨hc.blocked, ?_, fun d hd => ?_⟩, fun e he => ?_, fun e he => ?_, fun bean => ?_⟩
  · have hok : Function.Injective (Except.ok : Name → Except Name.Fault Name) :=
      fun _ _ heq => Except.ok.inj heq
    have hnames : g.declaredSockets.map (·.2) = (v.sockets.map (·.name)).map .ok := by
      rw [← hsockets, List.map_map, List.map_map]
      rfl
    rw [hnames]
    exact h.wellFormed.socket_names.map hok
  · rw [← hsockets] at hd
    obtain ⟨k, hk, rfl⟩ := List.mem_map.1 hd
    obtain ⟨e, he, hname, horigin, _⟩ := h.exists_written hk (by simp [hc.blocked])
    exact ⟨k.name, e, rfl, h.get?_plan_eq_some_iff.2 ⟨he, hname⟩, hname, horigin⟩
  · have herror := (h.entry_of_clean hc he).1
    constructor
    · intro heq
      rw [heq] at herror
      cases herror
    · intro beans heq
      rw [heq] at herror
      cases herror
  · exact (h.entry_of_clean hc he).2
  · have hnot := BeanGraph.not_transGen_of_cycles_eq_nil hc.cycles bean
    rwa [BeanGraph.leads_ofPlan] at hnot

namespace Sample

/-- The socket of the base gets the bean of the shop. -/
def plan : Plan :=
  ⟨[(.bean base slot,
    { socket := .bean base slot
      owner := .bean base slot
      origin := .socketBean
      multiplicity := .single
      resolvedIn? := some (.module shop)
      outcome := .single (.bean shop part) none })]⟩

theorem plan_supplied : letI := engine
    (Resolution.ofGraph {} supplied).plan = plan := by
  decide +kernel

def beans : BeanGraph :=
  [(.bean base slot, [(.socket (.bean base slot), .bean shop part)]), (.bean shop part, [])]

theorem beans_supplied : BeanGraph.ofPlan inventory plan = beans :=
  BeanGraph.sorted_eq (g := beans) rfl (by decide +kernel) (by decide +kernel)

theorem cycles_supplied : letI := engine
    (Resolution.ofGraph {} supplied).cycles = [] := by
  let _ := engine
  show (BeanGraph.ofPlan inventory (Resolution.ofGraph {} supplied).plan).cycles false = []
  rw [plan_supplied, beans_supplied]
  exact BeanGraph.cycles_eq_nil_of_searchWithin (n := 4) (by decide +kernel)

theorem passed_supplied : letI := engine
    (supplied.resolve {} "").summary.passed = true := by
  let _ := engine
  have hfindings : (Resolution.ofGraph {} supplied).findings = [] := by
    rw [Resolution.findings, Resolution.cycleFindings, cycles_supplied]
    decide +kernel
  rw [passed_resolve_iff, hfindings]
  exact List.forall_mem_nil _

end Sample

theorem passed_guarantees_supplied : letI := Sample.engine
    (Sample.supplied.resolve {} "").summary.passed = true ∧
      (∃ e, (Sample.supplied.resolve {} "").plan.get? (.bean Sample.base Sample.slot) = some e ∧
        e.origin = .socketBean) ∧
      ∀ bean, ¬ TransGen (Depends Sample.inventory Sample.plan) bean bean := by
  let _ := Sample.engine
  obtain ⟨⟨_, _, hplanned⟩, _, _, hacyclic⟩ :=
    passed_guarantees Sample.supplied {} "" Sample.passed_supplied
  obtain ⟨n, e, hn, hget, _, horigin⟩ := hplanned _ List.mem_cons_self
  refine ⟨Sample.passed_supplied, ⟨e, Except.ok.inj hn ▸ hget, horigin⟩, fun bean => ?_⟩
  rw [← Sample.plan_supplied]
  exact hacyclic bean

end Wiring
