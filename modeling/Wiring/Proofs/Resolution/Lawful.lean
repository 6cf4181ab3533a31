import Wiring.Proofs.Pass.Outcome
import Wiring.Proofs.Resolution.Coverage

/-! What the plan may wire.  Every bean that an outcome names is one that the socket may get: its
type is accepted, it belongs to the module that resolves the socket or is exported by one of the
direct imports, and it does not come from the module whose external socket it is for. -/

namespace Wiring

/-- Every bean named by an outcome of a plan fits the socket in the pass of the module that resolves
it. -/
theorem Resolution.Sound.fits_of_mem_plan [PatternEngine] {r : Resolution} (h : r.Sound)
    {e : PlanEntry} (he : e ∈ r.plan.toList) {bean : Name} (hbean : bean ∈ e.outcome.named) :
    ∃ m ∈ r.inventory.modules, ∃ k ∈ r.inventory.sockets, e = (r.passOf m).entry k ∧
      ∃ b, b.name = bean ∧ (r.passOf m).Fits k b ∧
        ((∀ d ∈ m.directives, d.into ≠ k.name) →
          ∀ s ∈ k.socket.selectors, s.Accepts b.candidate) := by
  rcases h.mem_written.1 (h.mem_plan.1 he) with ⟨m, hm, k, hk, _, _, rfl⟩ | ⟨k, _, _, _, rfl⟩
  · obtain ⟨b, hname, hfits, hselectors⟩ :=
      Pass.fits_of_mem_named (p := r.passOf m) h.wellFormed hbean
    refine ⟨m, hm, k, hk, rfl, b, hname, hfits, fun hnone => hselectors ?_⟩
    exact DirectiveStore.beans?_ofList_eq_none.2 hnone
  · cases hbean

/-- Every bean that the plan names for a socket is in the inventory, may be seen by the module that
resolves the socket, does not belong to the module of an external socket, and has a type that the
socket accepts; without a directive for the socket, its selectors accept the bean too. -/
theorem plan_lawful [PatternEngine] (g : Graph) (settings : ResolverSettings) (time : String) :
    let v := (g.survey settings.knownTypes).inventory
    let hierarchy : Hierarchy := ⟨g.types, settings.knownTypes⟩
    ∀ e ∈ (g.resolve settings time).plan.toList, ∀ bean ∈ e.outcome.named,
      ∃ b ∈ v.beans, ∃ k ∈ v.sockets, ∃ m ∈ v.modules,
        b.name = bean ∧ k.name = e.socket ∧ k.origin = e.origin ∧ e.resolvedIn? = some m.name ∧
        (b.module = m.name ∨ (v.Exported b ∧ b.module ∈ m.imports)) ∧
        (e.origin ≠ .beanSocket → b.module ≠ k.module) ∧
        b.type.isMalformed = false ∧
        hierarchy.accepts (k.component settings.knownTypes) b.type = .compatible ∧
        ((∀ d ∈ m.directives, d.into ≠ e.socket) →
          ∀ s ∈ k.socket.selectors, s.Accepts b.candidate) := by
  intro v hierarchy e he bean hbean
  have h := Resolution.sound_ofGraph settings g
  obtain ⟨m, hm, k, hk, rfl, b, hname, hfits, hselectors⟩ := h.fits_of_mem_plan he hbean
  obtain ⟨hb, hvisible, hexternal⟩ := (Pass.mem_pool h.wellFormed hm hk).1 hfits.seen
  refine ⟨b, hb, k, hk, m, hm, hname, rfl, rfl, rfl, ?_, fun horigin => ?_,
    Hierarchy.not_isMalformed_of_accepts hfits.accepted, ?_, hselectors⟩
  · exact hvisible.imp_right fun ⟨hi, _, he⟩ => ⟨he, hi⟩
  · exact hexternal (SocketEntry.isExternal_iff.2 horigin)
  · have haccepted := hfits.accepted
    rwa [Pass.component_eq] at haccepted

/-- The socket of the one module gets a bean of the other, which its selector accepts. -/
theorem plan_lawful_supplied : letI := Sample.engine
    ∃ e ∈ (Sample.supplied.resolve {} "").plan.toList, ∃ bean ∈ e.outcome.named,
      ∃ b ∈ Sample.inventory.beans, ∃ k ∈ Sample.inventory.sockets,
        b.name = bean ∧ k.name = e.socket ∧ b.module ≠ k.module ∧
        (Selector.nameMatches "part").Accepts b.candidate := by
  let _ := Sample.engine
  have h := Resolution.sound_ofGraph {} Sample.supplied
  let r := Resolution.ofGraph {} Sample.supplied
  have hwritten : (r.passOf Sample.shopModule).entry Sample.slotSocket ∈ r.written :=
    h.mem_written.2 (.inl ⟨Sample.shopModule, List.mem_cons_of_mem _ List.mem_cons_self,
      Sample.slotSocket, List.mem_cons_self, by decide +kernel, by decide +kernel, rfl⟩)
  have hnamed : Name.bean Sample.shop Sample.part ∈
      ((r.passOf Sample.shopModule).entry Sample.slotSocket).outcome.named := by
    decide +kernel
  obtain ⟨b, hb, k, hk, m, hm, hname, hsocket, _, _, _, hexternal, _, _, hselected⟩ :=
    plan_lawful Sample.supplied {} "" _ (h.mem_plan.2 hwritten) _ hnamed
  have hdirectives : ∀ m ∈ [Sample.baseModule, Sample.shopModule], m.directives = [] := by decide
  have haccepts := hselected fun d hd => by
    rw [hdirectives m hm] at hd
    cases hd
  obtain rfl := List.mem_singleton.1 hk
  exact ⟨_, h.mem_plan.2 hwritten, _, hnamed, b, hb, _, hk, hname, hsocket,
    hexternal (fun heq => nomatch heq), haccepts _ List.mem_cons_self⟩

end Wiring
