import Wiring.Proofs.Cycle.Canonical
import Wiring.Proofs.Pass.Agreement
import Wiring.Proofs.Resolution.Coverage

/-! Resolutions that start from the same entries.  Their passes show every socket the same, so they
write the same entries into their plans, find the same wrong, and have the same cycles. -/

namespace Wiring

theorem Schedule.resolver?_of_facts (s : Schedule) {k l : SocketEntry} (h : l.facts = k.facts) :
    s.resolver? l = s.resolver? k := by
  have horigin : l.origin = k.origin := congrArg SocketFacts.origin h
  have hmodule : l.module = k.module := congrArg SocketFacts.module h
  unfold resolver? SocketEntry.isExternal
  rw [horigin, hmodule]

namespace Inventory.Alike

variable {v w : Inventory} (h : v.Alike w) (hv : v.WellFormed) (hw : w.WellFormed)
include h hv hw

/-- A socket sees the same beans where the same is said of it and of its module. -/
theorem sees {m n : ModuleEntry} (hmodule : n.facts = m.facts) {k l : SocketEntry}
    (hsocket : l.facts = k.facts) {b : BeanEntry} (hb : v.Sees m k b) :
    ∃ c, w.Sees n l c ∧ c.candidate = b.candidate := by
  have hname : n.name = m.name := congrArg ModuleFacts.name hmodule
  have horigin : l.origin = k.origin := congrArg SocketFacts.origin hsocket
  have hin : l.module = k.module := congrArg SocketFacts.module hsocket
  obtain ⟨c, hc, hfacts⟩ := h.exists_bean hb.declared
  have hcmodule : c.module = b.module := congrArg BeanFacts.module hfacts
  have hcexported : c.exported = b.exported := congrArg BeanFacts.exported hfacts
  refine ⟨c, ⟨hc, ?_, ?_⟩, BeanEntry.candidate_eq hfacts⟩
  · rw [hcmodule, hname]
    refine hb.visible.imp_right fun ⟨hexported, himported⟩ => ⟨?_, ?_⟩
    · rwa [← hw.exported_iff hc, hcexported, hv.exported_iff hb.declared]
    · exact (ModuleEntry.mem_imports_of_facts hmodule).2 himported
  · rw [horigin, hcmodule, hin]
    exact hb.foreign

/-- Looking up the name of a bean tells the same of it. -/
theorem bean?_facts (n : Name) : (v.bean? n).map (·.facts) = (w.bean? n).map (·.facts) := by
  have hsome : ∀ {v w : Inventory}, v.Alike w → v.WellFormed → w.WellFormed → ∀ {f : BeanFacts},
      (v.bean? n).map (·.facts) = some f → (w.bean? n).map (·.facts) = some f := by
    intro v w h hv hw f hf
    obtain ⟨b, hb, rfl⟩ := Option.map_eq_some_iff.1 hf
    obtain ⟨hmem, rfl⟩ := hv.bean?_eq_some_iff.1 hb
    obtain ⟨c, hc, hfacts⟩ := h.exists_bean hmem
    have hname : c.name = b.name := congrArg BeanFacts.name hfacts
    rw [hw.bean?_eq_some_iff.2 ⟨hc, hname⟩, Option.map_some, hfacts]
  ext f
  exact ⟨hsome h hv hw, hsome h.symm hw hv⟩

end Inventory.Alike

namespace Resolution

/-- The resolutions start from the same entries, and types are the same to them. -/
structure Alike (r r' : Resolution) : Prop where
  settings : r.settings = r'.settings
  known : r.hierarchy.known = r'.hierarchy.known
  accepts : r.hierarchy.accepts = r'.hierarchy.accepts
  inventory : r.inventory.Alike r'.inventory
  declared : ∀ f, f ∈ r.survey.findings ↔ f ∈ r'.survey.findings

namespace Alike

variable {r r' : Resolution} (h : r.Alike r') (hs : r.Sound) (hs' : r'.Sound)

include h in
theorem symm : r'.Alike r :=
  ⟨h.settings.symm, h.known.symm, h.accepts.symm, h.inventory.symm, fun f => (h.declared f).symm⟩

include h hs hs'

theorem schedule_eq : r.schedule = r'.schedule := by
  rw [hs.schedule, hs'.schedule]
  exact h.inventory.schedule_eq hs.wellFormed hs'.wellFormed

/-! ### Passes -/

section

variable {m m' : ModuleEntry} (hm : m ∈ r.inventory.modules) (hm' : m' ∈ r'.inventory.modules)
  (hmodule : m'.facts = m.facts) {k k' : SocketEntry} (hk : k ∈ r.inventory.sockets)
  (hk' : k' ∈ r'.inventory.sockets) (hsocket : k'.facts = k.facts)
include hm hm' hmodule hk hk' hsocket

/-- The passes of a module show each socket the same. -/
theorem agrees : (r.passOf m).Agrees (r'.passOf m') k k' := by
  have hdirectives : m'.directives = m.directives := congrArg ModuleFacts.directives hmodule
  exact .of_sees hs.wellFormed hm hk hs'.wellFormed hm' hk' h.known h.accepts
    (congrArg (fun ds => (DirectiveStore.ofList ds).1) hdirectives.symm) hsocket.symm
    (fun _ hb => h.inventory.sees hs.wellFormed hs'.wellFormed hmodule hsocket hb)
    fun _ hc => h.inventory.symm.sees hs'.wellFormed hs.wellFormed hmodule.symm hsocket.symm hc

theorem outcome_eq [PatternEngine] : (r.passOf m).outcome k = (r'.passOf m').outcome k' := by
  have hname : m.name = m'.name := congrArg ModuleFacts.name hmodule.symm
  exact (h.agrees hs hs' hm hm' hmodule hk hk' hsocket).outcome hname
    (h.inventory.bean?_facts hs.wellFormed hs'.wellFormed) hs.wellFormed hm hs'.wellFormed hm'

end

omit h in
theorem ownerName_eq {k k' : SocketEntry} (hk : k ∈ r.inventory.sockets)
    (hk' : k' ∈ r'.inventory.sockets) (hsocket : k'.facts = k.facts) :
    r.inventory.ownerName k = r'.inventory.ownerName k' := by
  have hname : k'.name = k.name := congrArg SocketFacts.name hsocket
  rw [(hs.wellFormed.socket_named hk).2, (hs'.wellFormed.socket_named hk').2, hname]

theorem mem_passSockets {m m' : ModuleEntry} (hm : m ∈ r.inventory.modules)
    (hm' : m' ∈ r'.inventory.modules) (hmodule : m'.facts = m.facts) {k : SocketEntry}
    (hk : k ∈ r.passSockets m) : ∃ k' ∈ r'.passSockets m', k'.facts = k.facts := by
  have hname : m'.name = m.name := congrArg ModuleFacts.name hmodule
  obtain ⟨hk, hresolver⟩ := (hs.mem_passSockets hm).1 hk
  obtain ⟨k', hk', hsocket⟩ := h.inventory.exists_socket hk
  refine ⟨k', (hs'.mem_passSockets hm').2 ⟨hk', ?_⟩, hsocket⟩
  rw [Schedule.resolver?_of_facts _ hsocket, ← h.schedule_eq hs hs', hresolver, hname]

theorem exists_scheduled {m : ModuleEntry} (hm : m ∈ r.scheduled) :
    ∃ m' ∈ r'.scheduled, m'.facts = m.facts := by
  obtain ⟨hm, hordered⟩ := hs.mem_scheduled.1 hm
  obtain ⟨m', hm', hmodule⟩ := h.inventory.exists_module hm
  have hname : m'.name = m.name := congrArg ModuleFacts.name hmodule
  refine ⟨m', hs'.mem_scheduled.2 ⟨hm', ?_⟩, hmodule⟩
  rwa [← h.schedule_eq hs hs', hname]

theorem mem_runtimeSockets [PatternEngine] {k : SocketEntry} (hk : k ∈ r.runtimeSockets) :
    ∃ k' ∈ r'.runtimeSockets, k'.facts = k.facts := by
  obtain ⟨hk, hblocked, hresolver⟩ := hs.mem_runtimeSockets.1 hk
  obtain ⟨k', hk', hsocket⟩ := h.inventory.exists_socket hk
  have hin : k'.module = k.module := congrArg SocketFacts.module hsocket
  refine ⟨k', hs'.mem_runtimeSockets.2 ⟨hk', ?_, ?_⟩, hsocket⟩
  · rwa [hin, ← h.schedule_eq hs hs']
  · rwa [Schedule.resolver?_of_facts _ hsocket, ← h.schedule_eq hs hs']

/-! ### Plans -/

theorem mem_written [PatternEngine] {e : PlanEntry} (he : e ∈ r.written) : e ∈ r'.written := by
  rcases hs.mem_written.1 he with ⟨m, hm, k, hk, hordered, hresolver, rfl⟩ |
    ⟨k, hk, hblocked, hresolver, rfl⟩
  · obtain ⟨m', hm', hmodule⟩ := h.inventory.exists_module hm
    obtain ⟨k', hk', hsocket⟩ := h.inventory.exists_socket hk
    have hname : m'.name = m.name := congrArg ModuleFacts.name hmodule
    refine hs'.mem_written.2 (.inl ⟨m', hm', k', hk', ?_, ?_, ?_⟩)
    · rwa [← h.schedule_eq hs hs', hname]
    · rwa [Schedule.resolver?_of_facts _ hsocket, ← h.schedule_eq hs hs', hname]
    · exact (h.agrees hs hs' hm hm' hmodule hk hk' hsocket).entry hname.symm
        (ownerName_eq hs hs' hk hk' hsocket)
        (congrArg Prod.fst (h.outcome_eq hs hs' hm hm' hmodule hk hk' hsocket))
  · obtain ⟨k', hruntime, hsocket⟩ := h.mem_runtimeSockets hs hs'
      (hs.mem_runtimeSockets.2 ⟨hk, hblocked, hresolver⟩)
    obtain ⟨hk', hblocked', hresolver'⟩ := hs'.mem_runtimeSockets.1 hruntime
    refine hs'.mem_written.2 (.inr ⟨k', hk', hblocked', hresolver', ?_⟩)
    have hname : k.name = k'.name := congrArg SocketFacts.name hsocket.symm
    have horigin : k.origin = k'.origin := congrArg SocketFacts.origin hsocket.symm
    have hsocket' : k.socket = k'.socket := congrArg SocketFacts.socket hsocket.symm
    unfold runtimeEntry SocketEntry.multiplicity
    rw [hname, horigin, hsocket', h.settings, ownerName_eq hs hs' hk hk' hsocket]

theorem plan_eq [PatternEngine] : r.plan = r'.plan := by
  rw [Resolution.plan_eq, Resolution.plan_eq]
  exact Plan.insertAll_eq_of_mem_iff hs.nodup_written hs'.nodup_written fun e =>
    ⟨h.mem_written hs hs', h.symm.mem_written hs' hs⟩

theorem cycles_eq [PatternEngine] : r.cycles = r'.cycles := by
  rw [cycles, cycles, h.plan_eq hs hs', h.settings,
    BeanGraph.ofPlan_eq_of_alike h.inventory hs.wellFormed hs'.wellFormed]

/-! ### Findings -/

omit hs hs' in
theorem mem_unknownImports {f : Finding} (hf : f ∈ r.inventory.unknownImports) :
    f ∈ r'.inventory.unknownImports := by
  obtain ⟨m, hm, hf⟩ := List.mem_flatMap.1 hf
  obtain ⟨i, hi, rfl⟩ := List.mem_map.1 hf
  obtain ⟨himport, hunknown⟩ := List.mem_filter.1 hi
  obtain ⟨m', hm', hmodule⟩ := h.inventory.exists_module hm
  have hname : m.name = m'.name := congrArg ModuleFacts.name hmodule.symm
  have hsome : (r.inventory.module? i).isSome = (r'.inventory.module? i).isSome := by
    rw [Bool.eq_iff_iff, Inventory.isSome_module?_iff, Inventory.isSome_module?_iff]
    exact ⟨h.inventory.hasModule, h.inventory.symm.hasModule⟩
  refine List.mem_flatMap.2 ⟨m', hm', ?_⟩
  rw [hname, ← Option.not_isSome, hsome, Option.not_isSome] at hunknown
  rw [hname]
  exact List.mem_map_of_mem (List.mem_filter.2
    ⟨(ModuleEntry.mem_imports_of_facts hmodule).2 himport, hunknown⟩)

theorem mem_shared {f : Finding} (hf : f ∈ r.schedule.shared r.inventory) :
    f ∈ r'.schedule.shared r'.inventory := by
  obtain ⟨m, hm, hf⟩ := List.mem_flatMap.1 hf
  obtain ⟨m', hm', hmodule⟩ := h.inventory.exists_module hm
  have hname : m.name = m'.name := congrArg ModuleFacts.name hmodule.symm
  refine List.mem_flatMap.2 ⟨m', hm', ?_⟩
  unfold Schedule.sharedOf at hf ⊢
  rw [h.schedule_eq hs hs', hname] at hf
  dsimp only at hf ⊢
  split
  · rename_i hshared
    rw [if_pos hshared] at hf
    obtain ⟨k, hk, rfl⟩ := List.mem_map.1 hf
    obtain ⟨⟨hk, hin⟩, hexternal⟩ := (hs.wellFormed.mem_externalSockets hm).1 hk
    obtain ⟨k', hk', hsocket⟩ := h.inventory.exists_socket hk
    have hkname : k.name = k'.name := congrArg SocketFacts.name hsocket.symm
    have hkmodule : k'.module = k.module := congrArg SocketFacts.module hsocket
    have horigin : k'.origin = k.origin := congrArg SocketFacts.origin hsocket
    rw [hkname]
    refine List.mem_map_of_mem ((hs'.wellFormed.mem_externalSockets hm').2 ⟨⟨hk', ?_⟩, ?_⟩)
    · rw [hkmodule, hin, hname]
    · rwa [SocketEntry.isExternal, horigin]
  · rename_i hone
    rw [if_neg hone] at hf
    cases hf

theorem mem_pass_findings [PatternEngine] {m m' : ModuleEntry} (hm : m ∈ r.inventory.modules)
    (hm' : m' ∈ r'.inventory.modules) (hmodule : m'.facts = m.facts) {f : Finding}
    (hf : f ∈ (r.pass m).2) : f ∈ (r'.pass m').2 := by
  have hname : m.name = m'.name := congrArg ModuleFacts.name hmodule.symm
  have hdirectives : m.directives = m'.directives := congrArg ModuleFacts.directives hmodule.symm
  rcases List.mem_append.1 hf with hf | hf
  · refine List.mem_append_left _ ?_
    rcases List.mem_append.1 hf with hf | hf
    · rw [hdirectives] at hf
      exact List.mem_append_left _ hf
    · obtain ⟨n, hn, rfl⟩ := List.mem_map.1 hf
      obtain ⟨htarget, hstray⟩ := List.mem_filter.1 hn
      rw [hdirectives] at htarget
      rw [hname]
      refine List.mem_append_right _ (List.mem_map_of_mem (List.mem_filter.2 ⟨htarget, ?_⟩))
      simp only [Bool.not_eq_true', List.any_eq_false, decide_eq_true_iff] at hstray ⊢
      -- a socket of the other pass with this name would be one of this pass too
      rintro k' hk' rfl
      obtain ⟨k, hk, hsocket⟩ := h.symm.mem_passSockets hs' hs hm' hm hmodule.symm hk'
      exact hstray k hk (congrArg SocketFacts.name hsocket)
  · obtain ⟨k, hk, hf⟩ := List.mem_flatMap.1 hf
    obtain ⟨k', hk', hsocket⟩ := h.mem_passSockets hs hs' hm hm' hmodule hk
    have hdeclared := ((hs.mem_passSockets hm).1 hk).1
    have hdeclared' := ((hs'.mem_passSockets hm').1 hk').1
    refine List.mem_append_right _ (List.mem_flatMap.2 ⟨k', hk', ?_⟩)
    have houtcome := h.outcome_eq hs hs' hm hm' hmodule hdeclared hdeclared' hsocket
    exact congrArg Prod.snd houtcome ▸ hf

theorem mem_passFindings [PatternEngine] {f : Finding} (hf : f ∈ r.passFindings) :
    f ∈ r'.passFindings := by
  obtain ⟨m, hm, hf⟩ := List.mem_flatMap.1 hf
  obtain ⟨m', hm', hmodule⟩ := h.exists_scheduled hs hs' hm
  exact List.mem_flatMap.2 ⟨m', hm', h.mem_pass_findings hs hs' (hs.mem_scheduled.1 hm).1
    (hs'.mem_scheduled.1 hm').1 hmodule hf⟩

theorem mem_runtimeFindings [PatternEngine] {f : Finding} (hf : f ∈ r.runtimeFindings) :
    f ∈ r'.runtimeFindings := by
  unfold runtimeFindings at hf ⊢
  rw [h.settings] at hf
  split
  · rename_i hwarn
    rw [if_pos hwarn] at hf
    obtain ⟨k, hk, rfl⟩ := List.mem_map.1 hf
    obtain ⟨k', hk', hsocket⟩ := h.mem_runtimeSockets hs hs' hk
    have hname : k.name = k'.name := congrArg SocketFacts.name hsocket.symm
    rw [hname]
    exact List.mem_map_of_mem hk'
  · rename_i hquiet
    rw [if_neg hquiet] at hf
    cases hf

/-- What the one resolution finds wrong, the other does. -/
theorem mem_findings [PatternEngine] {f : Finding} (hf : f ∈ r.findings) : f ∈ r'.findings := by
  simp only [findings, List.mem_append] at hf ⊢
  rcases hf with (((((hf | hf) | hf) | hf) | hf) | hf) | hf
  · exact .inl (.inl (.inl (.inl (.inl (.inl ((h.declared f).1 hf))))))
  · exact .inl (.inl (.inl (.inl (.inl (.inr (h.mem_unknownImports hf))))))
  · exact .inl (.inl (.inl (.inl (.inr (h.schedule_eq hs hs' ▸ hf)))))
  · exact .inl (.inl (.inl (.inr (h.mem_shared hs hs' hf))))
  · exact .inl (.inl (.inr (h.mem_passFindings hs hs' hf)))
  · exact .inl (.inr (h.mem_runtimeFindings hs hs' hf))
  · rw [cycleFindings, h.cycles_eq hs hs'] at hf
    exact .inr hf

theorem mem_findings_iff [PatternEngine] {f : Finding} : f ∈ r.findings ↔ f ∈ r'.findings :=
  ⟨h.mem_findings hs hs', h.symm.mem_findings hs' hs⟩

end Alike

end Resolution

end Wiring
