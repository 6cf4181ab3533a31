import Wiring.Proofs.Finding
import Wiring.Proofs.Resolution.Directed
import Wiring.Proofs.Resolution.Found

/-! Collecting what a resolution finds.  A bean that does not suit a socket is found by the pass of
the socket alone, with the types of these two, so the keys of all findings of a resolution tell them
apart.  Hence a report is the same in whatever order the findings have been collected. -/

namespace Wiring

namespace Pass

variable {p : Pass} (hv : p.inventory.WellFormed) (hm : p.module ∈ p.inventory.modules)
  {k : SocketEntry} (hk : k ∈ p.inventory.sockets)
include hv hm hk

/-- A bean is found not to suit a socket with the types of the two. -/
theorem misfit_of_mem_outcome [PatternEngine] {element bean : Name} {s t : String}
    (h : .incompatibleDirectiveBean element bean s t ∈ (p.outcome k).2) :
    element = k.name ∧ ∃ b ∈ p.inventory.beans, b.name = bean ∧ s = b.type.text ∧
      t = (k.component p.hierarchy.known).text := by
  rcases mem_outcome_sources h with ⟨_, h⟩ | ⟨hmalformed, beans, h⟩ | h | h
  · cases h
  · obtain ⟨name, _, hfault⟩ := List.mem_flatMap.1 h
    cases hfaults : p.directedFault? k name with
    | none => rw [hfaults] at hfault; cases hfault
    | some faults =>
      rw [hfaults, Option.getD_some] at hfault
      have hcomponent := (malformed?_eq_none.1 hmalformed).2
      cases rejects_of_directedFault? hv hm hk hcomponent hfaults with
      | absent => cases List.mem_singleton.1 hfault
      | own => cases List.mem_singleton.1 hfault
      | hidden => cases List.mem_singleton.1 hfault
      | unsuited hsees hname =>
        cases List.mem_singleton.1 hfault
        exact ⟨rfl, _, hsees.declared, hname, rfl, rfl⟩
      | unresolved => cases hfault
  · obtain ⟨_, _, _, h⟩ := exists_of_mem_matching h
    cases h
  · cases Outcome.category_of_finding? h

end Pass

namespace Resolution

/-- A bean is found not to suit a socket of the inventory with the types of the two. -/
theorem misfit_of_mem_findings [PatternEngine] {settings : ResolverSettings} {g : Graph}
    {element bean : Name} {s t : String}
    (h : .incompatibleDirectiveBean element bean s t ∈ (ofGraph settings g).findings) :
    ∃ k ∈ (ofGraph settings g).inventory.sockets, ∃ b ∈ (ofGraph settings g).inventory.beans,
      k.name = element ∧ b.name = bean ∧ s = b.type.text ∧
      t = (k.component settings.knownTypes).text := by
  have hsound := sound_ofGraph settings g
  rcases mem_findings_cases h with h | ⟨m, hm, k, hpass, h⟩ | h
  · exact h.elim
  · obtain ⟨hmodule, _⟩ := hsound.mem_scheduled.1 hm
    obtain ⟨hk, _⟩ := (hsound.mem_passSockets hmodule).1 hpass
    obtain ⟨rfl, b, hb, hname, hs, ht⟩ := Pass.misfit_of_mem_outcome
      (p := (ofGraph settings g).passOf m) hsound.wellFormed hmodule hk h
    exact ⟨k, hk, b, hb, rfl, hname, hs, ht⟩
  · obtain ⟨c, _, h⟩ := List.mem_filterMap.1 h
    obtain ⟨start, _, h⟩ := Option.map_eq_some_iff.1 h
    cases h

/-- The keys of the findings of a resolution tell them apart. -/
theorem keyed_findings [PatternEngine] (settings : ResolverSettings) (g : Graph) :
    Finding.Keyed (ofGraph settings g).findings := by
  have h := sound_ofGraph settings g
  intro f hf f' hf' helement hid hmessage
  cases Finding.akin_of_message helement hid hmessage with
  | refl => rfl
  | incompatible =>
    obtain ⟨k, hk, b, hb, rfl, rfl, rfl, rfl⟩ := misfit_of_mem_findings hf
    obtain ⟨k', hk', b', hb', hsocket, hbean, rfl, rfl⟩ := misfit_of_mem_findings hf'
    obtain rfl := h.wellFormed.socket_name_injective hk' hk hsocket
    obtain rfl := h.wellFormed.bean_name_injective hb' hb hbean
    rfl

end Resolution

/-- In whatever order the findings of a resolution are collected, their snapshot is the same,
without repetitions, and so is the report; findings that agree in their element, kind and message
are equal. -/
theorem snapshot_interleaved [PatternEngine] (g : Graph) (settings : ResolverSettings)
    (time : String) (collected : List Finding)
    (hcollected : collected.Perm (Resolution.ofGraph settings g).findings) :
    let r := Resolution.ofGraph settings g
    Finding.snapshot collected = Finding.snapshot r.findings ∧
      (Finding.snapshot collected).Nodup ∧
      Report.of time r.plan (Finding.snapshot collected) = g.resolve settings time ∧
      ∀ f ∈ collected, ∀ f' ∈ collected, f.element = f'.element → f.id = f'.id →
        f.message = f'.message → f = f' := by
  intro r
  have hkeyed : Finding.Keyed r.findings := Resolution.keyed_findings settings g
  have hkeyed' : Finding.Keyed collected := fun f hf f' hf' =>
    hkeyed f (hcollected.mem_iff.1 hf) f' (hcollected.mem_iff.1 hf')
  have hsnapshot : Finding.snapshot collected = Finding.snapshot r.findings :=
    Finding.snapshot_eq_of_mem_iff hkeyed' fun f => hcollected.mem_iff
  refine ⟨hsnapshot, Finding.nodup_snapshot hkeyed', ?_, hkeyed'⟩
  rw [hsnapshot]
  rfl

/-- A resolution that finds several things, collected from the last to the first. -/
theorem snapshot_interleaved_directed : letI := Sample.engine
    let findings := (Resolution.ofGraph {} Sample.directed).findings
    (∃ f ∈ findings, ∃ f' ∈ findings, f ≠ f') ∧
      Finding.snapshot findings.reverse = Finding.snapshot findings := by
  let _ := Sample.engine
  intro findings
  refine ⟨?_, (snapshot_interleaved Sample.directed {} "" findings.reverse
    (List.reverse_perm findings)).1⟩
  have hm : Sample.directedModule ∈ (Resolution.ofGraph {} Sample.directed).scheduled :=
    (Resolution.sound_ofGraph {} Sample.directed).mem_scheduled.2
      ⟨List.mem_cons_of_mem _ List.mem_cons_self, by decide +kernel⟩
  have hrepeated : .repeatedDirectiveBean (.bean Sample.base Sample.slot)
      (.bean Sample.shop Sample.part) ∈ findings :=
    Resolution.repeated_mem_findings hm (by decide +kernel)
  have hstray : .badDirectiveSocket Sample.strayDirective.into (.module Sample.shop) ∈ findings :=
    Resolution.stray_mem_findings hm (by decide) (by decide +kernel)
  exact ⟨_, hrepeated, _, hstray, by decide⟩

end Wiring
