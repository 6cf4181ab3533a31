import Wiring.Proofs.Cycle.Chain
import Wiring.Proofs.Resolution.Collected

/-! The numbers of a report.  A report tells once of each socket whose outcome is missing or
ambiguous and of each cycle, since no two sockets have one name and no two cycles one chain, so its
numbers agree with its plan, with its diagnostics and with the search for cycles. -/

namespace Wiring

/-- Of a list without repetitions, at most one element is counted if all that are counted are equal.
-/
theorem countP_of_unique {α : Type} {l : List α} {p : α → Bool} (hd : l.Nodup)
    (h : ∀ a ∈ l, ∀ b ∈ l, p a = true → p b = true → a = b) :
    l.countP p ≤ 1 ∧ (l.countP p = 1 ↔ ∃ a ∈ l, p a = true) := by
  have hle : l.countP p ≤ 1 := by
    rw [List.countP_eq_length_filter]
    have hdf := hd.filter p
    match hl : l.filter p with
    | [] => simp
    | [a] => simp
    | a :: b :: rest =>
      obtain ⟨ha, hpa⟩ := List.mem_filter.1 (hl ▸ List.mem_cons_self : a ∈ l.filter p)
      obtain ⟨hb, hpb⟩ := List.mem_filter.1
        (hl ▸ List.mem_cons_of_mem _ List.mem_cons_self : b ∈ l.filter p)
      rw [hl, h a ha b hb hpa hpb, List.nodup_cons] at hdf
      exact absurd List.mem_cons_self hdf.1
  refine ⟨hle, ?_⟩
  rw [← List.countP_pos_iff]
  omega

/-! ### Summaries -/

theorem Outcome.label_total (es : List PlanEntry) :
    (es.countP fun e => e.outcome.label == "resolved_single") +
      (es.countP fun e => e.outcome.label == "resolved_multi") +
      (es.countP fun e => e.outcome.label == "unresolved") +
      (es.countP fun e => e.outcome.label == "ambiguous") +
      (es.countP fun e => e.outcome.label == "missing_required") = es.length := by
  induction es with
  | nil => rfl
  | cons e es ih =>
    rw [List.length_cons, ← ih]
    simp only [List.countP_cons]
    cases e.outcome <;> simp [label] <;> omega

namespace Summary

variable (p : Plan) (findings : List Finding)

/-- Every entry of a plan is counted with one kind of outcome. -/
theorem outcomes_total :
    (of p findings).resolvedSingle + (of p findings).resolvedMulti + (of p findings).unresolved +
      (of p findings).ambiguous + (of p findings).missingRequired = p.size := by
  have hsize : p.toList.length = p.size := List.length_map _
  exact (Outcome.label_total p.toList).trans hsize

theorem severities_total :
    (of p findings).errorCount + (of p findings).warningCount = findings.length := by
  rw [List.length_eq_countP_add_countP Finding.isError]
  simp [of, Finding.errorCount, Finding.warningCount]

theorem passed_iff : (of p findings).passed = true ↔ (of p findings).errorCount = 0 :=
  beq_iff_eq

end Summary

namespace Resolution

/-! ### Sockets -/

variable [PatternEngine] {settings : ResolverSettings} {g : Graph}

/-- What is found about outcomes is what is wrong about the outcomes of all passes. -/
theorem mem_findings_iff_finding? {f : Finding} (hf : f.OfOutcome) :
    f ∈ (ofGraph settings g).findings ↔ ∃ m ∈ (ofGraph settings g).scheduled,
      ∃ k ∈ (ofGraph settings g).passSockets m,
        (((ofGraph settings g).passOf m).outcome k).1.finding? k = some f := by
  obtain ⟨hstructural, hcategory⟩ := hf.spec
  constructor
  · intro h
    rcases mem_findings_cases h with h | ⟨m, hm, k, hk, h⟩ | h
    · exact absurd h hstructural
    · rcases Pass.mem_outcome_cases h with hother | h
      · rw [hcategory] at hother
        rcases hother with hother | hother | hother <;> cases hother
      · exact ⟨m, hm, k, hk, h⟩
    · obtain ⟨c, _, h⟩ := List.mem_filterMap.1 h
      obtain ⟨start, _, rfl⟩ := Option.map_eq_some_iff.1 h
      cases hcategory
  · rintro ⟨m, hm, k, hk, h⟩
    refine mem_findings_of_pass hm (List.mem_append_right _ ?_)
    exact List.mem_flatMap.2 ⟨k, hk, Pass.mem_outcome_of_finding? h⟩

/-- Of one socket no two things are found about its outcome. -/
theorem eq_of_element {f f' : Finding} (h : f ∈ (ofGraph settings g).findings)
    (h' : f' ∈ (ofGraph settings g).findings) (hf : f.OfOutcome) (hf' : f'.OfOutcome)
    (helement : f.element = f'.element) : f = f' := by
  have hs := sound_ofGraph settings g
  obtain ⟨m, hm, k, hk, hfound⟩ := (mem_findings_iff_finding? hf).1 h
  obtain ⟨m', hm', k', hk', hfound'⟩ := (mem_findings_iff_finding? hf').1 h'
  obtain ⟨hmodule, _⟩ := hs.mem_scheduled.1 hm
  obtain ⟨hmodule', _⟩ := hs.mem_scheduled.1 hm'
  obtain ⟨hsocket, hresolver⟩ := (hs.mem_passSockets hmodule).1 hk
  obtain ⟨hsocket', hresolver'⟩ := (hs.mem_passSockets hmodule').1 hk'
  rw [Outcome.element_of_finding? hfound, Outcome.element_of_finding? hfound'] at helement
  obtain rfl := hs.wellFormed.socket_name_injective hsocket hsocket' helement
  have hname : m.name = m'.name := Option.some.inj (hresolver.symm.trans hresolver')
  obtain rfl := hs.wellFormed.module_name_injective hmodule hmodule' hname
  exact Option.some.inj (hfound.symm.trans hfound')

/-- An outcome that is not that of a socket for run time comes from a pass. -/
theorem exists_entry_iff {P : Outcome → Prop} (hP : ¬ P .unresolved) {n : Name} :
    (∃ e, (ofGraph settings g).plan.get? n = some e ∧ P e.outcome) ↔
      ∃ m ∈ (ofGraph settings g).scheduled, ∃ k ∈ (ofGraph settings g).passSockets m,
        k.name = n ∧ P (((ofGraph settings g).passOf m).outcome k).1 := by
  have hs := sound_ofGraph settings g
  constructor
  · rintro ⟨e, hget, he⟩
    obtain ⟨hwritten, rfl⟩ := hs.get?_plan_eq_some_iff.1 hget
    rcases hs.mem_written.1 hwritten with ⟨m, hm, k, hk, hn, hresolver, rfl⟩ | ⟨k, _, _, _, rfl⟩
    · exact ⟨m, hs.mem_scheduled.2 ⟨hm, hn⟩, k, (hs.mem_passSockets hm).2 ⟨hk, hresolver⟩, rfl, he⟩
    · exact absurd he hP
  · rintro ⟨m, hm, k, hk, rfl, he⟩
    obtain ⟨hmodule, hn⟩ := hs.mem_scheduled.1 hm
    obtain ⟨hsocket, hresolver⟩ := (hs.mem_passSockets hmodule).1 hk
    have hwritten := hs.mem_written.2 (.inl ⟨m, hmodule, k, hsocket, hn, hresolver, rfl⟩)
    exact ⟨_, hs.get?_plan_eq_some_iff.2 ⟨hwritten, rfl⟩, he⟩

/-- A kind of finding that goes with some outcomes is told once of each socket that has such an
outcome, and of no other. -/
theorem countP_snapshot {id : String} {P : Outcome → Prop}
    (hid : ∀ f : Finding, f.id = id → f.OfOutcome)
    (hP : ∀ o k, P o ↔ ∃ f, o.finding? k = some f ∧ f.id = id) (hnone : ¬ P .unresolved)
    (n : Name) :
    let told := (Finding.snapshot (ofGraph settings g).findings).countP fun f =>
      decide (f.id = id) && decide (f.element = n)
    told ≤ 1 ∧ (told = 1 ↔ ∃ e, (ofGraph settings g).plan.get? n = some e ∧ P e.outcome) := by
  intro told
  have hunique := countP_of_unique (Finding.nodup_snapshot (keyed_findings settings g))
    (p := fun f => decide (f.id = id) && decide (f.element = n)) fun f hf f' hf' hfn hfn' => by
      simp only [Bool.and_eq_true, decide_eq_true_iff] at hfn hfn'
      exact eq_of_element (Finding.mem_snapshot.1 hf) (Finding.mem_snapshot.1 hf') (hid f hfn.1)
        (hid f' hfn'.1) (hfn.2.trans hfn'.2.symm)
  refine ⟨hunique.1, hunique.2.trans ?_⟩
  rw [exists_entry_iff hnone]
  constructor
  · rintro ⟨f, hf, hfn⟩
    simp only [Bool.and_eq_true, decide_eq_true_iff] at hfn
    obtain ⟨m, hm, k, hk, hfound⟩ :=
      (mem_findings_iff_finding? (hid f hfn.1)).1 (Finding.mem_snapshot.1 hf)
    exact ⟨m, hm, k, hk, (Outcome.element_of_finding? hfound).symm.trans hfn.2,
      (hP _ k).2 ⟨f, hfound, hfn.1⟩⟩
  · rintro ⟨m, hm, k, hk, rfl, houtcome⟩
    obtain ⟨f, hfound, hf⟩ := (hP _ k).1 houtcome
    refine ⟨f, Finding.mem_snapshot.2 ((mem_findings_iff_finding? (hid f hf)).2
      ⟨m, hm, k, hk, hfound⟩), ?_⟩
    simp [hf, Outcome.element_of_finding? hfound]

/-! ### Cycles -/

/-- The socket of a dependency is none of a module, so its link is plain. -/
theorem plain_of_mem_cycles {c : Cycle} (hc : c ∈ (ofGraph settings g).cycles) :
    ∀ s ∈ c.steps, s.via.Plain := by
  intro s hstep
  have hs := sound_ofGraph settings g
  cases hvia : s.via with
  | nested => trivial
  | socket n =>
    have hedge := BeanGraph.mem_edges_ofPlan.1 ((BeanGraph.proper_of_mem_cycles hc).1.edges s hstep)
    rw [hvia] at hedge
    obtain ⟨e, he, rfl⟩ := hedge.exists_entry
    have hget := hs.get?_plan_eq_some_iff.2 ⟨hs.mem_plan.1 he, rfl⟩
    obtain ⟨k, hk, hname, _⟩ := hs.contains_plan_iff.1 (Option.isSome_iff_exists.2 ⟨e, hget⟩)
    show e.socket.kind ≠ .module
    rw [← hname]
    exact hs.wellFormed.kind_socket hk

theorem nodup_cycleFindings : (ofGraph settings g).cycleFindings.Nodup := by
  rw [cycleFindings, List.Nodup, List.pairwise_filterMap]
  refine List.Pairwise.imp_of_mem ?_ (BeanGraph.nodup_cycles _ _)
  intro c d hc hd hne f hf f' hf' heq
  obtain ⟨start, _, rfl⟩ := Option.map_eq_some_iff.1 hf
  obtain ⟨start', _, rfl⟩ := Option.map_eq_some_iff.1 hf'
  have hchain : c.chain = d.chain := (Finding.dependencyCycle.inj heq).2
  exact hne ((BeanGraph.proper_of_mem_cycles hc).1.eq_of_chain (BeanGraph.proper_of_mem_cycles hd).1
    (plain_of_mem_cycles hc) (plain_of_mem_cycles hd) hchain)

theorem length_cycleFindings (r : Resolution) : r.cycleFindings.length = r.cycles.length := by
  rw [cycleFindings, List.length_filterMap_eq_countP, List.countP_eq_length]
  intro c hc
  obtain ⟨s, ss, hs⟩ := List.exists_cons_of_ne_nil (BeanGraph.proper_of_mem_cycles hc).1.nonempty
  simp [Cycle.start?, hs]

theorem mem_cycleFindings_iff {f : Finding} :
    f ∈ (ofGraph settings g).cycleFindings ↔
      f ∈ (ofGraph settings g).findings ∧ f.category = .cycle := by
  constructor
  · intro h
    refine ⟨List.mem_append_right _ h, ?_⟩
    obtain ⟨c, _, h⟩ := List.mem_filterMap.1 h
    obtain ⟨start, _, rfl⟩ := Option.map_eq_some_iff.1 h
    rfl
  · rintro ⟨h, hcategory⟩
    rcases mem_findings_cases h with h | ⟨m, _, k, _, h⟩ | h
    · exact absurd h (Finding.not_structural_of_cycle hcategory)
    · rcases Pass.mem_outcome_cases h with hother | h
      · rw [hcategory] at hother
        rcases hother with hother | hother | hother <;> cases hother
      · rw [Outcome.category_of_finding? h] at hcategory
        cases hcategory
    · exact h

/-- Each cycle is told once. -/
theorem countP_cycles :
    ((Finding.snapshot (ofGraph settings g).findings).countP fun f => f.category = .cycle) =
      (ofGraph settings g).cycles.length := by
  rw [← length_cycleFindings, List.countP_eq_length_filter]
  refine List.Perm.length_eq ((List.perm_ext_iff_of_nodup ?_ nodup_cycleFindings).2 fun f => ?_)
  · exact (Finding.nodup_snapshot (keyed_findings settings g)).filter _
  · rw [List.mem_filter, Finding.mem_snapshot, mem_cycleFindings_iff, decide_eq_true_iff]

end Resolution

/-! ### Reports -/

/-- How often the report tells of the element with this kind of diagnostic. -/
def Report.tally (r : Report) (id : String) (element : Name) : Nat :=
  (r.diagnosticsFor element).countP (·.id = id)

theorem Report.tally_of (time : String) (p : Plan) (findings : List Finding) (id : String)
    (n : Name) :
    (Report.of time p findings).tally id n =
      findings.countP fun f => decide (f.id = id) && decide (f.element = n) := by
  rw [tally, diagnosticsFor, List.countP_filter]
  exact List.countP_map

theorem Report.length_errors_of (time : String) (p : Plan) (findings : List Finding) :
    (Report.of time p findings).errors.length = (Summary.of p findings).errorCount := by
  rw [errors, ← List.countP_eq_length_filter]
  exact List.countP_map

theorem Report.length_warnings_of (time : String) (p : Plan) (findings : List Finding) :
    (Report.of time p findings).warnings.length = (Summary.of p findings).warningCount := by
  rw [warnings, ← List.countP_eq_length_filter]
  refine List.countP_map.trans (List.countP_congr fun f _ => ?_)
  cases hf : f.severity <;> simp [Diagnostic.ofFinding, Finding.isError, hf]

/-- A report tells once of a socket that it misses a bean, or that its beans are ambiguous, exactly
if the socket has this outcome in the plan, and never more than once; the numbers of its summary are
those of its plan, of its diagnostics and of the cycles that the search finds. -/
theorem report_counted [PatternEngine] (g : Graph) (settings : ResolverSettings) (time : String) :
    let v := (g.survey settings.knownTypes).inventory
    let report := g.resolve settings time
    let s := report.summary
    (∀ n, report.tally "WIRE001" n ≤ 1 ∧ (report.tally "WIRE001" n = 1 ↔
      ∃ e, report.plan.get? n = some e ∧ e.outcome = .missing)) ∧
    (∀ n, report.tally "WIRE002" n ≤ 1 ∧ (report.tally "WIRE002" n = 1 ↔
      ∃ e, report.plan.get? n = some e ∧ ∃ beans, e.outcome = .ambiguous beans)) ∧
    s.cycleCount =
      ((BeanGraph.ofPlan v report.plan).cycles settings.memoizeCycleSearch).length ∧
    s.totalSockets = report.plan.size ∧
    s.resolvedSingle + s.resolvedMulti + s.unresolved + s.ambiguous + s.missingRequired =
      s.totalSockets ∧
    s.errorCount = report.errors.length ∧ s.warningCount = report.warnings.length ∧
    s.errorCount + s.warningCount = report.diagnostics.length ∧
    (s.passed = true ↔ s.errorCount = 0) := by
  intro v report s
  let r := Resolution.ofGraph settings g
  have hreport : report = Report.of time r.plan (Finding.snapshot r.findings) := rfl
  refine ⟨fun n => ?_, fun n => ?_, Resolution.countP_cycles, rfl, Summary.outcomes_total _ _,
    (Report.length_errors_of _ _ _).symm, (Report.length_warnings_of _ _ _).symm, ?_,
    Summary.passed_iff _ _⟩
  · rw [hreport, Report.tally_of]
    exact Resolution.countP_snapshot (P := (· = .missing)) (fun _ => .inl)
      (fun _ _ => Outcome.eq_missing_iff) (by simp) n
  · rw [hreport, Report.tally_of]
    exact Resolution.countP_snapshot (P := fun o => ∃ beans, o = .ambiguous beans) (fun _ => .inr)
      (fun _ _ => Outcome.eq_ambiguous_iff) (by simp) n
  · rw [hreport, Report.of, List.length_map]
    exact Summary.severities_total _ _

end Wiring
