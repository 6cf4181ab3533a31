import Wiring.Document.Report
import Wiring.Proofs.Cycle.Dependency
import Wiring.Proofs.Cycle.Search
import Wiring.Proofs.Document.TypeExpr
import Wiring.Proofs.Json.Number
import Wiring.Proofs.Plan
import Wiring.Proofs.Selection

/-! Report documents round-trip.  Every part of a report is read back from what is written for it;
of a plan this asks that it is in the order of the names, and of a summary that its counts fit 64
bits.  The plan of a resolution is in that order, and its counts are no more than the entries of the
plan and the diagnostics. -/

namespace Wiring

open Json (Decoder Record)

/-! ### Outcomes -/

theorem Mutation.reads (m : Mutation) : Mutation.decode.Reads m.toJson m :=
  Record.reads (.field m.input.reads (.field m.output.reads (.nil _))) (by simp) (by simp)

theorem BeanOrder.reads (o : BeanOrder) : BeanOrder.decode.Reads (.string o.text) o := by
  cases o with
  | directive => exact ⟨trivial, fun _ _ => rfl⟩
  | name => exact ⟨trivial, fun _ _ => rfl⟩

theorem Name.reads_list (names : List Name) :
    (Decoder.list Name.decode).Reads (Name.listJson names) names :=
  Decoder.reads_list (Decoder.forall₂_reads_map Name.reads names)

namespace Outcome

theorem reads_single (bean : Name) (mutation? : Option Mutation) :
    Decoder.Reads (Record.decode
      { title := "struct variant ResolutionOutcome::ResolvedSingle"
        fields :=
          [("bean", Name.decode.into fun bean v => (bean, v.2)),
            ("mutation", (Decoder.nullable Mutation.decode).into fun mutation? v =>
              (v.1, mutation?))]
        required := ["bean"] } (default, none))
      (.object (single bean mutation?).fields) (bean, mutation?) := by
  refine Record.reads (.field bean.reads ?_) (by simp) (by simp [fields])
  rw [← List.append_nil (Json.field? ..)]
  exact .option (fun m => m.reads.nullable (by simp [Mutation.toJson, Json.toTree])) rfl (.nil _)

theorem reads_multi (beans : List Name) (order : BeanOrder) :
    Decoder.Reads (Record.decode
      { title := "struct variant ResolutionOutcome::ResolvedMulti"
        fields :=
          [("beans", (Decoder.list Name.decode).into fun beans v => (beans, v.2)),
            ("ordering", BeanOrder.decode.into fun order v => (v.1, order))]
        required := ["beans", "ordering"] } ([], .name))
      (.object (multi beans order).fields) (beans, order) :=
  Record.reads (.field (Name.reads_list beans) (.field order.reads (.nil _))) (by simp)
    (by simp [fields])

theorem reads_ambiguous (candidates : List Name) :
    Decoder.Reads (Record.decode
      { title := "struct variant ResolutionOutcome::Ambiguous"
        fields := [("candidates", (Decoder.list Name.decode).into fun candidates _ => candidates)]
        required := ["candidates"] } [])
      (.object (ambiguous candidates).fields) candidates :=
  Record.reads (.field (Name.reads_list candidates) (.nil _)) (by simp) (by simp [fields])

theorem reads (o : Outcome) : decode.Reads o.toJson o := by
  cases o with
  | unresolved => exact Decoder.reads_tagged_bare (by simp [label]) rfl
  | single bean mutation? =>
    refine Decoder.reads_tagged (by simp [label]) ?_ (reads_single bean mutation?) rfl rfl
    cases mutation? <;> simp [fields, Json.field?]
  | multi beans order =>
    exact Decoder.reads_tagged (by simp [label]) (by simp [fields]) (reads_multi beans order) rfl
      rfl
  | ambiguous candidates =>
    exact Decoder.reads_tagged (by simp [label]) (by simp [fields]) (reads_ambiguous candidates)
      rfl rfl
  | missing => exact Decoder.reads_tagged_bare (by simp [label]) rfl

end Outcome

/-! ### Plans -/

theorem SocketOrigin.reads (o : SocketOrigin) : SocketOrigin.decode.Reads (.string o.text) o := by
  cases o with
  | beanSocket => exact ⟨trivial, fun _ _ => rfl⟩
  | socketBean => exact ⟨trivial, fun _ _ => rfl⟩
  | override => exact ⟨trivial, fun _ _ => rfl⟩

theorem Multiplicity.reads (m : Multiplicity) : Multiplicity.decode.Reads (.string m.text) m := by
  cases m with
  | single => exact ⟨trivial, fun _ _ => rfl⟩
  | array => exact ⟨trivial, fun _ _ => rfl⟩
  | list => exact ⟨trivial, fun _ _ => rfl⟩
  | set => exact ⟨trivial, fun _ _ => rfl⟩
  | collection => exact ⟨trivial, fun _ _ => rfl⟩

theorem PlanEntry.reads (e : PlanEntry) : PlanEntry.decode.Reads e.toJson e := by
  have hresolvedIn := Decoder.reads_nullable Name.reads
    (by simp [Name.toJson, Json.toTree]) e.resolvedIn?
  exact Record.reads
    (.field e.socket.reads <| .field e.owner.reads <| .field e.origin.reads <|
      .field e.multiplicity.reads <| .field hresolvedIn <| .field e.outcome.reads (.nil _))
    (by simp) (by simp)

/-- A plan in the order of the names is read back as it is. -/
theorem Plan.reads {p : Plan} (h : Sorted p.entries) : Plan.decode.Reads p.toJson p := by
  have hentries : (Decoder.entries Name.ofText PlanEntry.decode).Reads p.toJson p.entries := by
    refine Decoder.reads_entries ?_
    rw [List.forall₂_map_left_iff]
    refine List.forall₂_same.2 fun entry _ => ⟨?_, entry.2.reads⟩
    rw [Name.ofText, Name.parse_text]
  have hread := hentries.map Plan.ofList
  rw [ofList_of_sorted h] at hread
  exact ⟨hread.legible, hread.read⟩

/-! ### Diagnostics -/

theorem Category.reads (c : Category) : Diagnostic.decodeCategory.Reads (.string c.text) c := by
  cases c with
  | resolution => exact ⟨trivial, fun _ _ => rfl⟩
  | directive => exact ⟨trivial, fun _ _ => rfl⟩
  | cycle => exact ⟨trivial, fun _ _ => rfl⟩
  | type => exact ⟨trivial, fun _ _ => rfl⟩
  | declaration => exact ⟨trivial, fun _ _ => rfl⟩

theorem Severity.reads (s : Severity) : Diagnostic.decodeSeverity.Reads (.string s.name) s := by
  cases s with
  | error => exact ⟨trivial, fun _ _ => rfl⟩
  | warning => exact ⟨trivial, fun _ _ => rfl⟩

theorem Diagnostic.reads (d : Diagnostic) : Diagnostic.decode.Reads d.toJson d := by
  refine Record.reads ?_ (by simp) (by simp)
  rw [← List.append_nil (Json.field? ..)]
  exact .field (Decoder.reads_string d.id) <| .field d.category.reads <| .field d.severity.reads <|
    .field d.element.reads <| .field (Decoder.reads_string d.message) <|
    .option (fun s => (Decoder.reads_string s).nullable (by simp [Json.toTree])) rfl (.nil _)

/-! ### Summaries -/

namespace Summary

def counts (s : Summary) : List Nat :=
  [s.totalSockets, s.resolvedSingle, s.resolvedMulti, s.unresolved, s.ambiguous, s.missingRequired,
    s.errorCount, s.warningCount, s.cycleCount, s.declarationCount, s.directiveCount]

theorem reads {s : Summary} (h : ∀ n ∈ s.counts, n ≤ Json.maxWord) :
    Summary.decode.Reads s.toJson s := by
  have hcounts : ∀ n ∈ s.counts, (Decoder.natural "usize").Reads (.nat n) n := fun n hn =>
    Decoder.reads_natural (Json.legible_nat (h n hn))
  simp only [counts, List.forall_mem_cons, List.not_mem_nil, false_implies, implies_true] at hcounts
  obtain ⟨htotal, hsingle, hmulti, hunresolved, hambiguous, hmissing, herrors, hwarnings, hcycles,
    hdeclarations, hdirectives, -⟩ := hcounts
  exact Record.reads
    (.field htotal <| .field hsingle <| .field hmulti <| .field hunresolved <| .field hambiguous <|
      .field hmissing <| .field herrors <| .field hwarnings <| .field hcycles <|
      .field hdeclarations <| .field hdirectives <| .field (Decoder.reads_bool s.passed) (.nil _))
    (by simp) (by simp)

/-- Nothing is counted that is neither an entry of the plan nor a finding. -/
theorem le_of_mem_counts {p : Plan} {findings : List Finding} {n : Nat}
    (h : n ∈ (of p findings).counts) : n ≤ max p.size findings.length := by
  have hsize : p.toList.length = p.size := List.length_map _
  have hplan : ∀ q, p.toList.countP q ≤ max p.size findings.length := fun q =>
    Nat.le_trans (hsize ▸ List.countP_le_length) (Nat.le_max_left _ _)
  have hfindings : ∀ q, findings.countP q ≤ max p.size findings.length := fun q =>
    Nat.le_trans List.countP_le_length (Nat.le_max_right _ _)
  simp only [counts, of, Finding.errorCount, Finding.warningCount, List.mem_cons,
    List.not_mem_nil, or_false] at h
  rcases h with rfl | rfl | rfl | rfl | rfl | rfl | rfl | rfl | rfl | rfl | rfl
  · exact Nat.le_max_left _ _
  all_goals first | exact hplan _ | exact hfindings _

end Summary

/-! ### Reports -/

namespace Report

theorem reads {r : Report} (hplan : Plan.Sorted r.plan.entries)
    (hcounts : ∀ n ∈ r.summary.counts, n ≤ Json.maxWord) : Report.decode.Reads r.toJson r :=
  Record.reads
    (.field (Decoder.reads_string r.generatedAt) <| .field (Summary.reads hcounts) <|
      .field (Plan.reads hplan) <|
      .field (Decoder.reads_list (Decoder.forall₂_reads_map Diagnostic.reads r.diagnostics))
        (.nil _))
    (by simp) (by simp)

/-- The entries of the plan and the diagnostics can be counted in 64 bits, as whatever is held in
memory can. -/
def Countable (r : Report) : Prop :=
  r.plan.size ≤ Json.maxWord ∧ r.diagnostics.length ≤ Json.maxWord

/-- The written form of the report nests at most 127 levels of brackets. -/
def Shallow (r : Report) : Prop := r.toJson.toTree.height ≤ 127

end Report

theorem Resolution.sorted_plan [PatternEngine] (r : Resolution) : Plan.Sorted r.plan.entries :=
  Plan.sorted_insertAll (Plan.sorted_insertAll (p := {}) .nil _) _

/-- The report on any graph is read back from its document as it was. -/
theorem Graph.reports_round_trip [PatternEngine] (g : Graph) (settings : ResolverSettings)
    (generatedAt : String) (hcountable : (g.resolve settings generatedAt).Countable)
    (hshallow : (g.resolve settings generatedAt).Shallow) :
    Report.ofJson (g.resolve settings generatedAt).json = .ok (g.resolve settings generatedAt) := by
  refine Json.decodeText_pretty (Report.reads (Resolution.sorted_plan _) fun n hn => ?_)
    (Nat.lt_succ_of_le hshallow)
  have hlength : (g.resolve settings generatedAt).diagnostics.length =
      (Finding.snapshot (Resolution.ofGraph settings g).findings).length := List.length_map _
  refine Nat.le_trans (Summary.le_of_mem_counts hn) (Nat.max_le.2 ⟨hcountable.1, ?_⟩)
  exact hlength ▸ hcountable.2

namespace Sample

def bakery : Path := ⟨⟨"bakery", by decide⟩, []⟩

def flour : Path := ⟨⟨"flour", by decide⟩, []⟩

def farm : Path := ⟨⟨"farm", by decide⟩, []⟩

def field : Path := ⟨⟨"field", by decide⟩, []⟩

def town : Path := ⟨⟨"town", by decide⟩, []⟩

def grain : TypeExpr := .declared "app.\"Grain\"" []

def milling : Mutator := ⟨grain, .declared "app.Flour" [.upTo (.array grain)], true⟩

/-- The bakery gets its flour from the grain of the farm, which imports a module that is not there.
-/
def milled : Graph :=
  { modules :=
      [{ name := .module bakery
         beans :=
           [.ofSocket { name := "flour", required := milling.output, mutator? := some milling }] },
       { name := .module farm
         beans := [.ofType "field" grain]
         imports := [.module bakery, .module town] }] }

def milledBeans : BeanGraph :=
  [(.bean bakery flour, [(.socket (.bean bakery flour), .bean farm field)]), (.bean farm field, [])]

theorem beans_milled : letI := engine
    BeanGraph.ofPlan (Resolution.ofGraph {} milled).inventory (Resolution.ofGraph {} milled).plan =
      milledBeans :=
  BeanGraph.sorted_eq (by decide +kernel) (by decide +kernel) (by decide +kernel)

theorem cycles_milled : letI := engine
    (Resolution.ofGraph {} milled).cycles = [] := by
  let _ := engine
  show (BeanGraph.ofPlan _ (Resolution.ofGraph {} milled).plan).cycles false = []
  rw [beans_milled]
  exact BeanGraph.cycles_eq_nil_of_searchWithin (n := 4) (by decide +kernel)

theorem resolve_milled (time : String) : letI := engine
    milled.resolve {} time =
      .of time (Resolution.ofGraph {} milled).plan
        [.unknownImport (.module farm) (.module town)] := by
  let _ := engine
  have hfindings : (Resolution.ofGraph {} milled).findings =
      [.unknownImport (.module farm) (.module town)] := by
    rw [Resolution.findings, Resolution.cycleFindings, cycles_milled]
    decide +kernel
  rw [Graph.resolve, hfindings, Finding.snapshot, List.mergeSort_singleton]
  rfl

end Sample

/-- The report has a mutation in its plan, a diagnostic, and characters that are escaped. -/
theorem Graph.reports_round_trip_milled : letI := Sample.engine
    let report := Sample.milled.resolve {} "12:00\n"
    report.Countable ∧ report.Shallow ∧ report.diagnostics ≠ [] ∧
      (∃ e ∈ report.plan.toList, e.outcome =
        .single (.bean Sample.farm Sample.field)
          (some ⟨Sample.milling.input, Sample.milling.output⟩)) ∧
      Report.ofJson report.json = .ok report := by
  let _ := Sample.engine
  intro report
  have hreport : report = .of "12:00\n" _ _ := Sample.resolve_milled _
  have hcountable : report.Countable := by
    rw [hreport]
    exact ⟨by decide +kernel, by decide +kernel⟩
  have hshallow : report.Shallow := by
    rw [hreport, Report.Shallow]
    decide +kernel
  refine ⟨hcountable, hshallow, ?_, ?_, reports_round_trip _ _ _ hcountable hshallow⟩
  · rw [hreport]
    exact List.cons_ne_nil _ _
  · rw [hreport]
    decide +kernel

end Wiring
