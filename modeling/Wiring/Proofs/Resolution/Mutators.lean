import Wiring.Proofs.Inventory.Mutators
import Wiring.Proofs.Resolution.Collected
import Wiring.Proofs.Resolution.Found

/-! Resolutions without the mutators that are dropped.  They have the same plan and the same other
diagnostics, as long as no socket bean has its type from such a mutator. -/

namespace Wiring

namespace Finding

theorem isDropped_of_category {f : Finding} (h : f.category ≠ .declaration) :
    f.isDropped = false := by
  rw [isDropped, decide_eq_false_iff_not]
  intro hf
  rw [hf] at h
  exact h rfl

/-- What is told of a dropped mutator is told by its diagnostic. -/
theorem ofFinding_eq_dropped {f : Finding} {element : Name}
    (h : Diagnostic.ofFinding f = .ofFinding (.invalidDeclaration element Mutator.dropped)) :
    f = .invalidDeclaration element Mutator.dropped := by
  have helement : f.element = element := congrArg Diagnostic.element h
  have hid : f.id = "WIRE009" := congrArg Diagnostic.id h
  have hmessage : f.message = message (.invalidDeclaration element Mutator.dropped) :=
    congrArg Diagnostic.message h
  have hakin : Akin f (.invalidDeclaration element Mutator.dropped) :=
    akin_of_message helement hid hmessage
  cases hakin
  rfl

theorem filter_snapshot {findings : List Finding} (h : Keyed findings) (p : Finding → Bool) :
    (snapshot findings).filter p = snapshot (findings.filter p) := by
  have hfilter : Keyed (findings.filter p) := fun f hf f' hf' =>
    h f (List.mem_of_mem_filter hf) f' (List.mem_of_mem_filter hf')
  refine (snapshot_eq_of_sorted hfilter ((pairwise_snapshot h).filter p) fun f => ?_).symm
  simp only [List.mem_filter, mem_snapshot]

end Finding

/-- The diagnostic tells that a mutator has been dropped. -/
def Diagnostic.isDropped (d : Diagnostic) : Bool :=
  d = .ofFinding (.invalidDeclaration d.element Mutator.dropped)

theorem Diagnostic.isDropped_ofFinding (f : Finding) : (ofFinding f).isDropped = f.isDropped := by
  unfold isDropped Finding.isDropped
  rw [decide_eq_decide]
  exact ⟨Finding.ofFinding_eq_dropped, congrArg ofFinding⟩

namespace Resolution

theorem ofGraph_eq_of_inventory {settings : ResolverSettings} {g g' : Graph}
    (htypes : g'.types = g.types)
    (h : (g'.survey settings.knownTypes).inventory = (g.survey settings.knownTypes).inventory) :
    ofGraph settings g' = { ofGraph settings g with
      survey := ⟨(ofGraph settings g).inventory, (g'.survey settings.knownTypes).findings⟩ } := by
  have hsurvey : g'.survey settings.knownTypes =
      ⟨(g.survey settings.knownTypes).inventory, (g'.survey settings.knownTypes).findings⟩ := by
    rw [← h]
  rw [ofGraph, hsurvey, htypes]
  rfl

variable [PatternEngine] {r : Resolution} {f : Finding}

/-- What is found after the survey. -/
def laterFindings (r : Resolution) : List Finding :=
  r.inventory.unknownImports ++ r.schedule.findings ++ r.schedule.shared r.inventory ++
    r.passFindings ++ r.runtimeFindings ++ r.cycleFindings

theorem findings_eq (r : Resolution) : r.findings = r.survey.findings ++ r.laterFindings := by
  simp only [findings, laterFindings, List.append_assoc]

theorem isDropped_of_mem_outcome {p : Pass} {k : SocketEntry} (h : f ∈ (p.outcome k).2) :
    f.isDropped = false := by
  rcases Pass.mem_outcome_sources h with ⟨_, rfl⟩ | ⟨_, _, h⟩ | h | h
  · exact Finding.isDropped_unresolvedType _ _
  · exact Finding.isDropped_of_category (by simp [Pass.category_of_mem_directedFindings h])
  · obtain ⟨_, _, _, rfl⟩ := Pass.exists_of_mem_matching h
    exact Finding.isDropped_invalidDeclaration (by simp) _
  · exact Finding.isDropped_of_category (by simp [Outcome.category_of_finding? h])

/-- Mutators are dropped by the survey alone. -/
theorem isDropped_of_mem_laterFindings (h : f ∈ r.laterFindings) : f.isDropped = false := by
  simp only [laterFindings, List.mem_append] at h
  rcases h with ((((h | h) | h) | h) | h) | h
  · obtain ⟨m, _, h⟩ := List.mem_flatMap.1 h
    obtain ⟨i, _, rfl⟩ := List.mem_map.1 h
    rfl
  · obtain ⟨n, _, rfl⟩ := List.mem_map.1 h
    rfl
  · obtain ⟨_, _, rfl⟩ := found_shared h
    rfl
  · rcases mem_passFindings_cases h with ⟨_, hcategory⟩ | ⟨m, _, k, _, h⟩
    · exact Finding.isDropped_of_category (by simp [hcategory])
    · exact isDropped_of_mem_outcome h
  · unfold runtimeFindings at h
    split at h
    · obtain ⟨k, _, rfl⟩ := List.mem_map.1 h
      rfl
    · cases h
  · obtain ⟨c, _, h⟩ := List.mem_filterMap.1 h
    obtain ⟨start, _, rfl⟩ := Option.map_eq_some_iff.1 h
    rfl

/-- The findings of the survey are told, and otherwise make no difference to a resolution. -/
theorem plan_survey (r : Resolution) (found : List Finding) :
    { r with survey := ⟨r.inventory, found⟩ }.plan = r.plan := rfl

theorem laterFindings_survey (r : Resolution) (found : List Finding) :
    { r with survey := ⟨r.inventory, found⟩ }.laterFindings = r.laterFindings := rfl

end Resolution

/-! ### Reports -/

/-- The report has the plan of the other and its diagnostics, but for some that tell of dropped
mutators. -/
structure Report.Mutes (muted r : Report) : Prop where
  plan : muted.plan = r.plan
  diagnostics : muted.diagnostics ⊆ r.diagnostics
  others : muted.diagnostics.filter (!·.isDropped) = r.diagnostics.filter (!·.isDropped)

theorem Finding.filter_diagnostics {findings : List Finding} (h : Keyed findings) :
    ((snapshot findings).map Diagnostic.ofFinding).filter (!·.isDropped) =
      (snapshot (findings.filter (!·.isDropped))).map .ofFinding := by
  rw [List.filter_map, ← filter_snapshot h]
  refine congrArg _ (List.filter_congr fun f _ => ?_)
  exact congrArg _ (Diagnostic.isDropped_ofFinding f)

theorem Report.mutes_of_findings (time : String) (p : Plan) {found findings : List Finding}
    (hkeyed : Finding.Keyed findings) (hsub : found ⊆ findings)
    (hothers : found.filter (!·.isDropped) = findings.filter (!·.isDropped)) :
    Mutes (.of time p (Finding.snapshot found)) (.of time p (Finding.snapshot findings)) where
  plan := rfl
  diagnostics := List.map_subset _ fun _ hf =>
    Finding.mem_snapshot.2 (hsub (Finding.mem_snapshot.1 hf))
  others := by
    have hkeyed' : Finding.Keyed found := fun f hf f' hf' => hkeyed f (hsub hf) f' (hsub hf')
    rw [Report.of, Report.of, Finding.filter_diagnostics hkeyed', Finding.filter_diagnostics hkeyed,
      hothers]

theorem Report.filter_eq_self (time : String) (p : Plan) {found : List Finding}
    (h : ∀ f ∈ found, f.isDropped = false) :
    (Report.of time p (Finding.snapshot found)).diagnostics.filter (!·.isDropped) =
      (Report.of time p (Finding.snapshot found)).diagnostics := by
  refine List.filter_eq_self.2 fun d hd => ?_
  obtain ⟨f, hf, rfl⟩ := List.mem_map.1 hd
  rw [Diagnostic.isDropped_ofFinding, h f (Finding.mem_snapshot.1 hf)]
  rfl

/-- Where no socket bean has its type from a mutator that is dropped, such mutators are ignored:
without those of the chosen beans the plan and the other diagnostics are the same. -/
theorem Graph.resolve_mute [PatternEngine] (g : Graph) (settings : ResolverSettings) (time : String)
    (chosen : Bean → Bool)
    (htypes : ∀ m ∈ g.modules, ∀ b ∈ m.beans, chosen b = true →
      (b.muted settings.knownTypes).type = b.type) :
    let known := settings.knownTypes
    let report := g.resolve settings time
    let muted := (g.mute known chosen).resolve settings time
    muted.Mutes report ∧
      ((∀ b, chosen b = true) → muted.diagnostics = report.diagnostics.filter (!·.isDropped)) ∧
      (g.survey known).inventory.Exposes fun type k => ∃ m ∈ g.modules, ∃ b ∈ m.beans, ∃ declared,
        b.kind = .socket declared ∧ type = declared.provided ∧ k = declared.kept known ∧
          (chosen b = true → type = k.provided) := by
  intro known report muted
  have h := g.survey_mute known chosen htypes
  let r := Resolution.ofGraph settings g
  let found := ((g.mute known chosen).survey known).findings
  have hfindings : r.findings = (g.survey known).findings ++ r.laterFindings := r.findings_eq
  have hr : Resolution.ofGraph settings (g.mute known chosen) =
      { r with survey := ⟨r.inventory, found⟩ } :=
    Resolution.ofGraph_eq_of_inventory rfl h.inventory
  have hmuted : muted = .of time r.plan (Finding.snapshot (found ++ r.laterFindings)) := by
    show Report.of time (Resolution.ofGraph settings (g.mute known chosen)).plan
      (Finding.snapshot (Resolution.ofGraph settings (g.mute known chosen)).findings) = _
    rw [hr, Resolution.findings_eq, r.plan_survey, r.laterFindings_survey]
  have hmutes : muted.Mutes report := by
    rw [hmuted]
    refine Report.mutes_of_findings time r.plan (Resolution.keyed_findings settings g) ?_ ?_
    · rw [hfindings]
      exact List.append_subset.2 ⟨List.subset_append_of_subset_left _ h.findings,
        List.subset_append_right _ _⟩
    · rw [hfindings, List.filter_append, List.filter_append, h.others]
  refine ⟨hmutes, fun hchosen => ?_, ?_⟩
  · rw [← hmutes.others, hmuted]
    refine (Report.filter_eq_self time r.plan fun f hf => ?_).symm
    rcases List.mem_append.1 hf with hf | hf
    · exact h.silent hchosen f hf
    · exact Resolution.isDropped_of_mem_laterFindings hf
  · intro k hk horigin
    obtain ⟨owner, howner, m, hm, b, hb, declared, hkind, htype, hsocket⟩ := h.exposes k hk horigin
    refine ⟨owner, howner, m, hm, b, hb, declared, hkind, htype, hsocket, fun hchosen => ?_⟩
    rw [htype, hsocket, Bean.provided_kept hkind (htypes m hm b hb hchosen)]

namespace Sample

def station : Path := ⟨⟨"station", by decide⟩, []⟩

def display : Path := ⟨⟨"display", by decide⟩, []⟩

def readings : TypeExpr := .declared "java.util.List" [.exact (.declared "app.Reading" [])]

def reading : Path := ⟨⟨"readings", by decide⟩, []⟩

def log : TypeExpr := .declared "app.Log" []

/-- A socket bean that takes readings, with a mutator that is dropped. -/
def recorder (output : TypeExpr) : Bean :=
  .ofSocket
    { name := "readings"
      required := readings
      optional := true
      mutator? := some ⟨readings, output, false⟩ }

def logged : Bean := .ofSocket { name := "log", required := log }

/-- The station sees its recorder only, and must supply a log. -/
def recorded (output : TypeExpr) : Graph :=
  ⟨[], [{ name := .module station, beans := [recorder output], imports := [.module display] },
    { name := .module display, beans := [logged] }]⟩

end Sample

/-- A mutator that keeps the type of its socket bean is dropped, and the report tells of it, but it
makes no other difference. -/
theorem Graph.resolve_mute_recorded : letI := Sample.engine
    let report := (Sample.recorded Sample.readings).resolve {} ""
    let muted := ((Sample.recorded Sample.readings).mute {} fun _ => true).resolve {} ""
    muted.Mutes report ∧ ¬ report.diagnostics ⊆ muted.diagnostics := by
  let _ := Sample.engine
  intro report muted
  have htypes : ∀ m ∈ (Sample.recorded Sample.readings).modules, ∀ b ∈ m.beans,
      (fun _ => true) b = true → (b.muted {}).type = b.type := by
    intro m hm b hb _
    rcases List.mem_pair.1 hm with rfl | rfl
    · obtain rfl := List.mem_singleton.1 hb
      decide
    · obtain rfl := List.mem_singleton.1 hb
      decide
  obtain ⟨hmutes, hsilent, _⟩ :=
    resolve_mute (Sample.recorded Sample.readings) {} "" (fun _ => true) htypes
  have hfound : .invalidDeclaration (.bean Sample.station Sample.reading) Mutator.dropped ∈
      (Resolution.ofGraph {} (Sample.recorded Sample.readings)).findings := by
    rw [Resolution.findings_eq]
    exact List.mem_append_left _ (by decide +kernel)
  refine ⟨hmutes, fun hsub => ?_⟩
  have hmuted := hsub (tells_of_mem_findings hfound "").2
  rw [hsilent fun _ => rfl] at hmuted
  simpa [Diagnostic.isDropped_ofFinding, Finding.isDropped, Finding.element] using
    (List.mem_filter.1 hmuted).2

/-- A socket bean has its type from a mutator although it is dropped, and is put where it does not
belong. -/
theorem Graph.plan_depends_on_dropped : letI := Sample.engine
    let g := Sample.recorded Sample.log
    ((g.mute {} fun _ => true).resolve {} "").plan ≠ (g.resolve {} "").plan ∧
      ¬ (g.survey {}).inventory.Exposes fun type k => type = k.provided := by
  let _ := Sample.engine
  intro g
  refine ⟨by decide +kernel, fun hexposes => ?_⟩
  have hwrong : (g.survey {}).inventory.sockets.any (fun k => k.origin = .socketBean &&
      (g.survey {}).inventory.beans[k.owner]?.all fun owner => owner.type ≠ k.socket.provided) := by
    decide +kernel
  obtain ⟨k, hk, hwrong⟩ := List.any_eq_true.1 hwrong
  rw [Bool.and_eq_true, decide_eq_true_iff] at hwrong
  obtain ⟨owner, howner, htype⟩ := hexposes k hk hwrong.1
  rw [howner] at hwrong
  simp [htype] at hwrong

end Wiring
