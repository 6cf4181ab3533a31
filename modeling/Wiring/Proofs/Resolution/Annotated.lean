import Wiring.Proofs.Cycle.Search
import Wiring.Proofs.Inventory.Unbroken
import Wiring.Proofs.Resolution.Collected
import Wiring.Proofs.Selection
import Wiring.Proofs.Text.Lines

/-! The annotations of a workflow.  Each diagnostic of a report is written as one annotation, and a
workflow reads an annotation up to the end of its line, so one whose message has a line break is cut
off there.  The messages of a graph without line breaks, whose selectors can be read, have none. -/

namespace Wiring

/-! ### Messages of a pass -/

theorem KnownTypes.unbroken_component (known : KnownTypes) {required : TypeExpr}
    (h : Text.Unbroken required.text) : Text.Unbroken (known.component required).text := by
  have hfree : Text.Unbroken TypeArg.unbounded.text := by decide
  have hargs : Text.Unbroken (required.args.head?.getD .unbounded).text := by
    cases required with
    | declared name args =>
      cases args with
      | nil => exact hfree
      | cons arg args =>
        simp only [TypeExpr.text, Text.unbroken_append] at h
        exact h.1.1.2
    | _ => exact hfree
  unfold component
  split
  · exact h
  · rw [TypeExpr.text, Text.unbroken_append] at h
    exact h.1
  · exact hargs

namespace Pass

variable [PatternEngine] {p : Pass} {k : SocketEntry} {f : Finding}

theorem unbroken_component (hk : k.socket.Unbroken) : Text.Unbroken (p.component k).text := by
  unfold component
  split
  · exact hk.matched
  · exact p.hierarchy.known.unbroken_component hk.required

theorem unbroken_directedFindings (hbeans : ∀ b ∈ p.inventory.beans, Text.Unbroken b.type.text)
    (hk : k.socket.Unbroken) {names : List Name} (h : f ∈ p.directedFindings k names) :
    Text.Unbroken f.message := by
  obtain ⟨name, _, h⟩ := List.mem_flatMap.1 h
  rw [Finding.unbroken_message_iff]
  unfold directedFault? at h
  split at h
  · obtain rfl := List.mem_singleton.1 h
    refine List.forall_mem_singleton.2 ?_
    decide
  · rename_i b hb
    split at h
    · split at h
      · cases h
      · obtain rfl := List.mem_singleton.1 h
        have hbean := hbeans b (Inventory.mem_of_bean? hb)
        simpa [Finding.texts] using ⟨hbean, unbroken_component hk⟩
      · cases h
    · obtain rfl := List.mem_singleton.1 h
      refine List.forall_mem_singleton.2 ?_
      have hname : ∀ n : Name, '\n' ∉ n.text.toList := Name.unbroken_text
      unfold invisibleReason
      split <;> simp [Text.Unbroken, hname]

/-- What the pass of a socket finds is told on one line. -/
theorem unbroken_outcome (hbeans : ∀ b ∈ p.inventory.beans, Text.Unbroken b.type.text)
    (hk : k.socket.Unbroken) (h : f ∈ (p.outcome k).2) : Text.Unbroken f.message := by
  have hfinding : ∀ {o : Outcome}, o.finding? k = some f → Text.Unbroken f.message := by
    intro o ho
    rw [Finding.unbroken_message_iff]
    cases o with
    | missing => cases ho; exact List.forall_mem_singleton.2 hk.matched
    | ambiguous beans => cases ho; exact List.forall_mem_singleton.2 (Name.unbroken_list beans)
    | unresolved => cases ho
    | single bean mutation? => cases ho
    | multi beans order => cases ho
  cases hm : p.malformed? k with
  | some type =>
    have htype : Text.Unbroken type.text := by
      unfold malformed? at hm
      split at hm
      · cases hm
        exact hk.required
      · split at hm
        · cases hm
          exact hk.matched
        · cases hm
    rw [outcome, hm] at h
    rw [List.mem_singleton.1 h, Finding.unbroken_message_iff]
    exact List.forall_mem_singleton.2 htype
  | none =>
    rw [outcome, hm] at h
    dsimp only at h
    cases hnames : p.directives.beans? k.name with
    | some names =>
      rw [hnames] at h
      rcases List.mem_append.1 h with h | h
      · exact unbroken_directedFindings hbeans hk h
      · rw [snd_reconcile, Option.mem_toList] at h
        exact hfinding h
    | none =>
      obtain ⟨conditions, hconditions⟩ := Selector.exists_compileAll hk.selectors
      rw [hnames, matching, hconditions, List.nil_append, snd_reconcile, Option.mem_toList] at h
      exact hfinding h

end Pass

/-! ### Messages of a resolution -/

theorem Cycle.unbroken_chain (c : Cycle) : Text.Unbroken c.chain := by
  have hlink : ∀ l : Link, Text.Unbroken l.text := by
    intro l
    cases l with
    | socket name => exact name.unbroken_text
    | nested => decide
  have hstart : Text.Unbroken (c.start?.elim "" (·.text)) := by
    cases c.start? with
    | none => decide
    | some start => exact start.unbroken_text
  rw [chain, Text.unbroken_append]
  refine ⟨hstart, ?_⟩
  induction c.steps with
  | nil => decide
  | cons s ss ih =>
    rw [List.map_cons, String.join_cons]
    simp only [Text.unbroken_append]
    exact ⟨⟨⟨⟨by decide, hlink s.via⟩, by decide⟩, s.target.unbroken_text⟩, ih⟩

namespace Resolution

theorem unbroken_findings [PatternEngine] {g : Graph} (h : g.Unbroken)
    (settings : ResolverSettings) {f : Finding} (hf : f ∈ (ofGraph settings g).findings) :
    Text.Unbroken f.message := by
  have hsound := sound_ofGraph settings g
  have hsurvey := g.unbroken_survey h settings.knownTypes
  simp only [findings, List.mem_append] at hf
  rcases hf with (((((hf | hf) | hf) | hf) | hf) | hf) | hf
  · exact hsurvey.messages f hf
  · obtain ⟨m, _, hf⟩ := List.mem_flatMap.1 hf
    obtain ⟨i, _, rfl⟩ := List.mem_map.1 hf
    exact Finding.unbroken_message_iff.2 (List.forall_mem_nil _)
  · obtain ⟨n, _, rfl⟩ := List.mem_map.1 hf
    exact Finding.unbroken_message_iff.2 (List.forall_mem_singleton.2 (Name.unbroken_list _))
  · obtain ⟨m, _, hf⟩ := List.mem_flatMap.1 hf
    unfold Schedule.sharedOf at hf
    dsimp only at hf
    split at hf
    · obtain ⟨k, _, rfl⟩ := List.mem_map.1 hf
      exact Finding.unbroken_message_iff.2 (List.forall_mem_singleton.2 (Name.unbroken_list _))
    · cases hf
  · rcases mem_passFindings_cases hf with ⟨hstructural, hcategory⟩ | ⟨m, hm, k, hpass, hf⟩
    · rw [Finding.unbroken_message_iff]
      cases f with
      | badDirectiveSocket element module => exact List.forall_mem_nil _
      | repeatedDirectiveBean element bean => exact List.forall_mem_nil _
      | badDirectiveBean => exact hstructural.elim
      | incompatibleDirectiveBean => exact hstructural.elim
      | _ => cases hcategory
    · obtain ⟨hmodule, _⟩ := hsound.mem_scheduled.1 hm
      obtain ⟨hk, _⟩ := (hsound.mem_passSockets hmodule).1 hpass
      exact Pass.unbroken_outcome (p := (ofGraph settings g).passOf m) hsurvey.beans
        (hsurvey.sockets k hk) hf
  · unfold runtimeFindings at hf
    split at hf
    · obtain ⟨k, _, rfl⟩ := List.mem_map.1 hf
      exact Finding.unbroken_message_iff.2 (List.forall_mem_nil _)
    · cases hf
  · obtain ⟨c, _, hf⟩ := List.mem_filterMap.1 hf
    obtain ⟨start, _, rfl⟩ := Option.map_eq_some_iff.1 hf
    exact Finding.unbroken_message_iff.2 (List.forall_mem_singleton.2 c.unbroken_chain)

end Resolution

/-! ### Annotations -/

/-- What a workflow is to show of a diagnostic, as a command in one line. -/
def Diagnostic.command (d : Diagnostic) : String :=
  "::" ++ (match d.severity with | .error => "error" | .warning => "warning") ++ " title=" ++
    d.id ++ "::" ++ d.message

theorem Diagnostic.unbroken_command_iff (f : Finding) :
    Text.Unbroken (Diagnostic.ofFinding f).command ↔ Text.Unbroken f.message := by
  have hid : Text.Unbroken f.id := by
    unfold Finding.id
    cases f <;> simp [Text.Unbroken]
  have hlevel : Text.Unbroken
      (match f.severity with | .error => "error" | .warning => "warning") := by
    cases f.severity <;> decide
  simp only [command, ofFinding, Text.unbroken_append, hid, hlevel]
  simp [Text.Unbroken]

namespace Report

/-- What a workflow gets to read after the table: the annotations, with a line break after each. -/
def annotations (r : Report) : String := String.join (r.diagnostics.map workflowLine)

theorem lines_annotations (r : Report) :
    Text.lines r.annotations.toList =
      r.diagnostics.flatMap fun d => Text.lines (d.command.toList ++ ['\n']) := by
  unfold annotations
  induction r.diagnostics with
  | nil => rfl
  | cons d ds ih =>
    have hline : (workflowLine d).toList = d.command.toList ++ ['\n'] := String.toList_append
    rw [List.map_cons, String.join_cons, String.toList_append, hline, List.append_assoc,
      List.singleton_append, Text.lines_append_break, ih, List.flatMap_cons]

theorem lines_annotations_of_unbroken {r : Report}
    (h : ∀ d ∈ r.diagnostics, Text.Unbroken d.command) :
    Text.lines r.annotations.toList = r.diagnostics.map (·.command.toList) := by
  rw [lines_annotations, List.map_eq_flatMap]
  exact List.flatMap_congr fun d hd => Text.lines_of_not_mem (h d hd)

theorem length_lines_annotations (r : Report) :
    (Text.lines r.annotations.toList).length =
      r.diagnostics.length + (r.diagnostics.flatMap (·.command.toList)).count '\n' := by
  rw [lines_annotations]
  induction r.diagnostics with
  | nil => rfl
  | cons d ds ih =>
    rw [List.flatMap_cons, List.length_append, Text.length_lines, ih, List.flatMap_cons,
      List.count_append, List.length_cons]
    omega

/-- There are as many lines as diagnostics exactly if none is cut off. -/
theorem length_lines_annotations_iff {r : Report} :
    (Text.lines r.annotations.toList).length = r.diagnostics.length ↔
      ∀ d ∈ r.diagnostics, Text.Unbroken d.command := by
  rw [length_lines_annotations, Nat.add_eq_left, List.count_eq_zero, List.mem_flatMap]
  constructor
  · exact fun h d hd hbreak => h ⟨d, hd, hbreak⟩
  · rintro h ⟨d, hd, hbreak⟩
    exact h d hd hbreak

end Report

theorem Graph.unbroken_commands_iff [PatternEngine] {g : Graph} {settings : ResolverSettings}
    {time : String} :
    (∀ d ∈ (g.resolve settings time).diagnostics, Text.Unbroken d.command) ↔
      ∀ d ∈ (g.resolve settings time).diagnostics, Text.Unbroken d.message := by
  refine forall₂_congr fun d hd => ?_
  obtain ⟨f, _, rfl⟩ := List.mem_map.1 hd
  exact Diagnostic.unbroken_command_iff f

/-- Behind the table stand the annotations of the diagnostics in their order.  Each is one line, the
`i`-th line that of the `i`-th diagnostic, if and only if no message has a line break, and else
there are more lines than diagnostics.  In a graph without line breaks whose selectors can be read,
none has one. -/
theorem ci_annotated [PatternEngine] (g : Graph) (settings : ResolverSettings) (time : String) :
    let r := g.resolve settings time
    r.ci = Report.ciHead r.summary ++ r.annotations ∧
    Text.lines r.annotations.toList =
      r.diagnostics.flatMap (fun d => Text.lines (d.command.toList ++ ['\n'])) ∧
    (Text.lines r.annotations.toList = r.diagnostics.map (·.command.toList) ↔
      ∀ d ∈ r.diagnostics, Text.Unbroken d.message) ∧
    ((Text.lines r.annotations.toList).length ≠ r.diagnostics.length ↔
      ∃ d ∈ r.diagnostics, ¬ Text.Unbroken d.message) ∧
    (g.Unbroken → ∀ d ∈ r.diagnostics, Text.Unbroken d.message) := by
  intro r
  have hunbroken : (∀ d ∈ r.diagnostics, Text.Unbroken d.command) ↔
      ∀ d ∈ r.diagnostics, Text.Unbroken d.message := Graph.unbroken_commands_iff
  refine ⟨rfl, r.lines_annotations, ⟨fun hlines => ?_, fun h => ?_⟩, ?_, fun h d hd => ?_⟩
  · refine hunbroken.1 (Report.length_lines_annotations_iff.1 ?_)
    rw [hlines, List.length_map]
  · exact Report.lines_annotations_of_unbroken (hunbroken.2 h)
  · rw [Ne, Report.length_lines_annotations_iff, hunbroken]
    push Not
    rfl
  · obtain ⟨f, hf, rfl⟩ := List.mem_map.1 hd
    exact Resolution.unbroken_findings h settings (Finding.mem_snapshot.1 hf)

namespace Sample

def cellar : Path := ⟨⟨"cellar", by decide⟩, []⟩

def coilSocket (pattern : String) : Socket :=
  { name := "coil", required := .declared "Coil" [], selectors := [.nameMatches pattern] }

def potSocket : Socket := { name := "pot", required := .unresolved "Pot" }

def still (sockets : List Socket) : Bean :=
  { name := "still", kind := .module (.declared "Still" []) sockets }

/-- A still that wants a coil with a pattern in its name. -/
def stillGraph (pattern : String) : Graph :=
  { modules := [{ name := .module cellar, beans := [still [coilSocket pattern]] }] }

/-- A still that wants a pot of an unknown type and a coil, in a module with an import that is not
there. -/
def distillery : Graph :=
  { modules :=
      [{ name := .module cellar
         beans := [still [potSocket, coilSocket "copper"]]
         imports := [.module shop] }] }

def noShop : Finding := .unknownImport (.module cellar) (.module shop)

def stillPart (name : Identifier) : Name := .socket cellar ⟨⟨"still", by decide⟩, []⟩ name

def noCoil : Finding := .missingRequired (stillPart ⟨"coil", by decide⟩) "Coil"

def noPot : Finding := .unresolvedType (stillPart ⟨"pot", by decide⟩) "<unresolved Pot>"

/-- What is found wrong with the distillery, in the order of the elements. -/
def shortages : List Finding := [noShop, noCoil, noPot]

theorem beans_distillery : letI := engine
    BeanGraph.ofPlan (Resolution.ofGraph {} distillery).inventory
      (Resolution.ofGraph {} distillery).plan =
        [(.bean cellar ⟨⟨"still", by decide⟩, []⟩, [])] := by
  decide +kernel

theorem cycles_distillery : letI := engine
    (Resolution.ofGraph {} distillery).cycles = [] := by
  let _ := engine
  rw [Resolution.cycles, beans_distillery]
  exact BeanGraph.cycles_eq_nil_of_searchWithin (n := 2) (by decide +kernel)

theorem unbroken_distillery : letI := engine
    distillery.Unbroken := by
  let _ := engine
  have hstill : Text.Unbroken "still" ∧ Text.Unbroken (TypeExpr.declared "Still" []).text := by
    decide
  have hpot : potSocket.Unbroken :=
    ⟨by decide, by decide, fun m hm => absurd hm (Option.not_mem_none m), List.forall_mem_nil _⟩
  have hcoil : (coilSocket "copper").Unbroken :=
    ⟨by decide, by decide, fun m hm => absurd hm (Option.not_mem_none m),
      List.forall_mem_singleton.2 ⟨_, rfl⟩⟩
  intro m hm b hb
  obtain rfl := List.mem_singleton.1 hm
  obtain rfl := List.mem_singleton.1 hb
  refine ⟨hstill.1, hstill.2, ?_, fun k hk => absurd hk (Option.not_mem_none k), trivial⟩
  exact List.forall_mem_cons.2 ⟨hpot, List.forall_mem_singleton.2 hcoil⟩

end Sample

/-- The distillery finds neither part, and no module to buy them from; each of the three diagnostics
is told on one line, in their order. -/
theorem ci_annotated_distillery : letI := Sample.engine
    let r := Sample.distillery.resolve {} ""
    Sample.distillery.Unbroken ∧
    r.diagnostics = Sample.shortages.map .ofFinding ∧
    Text.lines r.annotations.toList = r.diagnostics.map (·.command.toList) := by
  let _ := Sample.engine
  intro r
  have hunbroken := Sample.unbroken_distillery
  obtain ⟨_, _, hlines, _, hmessages⟩ := ci_annotated Sample.distillery {} ""
  refine ⟨hunbroken, ?_, hlines.2 (hmessages hunbroken)⟩
  have hfindings : (Resolution.ofGraph {} Sample.distillery).findings =
      [Sample.noShop, Sample.noPot, Sample.noCoil] := by
    rw [Resolution.findings, Resolution.cycleFindings, Sample.cycles_distillery]
    decide +kernel
  have hsnapshot : Finding.snapshot (Resolution.ofGraph {} Sample.distillery).findings =
      Sample.shortages := by
    refine Finding.snapshot_eq_of_sorted (Resolution.keyed_findings {} Sample.distillery)
      (by decide +kernel) fun f => ?_
    rw [hfindings]
    exact (List.Perm.cons _ (.swap _ _ [])).mem_iff
  exact congrArg (·.map Diagnostic.ofFinding) hsnapshot

/-- A pattern that cannot be read is shown on several lines. -/
theorem command_cut_off : letI := Sample.engine
    let r := (Sample.stillGraph "(").resolve {} ""
    (Text.lines r.annotations.toList).length ≠ r.diagnostics.length := by
  let _ := Sample.engine
  intro r hlength
  have hunbroken := Graph.unbroken_commands_iff.1 (Report.length_lines_annotations_iff.1 hlength)
  have hfound : ∃ f ∈ (Resolution.ofGraph {} (Sample.stillGraph "(")).passFindings,
      ¬ Text.Unbroken f.message := by
    decide +kernel
  obtain ⟨f, hf, hbroken⟩ := hfound
  have hmem : f ∈ (Resolution.ofGraph {} (Sample.stillGraph "(")).findings := by
    simp [Resolution.findings, hf]
  exact hbroken (hunbroken _ (tells_of_mem_findings hmem "").2)

end Wiring
