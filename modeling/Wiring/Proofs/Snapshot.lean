import Wiring.Report

/-! Snapshots of findings, and what a report makes of them.  Sorting and collapsing keep the members
of a list, so a report has passed exactly if no error has been found. -/

namespace Wiring

theorem mem_collapse {α : Type} [DecidableEq α] {a : α} {l : List α} : a ∈ collapse l ↔ a ∈ l := by
  fun_induction collapse l with
  | case1 => rfl
  | case2 => rfl
  | case3 b rest ih => rw [ih]; simp
  | case4 b c rest hne ih => simp only [List.mem_cons, ih]

/-- What collapses of a list in order is in strict order. -/
theorem pairwise_collapse {α : Type} [DecidableEq α] {r : α → α → Prop} {l : List α}
    (h : l.Pairwise r) (hanti : ∀ a ∈ l, ∀ b ∈ l, r a b → r b a → a = b) :
    (collapse l).Pairwise fun a b => r a b ∧ a ≠ b := by
  fun_induction collapse l with
  | case1 => exact .nil
  | case2 a => exact List.pairwise_singleton _ _
  | case3 a rest ih =>
    exact ih (List.pairwise_cons.1 h).2 fun b hb c hc =>
      hanti b (List.mem_cons_of_mem _ hb) c (List.mem_cons_of_mem _ hc)
  | case4 a b rest hne ih =>
    obtain ⟨ha, hrest⟩ := List.pairwise_cons.1 h
    refine List.pairwise_cons.2 ⟨fun c hc => ?_, ih hrest fun b hb c hc =>
      hanti b (List.mem_cons_of_mem _ hb) c (List.mem_cons_of_mem _ hc)⟩
    have hmem := mem_collapse.1 hc
    refine ⟨ha c hmem, ?_⟩
    rintro rfl
    -- An equal element further on would have the second one between it and the first.
    have hab : r a b := ha b List.mem_cons_self
    have hba : r b a := by
      rcases List.mem_cons.1 hmem with heq | hmem
      · exact absurd heq hne
      · exact (List.pairwise_cons.1 hrest).1 a hmem
    exact hne (hanti a List.mem_cons_self b (List.mem_cons_of_mem _ List.mem_cons_self) hab hba)

theorem Finding.mem_snapshot {f : Finding} {findings : List Finding} :
    f ∈ snapshot findings ↔ f ∈ findings := by
  rw [snapshot, mem_collapse, List.mem_mergeSort]

/-- The report has the finding among its diagnostics, with that severity. -/
def Report.Tells (r : Report) (severity : Severity) (f : Finding) : Prop :=
  f.severity = severity ∧ .ofFinding f ∈ r.diagnostics

theorem tells_of_mem_findings [PatternEngine] {g : Graph} {settings : ResolverSettings}
    {f : Finding} (h : f ∈ (Resolution.ofGraph settings g).findings) (time : String) :
    (g.resolve settings time).Tells f.severity f :=
  ⟨rfl, List.mem_map_of_mem (Finding.mem_snapshot.2 h)⟩

theorem passed_resolve_iff [PatternEngine] {g : Graph} {settings : ResolverSettings}
    {time : String} :
    (g.resolve settings time).summary.passed = true ↔
      ∀ f ∈ (Resolution.ofGraph settings g).findings, f.isError = false := by
  let findings := (Resolution.ofGraph settings g).findings
  show (Finding.errorCount (Finding.snapshot findings) == 0) = true ↔ _
  rw [beq_iff_eq, Finding.errorCount, List.countP_eq_zero]
  constructor
  · intro h f hf
    simpa using h f (Finding.mem_snapshot.2 hf)
  · intro h f hf
    simp [h f (Finding.mem_snapshot.1 hf)]

end Wiring
