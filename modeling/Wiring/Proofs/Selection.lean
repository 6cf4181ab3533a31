import Mathlib.Data.List.Infix
import Wiring.Selection

/-! Selectors as conditions on beans.  The conditions that selectors are compiled to hold of a bean
exactly if the selectors accept it, whatever the pattern engine. -/

namespace Wiring

namespace Selector

/-- The selector accepts a bean: it carries the marker, has a name that the pattern matches, or
meets the condition. -/
def Accepts [PatternEngine] : Selector → Candidate → Prop
  | .annotated marker, c => marker ∈ c.annotations
  | .nameMatches pattern, c =>
    ∃ condition, PatternEngine.read pattern = .ok condition ∧ condition c.name.text = true
  | .custom _ accepts, c => accepts c = true

variable [PatternEngine]

theorem accepts_iff_of_compile {s : Selector} {condition : Candidate → Bool}
    (h : s.compile = .ok condition) (c : Candidate) : condition c = true ↔ s.Accepts c := by
  cases s with
  | annotated marker =>
    cases h
    exact decide_eq_true_iff
  | nameMatches pattern =>
    cases hread : PatternEngine.read pattern with
    | error bad =>
      rw [compile, hread] at h
      cases h
    | ok p =>
      rw [compile, hread] at h
      cases h
      simp [Accepts, hread]
  | custom name accepts =>
    cases h
    rfl

/-- A selector that cannot be compiled accepts no bean. -/
theorem not_accepts_of_compile {s : Selector} {bad : BadPattern} (h : s.compile = .error bad)
    (c : Candidate) : ¬ s.Accepts c := by
  cases s with
  | annotated marker => cases h
  | nameMatches pattern =>
    rintro ⟨p, hread, _⟩
    rw [compile, hread] at h
    cases h
  | custom name accepts => cases h

theorem accepts_iff_of_compileAll {ss : List Selector} {conditions : List (Candidate → Bool)}
    (h : compileAll ss = .ok conditions) (c : Candidate) :
    conditions.all (· c) = true ↔ ∀ s ∈ ss, s.Accepts c := by
  induction ss generalizing conditions with
  | nil =>
    cases h
    simp
  | cons s ss ih =>
    unfold compileAll at h
    cases hs : s.compile with
    | error bad => rw [hs] at h; cases h
    | ok condition =>
      cases hss : compileAll ss with
      | error bad => rw [hs, hss] at h; cases h
      | ok rest =>
        rw [hs, hss] at h
        cases h
        rw [List.all_cons, Bool.and_eq_true, accepts_iff_of_compile hs, ih hss,
          List.forall_mem_cons]

/-- The selector that stops the others from being compiled is one of them that cannot be. -/
theorem compile_of_compileAll {ss : List Selector} {s : Selector} {bad : BadPattern}
    (h : compileAll ss = .error (s, bad)) : s ∈ ss ∧ s.compile = .error bad := by
  induction ss with
  | nil => cases h
  | cons t ts ih =>
    unfold compileAll at h
    cases ht : t.compile with
    | error bad' =>
      rw [ht] at h
      cases h
      exact ⟨List.mem_cons_self, ht⟩
    | ok condition =>
      cases hts : compileAll ts with
      | ok conditions => rw [ht, hts] at h; cases h
      | error fault =>
        rw [ht, hts] at h
        cases h
        obtain ⟨hmem, hbad⟩ := ih hts
        exact ⟨List.mem_cons_of_mem _ hmem, hbad⟩

theorem exists_compileAll {ss : List Selector}
    (h : ∀ s ∈ ss, ∃ accepts, s.compile = .ok accepts) :
    ∃ conditions, compileAll ss = .ok conditions := by
  cases hall : compileAll ss with
  | ok conditions => exact ⟨conditions, rfl⟩
  | error fault =>
    obtain ⟨s, bad⟩ := fault
    obtain ⟨hs, hbad⟩ := compile_of_compileAll hall
    obtain ⟨accepts, haccepts⟩ := h s hs
    rw [hbad] at haccepts
    cases haccepts

end Selector

/-- An engine for patterns of letters alone: each matches the texts that it is a part of.  A
parenthesis that is only opened is refused. -/
@[reducible] def Sample.engine : PatternEngine where
  read pattern :=
    if pattern = "(" then .error ⟨"regex parse error:\n    (\n    ^\nerror: unclosed group"⟩
    else .ok fun text => decide (pattern.toList <:+: text.toList)

end Wiring
