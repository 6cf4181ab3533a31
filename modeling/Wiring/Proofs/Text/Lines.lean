import Wiring.Text

/-! The lines of a text.  Texts that end in line breaks have, put together, the lines of each in
turn, and as many as there are line breaks. -/

namespace Wiring.Text

theorem lines_cons_of_eq {c : Char} (hc : c ≠ '\n') {cs l : List Char} {ls : List (List Char)}
    (h : lines cs = l :: ls) : lines (c :: cs) = (c :: l) :: ls := by
  rw [lines, if_neg (by simpa using hc), h]

theorem exists_lines_break (cs : List Char) : ∃ l ls, lines (cs ++ ['\n']) = l :: ls := by
  induction cs with
  | nil => exact ⟨[], [], rfl⟩
  | cons c cs ih =>
    obtain ⟨l, ls, hlines⟩ := ih
    by_cases hc : c = '\n'
    · exact ⟨[], l :: ls, by rw [List.cons_append, lines, if_pos (by simpa using hc), hlines]⟩
    · exact ⟨c :: l, ls, lines_cons_of_eq hc hlines⟩

/-- What stands behind a line break is read by itself. -/
theorem lines_append_break (cs rest : List Char) :
    lines (cs ++ '\n' :: rest) = lines (cs ++ ['\n']) ++ lines rest := by
  induction cs with
  | nil => rfl
  | cons c cs ih =>
    obtain ⟨l, ls, hlines⟩ := exists_lines_break cs
    rw [List.cons_append, List.cons_append]
    by_cases hc : c = '\n'
    · have hbreak : (c == '\n') = true := by simpa using hc
      rw [lines, lines, if_pos hbreak, if_pos hbreak, ih, List.cons_append]
    · rw [hlines, List.cons_append] at ih
      rw [lines_cons_of_eq hc ih, lines_cons_of_eq hc hlines, List.cons_append]

theorem lines_of_not_mem {cs : List Char} (h : '\n' ∉ cs) : lines (cs ++ ['\n']) = [cs] := by
  induction cs with
  | nil => rfl
  | cons c cs ih =>
    have hc : c ≠ '\n' := fun heq => h (heq ▸ List.mem_cons_self)
    exact lines_cons_of_eq hc (ih fun hmem => h (List.mem_cons_of_mem c hmem))

theorem length_lines (cs : List Char) : (lines (cs ++ ['\n'])).length = cs.count '\n' + 1 := by
  induction cs with
  | nil => rfl
  | cons c cs ih =>
    by_cases hc : c = '\n'
    · rw [List.cons_append, lines, if_pos (by simpa using hc), List.length_cons, ih, hc,
        List.count_cons_self]
    · obtain ⟨l, ls, hlines⟩ := exists_lines_break cs
      rw [hlines, List.length_cons] at ih
      rw [List.cons_append, lines_cons_of_eq hc hlines, List.length_cons, ih,
        List.count_cons_of_ne hc]

end Wiring.Text
