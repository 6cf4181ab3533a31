import Wiring.Proofs.Except
import Wiring.Proofs.Name.Text

/-! Reading the written form of a name.  Identifiers hold no blanks and no separators, so the pieces
of the text of a name are its parts, and the reader finds the name again. -/

namespace Wiring

namespace Text

theorem dropWhile_isBlank {cs : List Char} (h : ∀ c ∈ cs, isBlank c = false) :
    cs.dropWhile isBlank = cs := by
  cases cs with
  | nil => rfl
  | cons c cs => exact List.dropWhile_cons_of_neg (by simp [h c List.mem_cons_self])

theorem trimChars_eq_self {cs : List Char} (h : ∀ c ∈ cs, isBlank c = false) :
    trimChars cs = cs := by
  rw [trimChars, dropWhile_isBlank h, dropWhile_isBlank fun c hc => h c (List.mem_reverse.1 hc),
    List.reverse_reverse]

theorem pieces_eq_splitOn (separator : Char) (cs : List Char) :
    pieces separator cs = cs.splitOn separator := by
  induction cs with
  | nil => rfl
  | cons c cs ih =>
    rw [pieces, List.splitOn, List.splitOnP_cons_eq_if_modifyHead]
    by_cases hc : c = separator
    · simp [hc, ih, List.splitOn]
    · rw [if_neg hc, if_neg (by simpa using hc)]
      obtain ⟨p, ps, hpieces⟩ := List.exists_cons_of_ne_nil (pieces_ne_nil separator cs)
      rw [List.splitOn] at ih
      rw [← ih, hpieces]
      rfl

/-- The pieces of texts with a separator between them are these texts. -/
theorem pieces_intercalate {separator : Char} {ls : List (List Char)}
    (h : ∀ l ∈ ls, separator ∉ l) (hne : ls ≠ []) :
    pieces separator ([separator].intercalate ls) = ls := by
  rw [pieces_eq_splitOn]
  exact List.splitOn_intercalate separator h hne

end Text

/-! ### Identifiers -/

theorem isBlank_of_isIdentifierChar {c : Char} (h : isIdentifierChar c = true) :
    Text.isBlank c = false := by
  have hrange : (65 ≤ c.toNat ∧ c.toNat ≤ 90) ∨ (97 ≤ c.toNat ∧ c.toNat ≤ 122) ∨
      (48 ≤ c.toNat ∧ c.toNat ≤ 57) ∨ c.toNat = 95 ∨ c.toNat = 36 := by
    have hdef : isIdentifierChar c = ((((decide (65 ≤ c.val ∧ c.val ≤ 90) ||
        (decide (97 ≤ c.val) && decide (c.val ≤ 122))) || c == '_') || c == '$') ||
        (decide (48 ≤ c.val) && decide (c.val ≤ 57))) := rfl
    simp only [hdef, Bool.or_eq_true, Bool.and_eq_true, decide_eq_true_iff, beq_iff_eq] at h
    rcases h with (((h | h) | h) | h) | h
    · exact .inl h
    · exact .inr (.inl h)
    · exact .inr (.inr (.inr (.inl (h ▸ rfl))))
    · exact .inr (.inr (.inr (.inr (h ▸ rfl))))
    · exact .inr (.inr (.inl h))
  simp only [Text.isBlank, Bool.or_eq_false_iff, Bool.and_eq_false_iff, decide_eq_false_iff_not,
    beq_eq_false_iff_ne]
  omega

namespace Identifier

theorem toList_ne_nil (i : Identifier) : i.text.toList ≠ [] := by
  intro h
  have hlegal := i.legal
  rw [h] at hlegal
  cases hlegal

theorem isBlank_of_mem_text (i : Identifier) : ∀ c ∈ i.text.toList, Text.isBlank c = false := by
  intro c hc
  refine isBlank_of_isIdentifierChar ?_
  by_contra hnot
  exact i.not_mem_text (by simpa using hnot) hc

theorem ofChars?_text (i : Identifier) : ofChars? i.text.toList = some i := by
  rw [ofChars?, dif_pos i.legal]
  simp

end Identifier

/-! ### Paths -/

namespace Path

theorem toList_text (p : Path) :
    p.text.toList = ['.'].intercalate (p.parts.map (·.text.toList)) := by
  rw [text, String.toList_intercalate, List.map_map]
  rfl

theorem isBlank_of_mem_text (p : Path) : ∀ c ∈ p.text.toList, Text.isBlank c = false := by
  intro c hc
  by_cases hdot : c = '.'
  · rw [hdot]
    decide
  · refine isBlank_of_isIdentifierChar ?_
    by_contra hnot
    exact p.not_mem_text (by simpa using hnot) hdot hc

theorem toList_ne_nil (p : Path) : p.text.toList ≠ [] := by
  intro h
  rw [toList_text, parts, List.map_cons] at h
  cases hrest : p.rest.map (·.text.toList) with
  | nil =>
    rw [hrest] at h
    exact p.first.toList_ne_nil (by simpa using h)
  | cons t ts =>
    rw [hrest] at h
    simp at h

theorem pieces_text (p : Path) :
    Text.pieces '.' p.text.toList = p.parts.map (·.text.toList) := by
  rw [toList_text]
  refine Text.pieces_intercalate (fun l hl => ?_) (by simp [parts])
  obtain ⟨i, _, rfl⟩ := List.mem_map.1 hl
  exact i.not_mem_text (by decide)

end Path

namespace Name

theorem readPart_text (segment : List Char) (i : Identifier) :
    readPart segment i.text.toList = .ok i := by
  rw [readPart, Text.trimChars_eq_self i.isBlank_of_mem_text, Identifier.ofChars?_text]

theorem readPath_text (p : Path) : readPath p.text.toList = .ok p := by
  have hrest : (p.rest.map (·.text.toList)).mapM (readPart p.text.toList) = .ok p.rest := by
    rw [List.mapM_map]
    simpa [Function.comp_def] using mapM_ok (g := id) fun i _ => readPart_text p.text.toList i
  rw [readPath, Text.trimChars_eq_self p.isBlank_of_mem_text, p.pieces_text]
  simp only [List.isEmpty_iff, if_neg p.toList_ne_nil, Path.parts, List.map_cons, readPart_text,
    hrest]
  rfl

theorem readSocketPart_text (i : Identifier) : readSocketPart i.text.toList = .ok i := by
  have htrim := Text.trimChars_eq_self i.isBlank_of_mem_text
  simp only [readSocketPart, readIdentifier, htrim, List.isEmpty_iff, if_neg i.toList_ne_nil,
    Identifier.ofChars?_text]

/-- A name is read from its written form. -/
theorem parse_text (n : Name) : parse n.text = .ok n := by
  have hpieces : Text.pieces ':' n.text.toList = n.segments.map String.toList := by
    rw [text_eq_intercalate, String.toList_intercalate]
    refine Text.pieces_intercalate (fun l hl => ?_) (by cases n <;> simp [segments])
    obtain ⟨t, ht, rfl⟩ := List.mem_map.1 hl
    exact n.not_mem_segments (by decide) (by decide) t ht
  rw [parse, hpieces]
  cases n with
  | module m =>
    simp only [segments, List.map_cons, List.map_nil, readPath_text]
    rfl
  | bean m b =>
    simp only [segments, List.map_cons, List.map_nil, readPath_text]
    rfl
  | socket m b s =>
    simp only [segments, List.map_cons, List.map_nil, readPath_text, readSocketPart_text]
    rfl

end Name

end Wiring
