import Mathlib.Data.List.Basic
import Wiring.Toml.Quoted

/-! Strings of TOML documents.  Whatever text is written, and whatever follows it on its line, it is
read again as it was.  In each form the body ends where it was ended: a quotation mark in it is
escaped, or stands in a run that is too short to end a string of several lines. -/

namespace Wiring.Toml

/-! ### Escapes -/

theorem upperHexDigit_spec : ∀ n < 16, isPlain (upperHexDigit n) = true ∧
    upperHexDigit n ≠ '"' ∧ upperHexDigit n ≠ '\\' := by
  decide

theorem charOfHex?_low : ∀ n < 128,
    charOfHex? ['0', '0', upperHexDigit (n / 16), upperHexDigit (n % 16)] =
      some (Char.ofNat n) := by
  decide

theorem needsEscape_of_isPlain {c : Char} (h : isPlain c = true) : needsEscape c = false := by
  simp only [isPlain, Bool.and_eq_true, Bool.not_eq_true'] at h
  exact h.1

theorem toNat_lt_of_needsEscape {c : Char} (h : needsEscape c = true) : c.toNat < 128 := by
  simp only [needsEscape, Bool.or_eq_true, Bool.and_eq_true, decide_eq_true_iff, beq_iff_eq] at h
  rcases h with ⟨⟨hlow, _⟩, _⟩ | rfl
  · have hspace : c.toNat < 32 := hlow
    omega
  · decide

/-- A character stands in a basic string as it is, or as an escape that the reader of the form
passes over. -/
theorem escapeChar_cases (severalLines : Bool) (c : Char) :
    (escapeChar severalLines c = [c] ∧ c ≠ '\\' ∧ needsEscape c = false ∧
      (severalLines = false → c ≠ '\n')) ∨
    ∃ e more, escapeChar severalLines c = '\\' :: e :: more ∧ isPlain e = true ∧
      ∀ d ∈ more, isPlain d = true ∧ d ≠ '"' ∧ d ≠ '\\' := by
  unfold escapeChar
  simp only [beq_iff_eq]
  split_ifs with hslash hb ht hn hlines hf hr hescape
  · exact .inr ⟨'\\', [], rfl, by decide, by simp⟩
  · exact .inr ⟨'b', [], rfl, by decide, by simp⟩
  · exact .inr ⟨'t', [], rfl, by decide, by simp⟩
  · subst hn
    exact .inl ⟨rfl, by decide, by decide, by simp [hlines]⟩
  · exact .inr ⟨'n', [], rfl, by decide, by simp⟩
  · exact .inr ⟨'f', [], rfl, by decide, by simp⟩
  · exact .inr ⟨'r', [], rfl, by decide, by simp⟩
  · have hlow := toNat_lt_of_needsEscape hescape
    refine .inr ⟨'u', _, rfl, by decide, fun d hd => ?_⟩
    simp only [List.mem_cons, List.not_mem_nil, or_false] at hd
    rcases hd with rfl | rfl | rfl | rfl
    · decide
    · decide
    · exact upperHexDigit_spec _ (by omega)
    · exact upperHexDigit_spec _ (by omega)
  · exact .inl ⟨rfl, hslash, by simpa using hescape, fun _ => hn⟩

theorem unescape_cons {c : Char} (hc : c ≠ '\\') (cs : List Char) :
    unescape false (c :: cs) = (c :: ·) <$> unescape false cs := by
  rw [unescape.eq_def]
  simp [hc]

/-- What is written for a character is read as that character. -/
theorem unescape_escapeChar (severalLines : Bool) (c : Char) (cs : List Char) :
    unescape false (escapeChar severalLines c ++ cs) = (c :: ·) <$> unescape false cs := by
  unfold escapeChar
  simp only [beq_iff_eq]
  split_ifs with hslash hb ht hn hlines hf hr hescape
  · subst hslash; rfl
  · subst hb; rfl
  · subst ht; rfl
  · subst hn; exact unescape_cons hslash cs
  · subst hn; rfl
  · subst hf; rfl
  · subst hr; rfl
  · have hhex := charOfHex?_low c.toNat (toNat_lt_of_needsEscape hescape)
    rw [Char.ofNat_toNat] at hhex
    have hread : unescape false
        ('\\' :: 'u' :: '0' :: '0' :: upperHexDigit (c.toNat / 16) ::
          upperHexDigit (c.toNat % 16) :: cs) =
        (charOfHex? ['0', '0', upperHexDigit (c.toNat / 16), upperHexDigit (c.toNat % 16)]).bind
          fun x => (x :: ·) <$> unescape false cs := rfl
    rw [hhex] at hread
    exact hread
  · exact unescape_cons hslash cs

theorem unescape_escaped (severalLines : Bool) (run : Nat) (cs : List Char) :
    unescape false (escaped severalLines run cs) = some cs := by
  induction cs generalizing run with
  | nil => rfl
  | cons c cs ih =>
    rw [escaped]
    split_ifs with hquote hrun
    · rw [unescape_cons (by decide), ih, hquote]
      rfl
    · have hescape : unescape false ('\\' :: '"' :: escaped severalLines 0 cs) =
          ('"' :: ·) <$> unescape false (escaped severalLines 0 cs) := rfl
      rw [hescape, ih, hquote]
      rfl
    · rw [unescape_escapeChar, ih]
      rfl

/-! ### Strings of one line -/

section

variable {c : Char} {cs body rest : List Char}

/-- A splitter that passes over single characters passes over a text of them. -/
theorem split_append {split : List Char → Option (List Char × List Char)} {more : List Char}
    (hcons : ∀ d ∈ more, ∀ {cs body rest}, split cs = some (body, rest) →
      split (d :: cs) = some (d :: body, rest))
    (h : split cs = some (body, rest)) : split (more ++ cs) = some (more ++ body, rest) := by
  induction more with
  | nil => exact h
  | cons d more ih =>
    obtain ⟨hd, hmore⟩ := List.forall_mem_cons.1 hcons
    exact hd (ih hmore)

theorem splitBasic_cons (hplain : isPlain c = true) (hquote : c ≠ '"') (hslash : c ≠ '\\')
    (h : splitBasic cs = some (body, rest)) : splitBasic (c :: cs) = some (c :: body, rest) := by
  rw [splitBasic.eq_def]
  split <;> simp_all

theorem splitBasic_escape (hplain : isPlain c = true) (h : splitBasic cs = some (body, rest)) :
    splitBasic ('\\' :: c :: cs) = some ('\\' :: c :: body, rest) := by
  rw [splitBasic, if_pos hplain, h]
  rfl

theorem splitBasic_escaped (run : Nat) (cs rest : List Char) :
    splitBasic (escaped false run cs ++ '"' :: rest) = some (escaped false run cs, rest) := by
  induction cs generalizing run with
  | nil => rfl
  | cons c cs ih =>
    rw [escaped]
    split_ifs with hquote hrun
    · cases hrun
    · exact splitBasic_escape (by decide) (ih 0)
    · rw [List.append_assoc]
      rcases escapeChar_cases false c with
        ⟨hself, hslash, hescape, hline⟩ | ⟨e, more, hescape, he, hmore⟩
      · rw [hself]
        have hplain : isPlain c = true := by simp [isPlain, hescape, hline rfl]
        exact splitBasic_cons hplain hquote hslash (ih 0)
      · rw [hescape]
        refine splitBasic_escape he (split_append (fun d hd => ?_) (ih 0))
        obtain ⟨hplain, hquote, hslash⟩ := hmore d hd
        exact splitBasic_cons hplain hquote hslash

theorem splitLiteral_of_plain {cs : List Char} (hcs : ∀ c ∈ cs, isPlain c = true ∧ c ≠ '\'')
    (rest : List Char) : splitLiteral (cs ++ '\'' :: rest) = some (cs, rest) := by
  induction cs with
  | nil => rfl
  | cons c cs ih =>
    obtain ⟨⟨hplain, htick⟩, hcs⟩ := List.forall_mem_cons.1 hcs
    rw [List.cons_append, splitLiteral.eq_def]
    simp [hplain, ih hcs]

/-! ### Strings of several lines -/

theorem splitBasicLines_cons (hescape : needsEscape c = false) (hslash : c ≠ '\\')
    (hquote : c = '"' → ∀ more, cs ≠ '"' :: '"' :: more)
    (h : splitBasicLines cs = some (body, rest)) :
    splitBasicLines (c :: cs) = some (c :: body, rest) := by
  rw [splitBasicLines.eq_def]
  split <;> simp_all

theorem splitBasicLines_escape (hescape : needsEscape c = false)
    (h : splitBasicLines cs = some (body, rest)) :
    splitBasicLines ('\\' :: c :: cs) = some ('\\' :: c :: body, rest) := by
  rw [splitBasicLines]
  simp [hescape, h]

/-- Marks before the three that end a string belong to it. -/
theorem marksBefore_replicate {mark : Char} {run : Nat} (hrun : run ≤ 2)
    (hrest : rest.head? ≠ some mark) :
    marksBefore mark (List.replicate run mark ++ rest) = List.replicate run mark := by
  have hnone : rest.takeWhile (· == mark) = [] := by
    cases rest with
    | nil => rfl
    | cons c rest => rw [List.takeWhile_cons_of_neg (by simpa using hrest)]
  rw [marksBefore, List.takeWhile_append_of_pos (by simp), hnone, List.append_nil,
    List.take_of_length_le (by simpa using hrun)]

/-- The splitter ends a string at three marks in a row, and not before. -/
structure EndsAt (mark : Char) (split : List Char → Option (List Char × List Char)) : Prop where
  fewer : ∀ {cs body rest}, (∀ more, cs ≠ mark :: mark :: more) → split cs = some (body, rest) →
    split (mark :: cs) = some (mark :: body, rest)
  three : ∀ rest, split (mark :: mark :: mark :: rest) =
    some (marksBefore mark rest, rest.drop (marksBefore mark rest).length)

namespace EndsAt

variable {mark : Char} {split : List Char → Option (List Char × List Char)}
  (h : EndsAt mark split) {run : Nat} (hrun : run ≤ 2)
include h hrun

/-- One or two marks before another character end nothing. -/
theorem marks (hcs : cs.head? ≠ some mark) (hsplit : split cs = some (body, rest)) :
    split (List.replicate run mark ++ cs) = some (List.replicate run mark ++ body, rest) := by
  have hone : split (mark :: cs) = some (mark :: body, rest) :=
    h.fewer (by rintro more rfl; simp at hcs) hsplit
  obtain rfl | rfl | rfl : run = 0 ∨ run = 1 ∨ run = 2 := by omega
  · exact hsplit
  · exact hone
  · exact h.fewer (by rintro more heq; cases heq; simp at hcs) hone

theorem close (hrest : rest.head? ≠ some mark) :
    split (List.replicate run mark ++ mark :: mark :: mark :: rest) =
      some (List.replicate run mark, rest) := by
  have hfirst : List.replicate run mark ++ mark :: mark :: mark :: rest =
      mark :: mark :: mark :: (List.replicate run mark ++ rest) := by
    obtain rfl | rfl | rfl : run = 0 ∨ run = 1 ∨ run = 2 := by omega
    all_goals rfl
  rw [hfirst, h.three, marksBefore_replicate hrun hrest]
  simp

end EndsAt

theorem endsAt_splitBasicLines : EndsAt '"' splitBasicLines where
  fewer hcs h := splitBasicLines_cons (by decide) (by decide) (fun _ => hcs) h
  three _ := rfl

theorem splitBasicLines_escaped {run : Nat} (hrun : run ≤ 2) (cs : List Char)
    (hrest : rest.head? ≠ some '"') :
    splitBasicLines (List.replicate run '"' ++ (escaped true run cs ++ (threeQuotes ++ rest))) =
      some (List.replicate run '"' ++ escaped true run cs, rest) := by
  induction cs generalizing run with
  | nil =>
    rw [escaped, List.nil_append, List.append_nil]
    exact endsAt_splitBasicLines.close hrun hrest
  | cons c cs ih =>
    rw [escaped]
    split_ifs with hquote hshort
    · have hmore : run < 2 := by simpa using hshort
      simpa [List.replicate_succ'] using ih hmore
    · have hnext := splitBasicLines_escape (c := '"') (by decide) (ih (Nat.zero_le 2))
      exact endsAt_splitBasicLines.marks hrun (by simp) hnext
    · rw [List.append_assoc]
      rcases escapeChar_cases true c with
        ⟨hself, hslash, hescape, _⟩ | ⟨e, more, hescape, he, hmore⟩
      · rw [hself]
        have hnext := splitBasicLines_cons hescape hslash (fun heq => absurd heq hquote)
          (ih (Nat.zero_le 2))
        exact endsAt_splitBasicLines.marks hrun (by simpa using hquote) hnext
      · rw [hescape]
        refine endsAt_splitBasicLines.marks hrun (by simp)
          (splitBasicLines_escape (needsEscape_of_isPlain he)
            (split_append (fun d hd => ?_) (ih (Nat.zero_le 2))))
        obtain ⟨hplain, hquote, hslash⟩ := hmore d hd
        exact splitBasicLines_cons (needsEscape_of_isPlain hplain) hslash
          fun heq => absurd heq hquote

/-- No run of marks is longer than two, the first one after `run` marks. -/
def ShortRuns (mark : Char) : (run : Nat) → List Char → Prop
  | _, [] => True
  | run, c :: cs => if c = mark then run < 2 ∧ ShortRuns mark (run + 1) cs else ShortRuns mark 0 cs

theorem le_longestRun_go (mark : Char) (here longest : Nat) (cs : List Char) :
    longest ≤ (longestRun.go mark here longest cs).2 := by
  induction cs generalizing here longest with
  | nil => exact Nat.le_refl _
  | cons c cs ih =>
    rw [longestRun.go]
    split
    · exact Nat.le_trans (Nat.le_max_left _ _) (ih _ _)
    · exact ih _ _

theorem shortRuns_of_go {mark : Char} {here longest : Nat} {cs : List Char}
    (h : (longestRun.go mark here longest cs).2 ≤ 2) : ShortRuns mark here cs := by
  induction cs generalizing here longest with
  | nil => trivial
  | cons c cs ih =>
    rw [longestRun.go] at h
    rw [ShortRuns]
    split at h
    · rename_i hmark
      rw [if_pos hmark]
      have hlongest := le_longestRun_go mark (here + 1) (max longest (here + 1)) cs
      exact ⟨by omega, ih h⟩
    · rename_i hmark
      rw [if_neg hmark]
      exact ih h

theorem splitLiteralLines_cons (hescape : needsEscape c = false)
    (hquote : c = '\'' → ∀ more, cs ≠ '\'' :: '\'' :: more)
    (h : splitLiteralLines cs = some (body, rest)) :
    splitLiteralLines (c :: cs) = some (c :: body, rest) := by
  rw [splitLiteralLines.eq_def]
  split <;> simp_all

theorem endsAt_splitLiteralLines : EndsAt '\'' splitLiteralLines where
  fewer hcs h := splitLiteralLines_cons (by decide) (fun _ => hcs) h
  three _ := rfl

theorem splitLiteralLines_of_shortRuns {run : Nat} (hrun : run ≤ 2) {cs : List Char}
    (hcs : ∀ c ∈ cs, needsEscape c = false) (hshort : ShortRuns '\'' run cs)
    (hrest : rest.head? ≠ some '\'') :
    splitLiteralLines (List.replicate run '\'' ++ (cs ++ (threeTicks ++ rest))) =
      some (List.replicate run '\'' ++ cs, rest) := by
  induction cs generalizing run with
  | nil =>
    rw [List.nil_append, List.append_nil]
    exact endsAt_splitLiteralLines.close hrun hrest
  | cons c cs ih =>
    obtain ⟨hescape, hcs⟩ := List.forall_mem_cons.1 hcs
    rw [ShortRuns] at hshort
    split_ifs at hshort with htick
    · rw [htick]
      simpa [List.replicate_succ'] using ih hshort.1 hcs hshort.2
    · have hnext := splitLiteralLines_cons hescape (fun heq => absurd heq htick)
        (ih (Nat.zero_le 2) hcs hshort)
      exact endsAt_splitLiteralLines.marks hrun (by simpa using htick) hnext

end

/-! ### Strings of all forms -/

theorem dropMargin_margin {cs body : List Char} (h : '\n' ∉ cs → body.head? ≠ some '\n') :
    dropMargin (margin cs ++ body) = body := by
  unfold margin
  split
  · rfl
  · rename_i hline
    cases body with
    | nil => rfl
    | cons c body =>
      rw [List.nil_append, dropMargin.eq_2]
      rintro rest heq
      cases heq
      exact h hline rfl

/-- A body begins with a mark only in a string of several lines, and with a line feed only if its
text has one. -/
theorem head?_escaped {severalLines : Bool} {run : Nat} {c : Char} {cs : List Char}
    (h : (escaped severalLines run cs).head? = some c) :
    (c = '"' → severalLines = true) ∧ (c = '\n' → c ∈ cs) := by
  cases cs with
  | nil => cases h
  | cons d cs =>
    rw [escaped] at h
    split_ifs at h with hquote hrun
    · obtain rfl : '"' = c := by simpa using h
      exact ⟨fun _ => (Bool.and_eq_true_iff.1 hrun).1, nofun⟩
    · obtain rfl : '\\' = c := by simpa using h
      exact ⟨nofun, nofun⟩
    · rcases escapeChar_cases severalLines d with ⟨hself, _⟩ | ⟨e, more, hescape, _⟩
      · rw [hself] at h
        obtain rfl : d = c := by simpa using h
        exact ⟨fun heq => absurd heq hquote, fun _ => List.mem_cons_self⟩
      · rw [hescape] at h
        obtain rfl : '\\' = c := by simpa using h
        exact ⟨nofun, nofun⟩

/-- A string of one line does not begin with three marks. -/
theorem readString_of_short {mark : Char} {cs rest : List Char} (hcs : cs.head? ≠ some mark)
    (hrest : rest.head? ≠ some mark) :
    readString (mark :: (cs ++ mark :: rest)) = readShort (mark :: (cs ++ mark :: rest)) := by
  have hshort : ∀ m more, mark :: (cs ++ mark :: rest) = m :: m :: m :: more → False := by
    intro m more heq
    obtain ⟨rfl, heq⟩ := List.cons.inj heq
    cases cs with
    | nil => simp_all
    | cons c cs => simp_all
  exact readString.eq_3 _ (hshort '"') (hshort '\'')

section

variable {rest : List Char} (hquote : rest.head? ≠ some '"') (htick : rest.head? ≠ some '\'')

include hquote in
theorem readString_basic (cs : List Char) :
    readString (basic cs ++ rest) = some (String.ofList cs, rest) := by
  have hhead : (escaped false 0 cs).head? ≠ some '"' := fun h =>
    Bool.false_ne_true ((head?_escaped h).1 rfl)
  have hchars : basic cs ++ rest = '"' :: (escaped false 0 cs ++ '"' :: rest) := by simp [basic]
  rw [hchars, readString_of_short hhead hquote, readShort, splitBasic_escaped]
  simp [unescape_escaped]

include htick in
theorem readString_literal {cs : List Char} (hcs : ∀ c ∈ cs, isPlain c = true ∧ c ≠ '\'') :
    readString (literal cs ++ rest) = some (String.ofList cs, rest) := by
  have hhead : cs.head? ≠ some '\'' := fun h => (hcs _ (List.mem_of_head? h)).2 rfl
  have hchars : literal cs ++ rest = '\'' :: (cs ++ '\'' :: rest) := by simp [literal]
  rw [hchars, readString_of_short hhead htick, readShort, splitLiteral_of_plain hcs]
  rfl

include hquote in
theorem readString_basicLines (cs : List Char) :
    readString (basicLines cs ++ rest) = some (String.ofList cs, rest) := by
  have hchars : basicLines cs ++ rest =
      '"' :: '"' :: '"' :: (margin cs ++ (escaped true 0 cs ++ (threeQuotes ++ rest))) := by
    simp [basicLines, threeQuotes]
  have hmargin : '\n' ∉ cs → (escaped true 0 cs ++ (threeQuotes ++ rest)).head? ≠ some '\n' := by
    intro hline hhead
    rw [List.head?_append, Option.or_eq_some_iff] at hhead
    rcases hhead with hhead | ⟨_, hhead⟩
    · exact hline ((head?_escaped hhead).2 rfl)
    · cases hhead
  have hsplit := splitBasicLines_escaped (Nat.zero_le 2) cs hquote
  rw [List.replicate_zero, List.nil_append, List.nil_append] at hsplit
  rw [hchars, readString, dropMargin_margin hmargin, hsplit]
  simp [unescape_escaped]

include htick in
theorem readString_literalLines {cs : List Char} (hcs : ∀ c ∈ cs, needsEscape c = false)
    (hshort : ShortRuns '\'' 0 cs) :
    readString (literalLines cs ++ rest) = some (String.ofList cs, rest) := by
  have hchars : literalLines cs ++ rest =
      '\'' :: '\'' :: '\'' :: (margin cs ++ (cs ++ (threeTicks ++ rest))) := by
    simp [literalLines, threeTicks]
  have hmargin : '\n' ∉ cs → (cs ++ (threeTicks ++ rest)).head? ≠ some '\n' := by
    intro hline hhead
    rw [List.head?_append, Option.or_eq_some_iff] at hhead
    rcases hhead with hhead | ⟨_, hhead⟩
    · exact hline (List.mem_of_head? hhead)
    · cases hhead
  have hsplit := splitLiteralLines_of_shortRuns (Nat.zero_le 2) hcs hshort htick
  rw [List.replicate_zero, List.nil_append, List.nil_append] at hsplit
  rw [hchars, readString, dropMargin_margin hmargin, hsplit]
  rfl

/-- A basic string can hold every text, and a text has one of the other forms only if that can hold
it. -/
theorem quotedChars_cases (cs : List Char) :
    quotedChars cs = basic cs ∨ quotedChars cs = basicLines cs ∨
      (quotedChars cs = literal cs ∧ ∀ c ∈ cs, isPlain c = true ∧ c ≠ '\'') ∨
      (quotedChars cs = literalLines cs ∧ (∀ c ∈ cs, needsEscape c = false) ∧
        ShortRuns '\'' 0 cs) := by
  unfold quotedChars
  dsimp only
  split_ifs with _ hliteral _ hliteralLines _
  · exact .inl rfl
  · simp only [Bool.and_eq_true, Bool.not_eq_true', List.any_eq_false, decide_eq_true_iff,
      decide_eq_false_iff_not] at hliteral
    obtain ⟨⟨hescape, htick⟩, hline⟩ := hliteral
    refine .inr (.inr (.inl ⟨rfl, fun c hc => ⟨?_, fun heq => htick (heq ▸ hc)⟩⟩))
    have hbreak : c ≠ '\n' := fun heq => hline (heq ▸ hc)
    simp [isPlain, hescape c hc, hbreak]
  · exact .inr (.inl rfl)
  · simp only [Bool.and_eq_true, Bool.not_eq_true', List.any_eq_false, decide_eq_true_iff]
      at hliteralLines
    obtain ⟨hescape, hruns⟩ := hliteralLines
    exact .inr (.inr (.inr ⟨rfl, fun c hc => by simpa using hescape c hc, shortRuns_of_go hruns⟩))
  · exact .inr (.inl rfl)
  · exact .inl rfl

include hquote htick in
/-- A text is read as it was written, whatever it holds. -/
theorem readString_quotedChars (cs : List Char) :
    readString (quotedChars cs ++ rest) = some (String.ofList cs, rest) := by
  rcases quotedChars_cases cs with h | h | ⟨h, hcs⟩ | ⟨h, hcs, hshort⟩
  · rw [h, readString_basic hquote]
  · rw [h, readString_basicLines hquote]
  · rw [h, readString_literal htick hcs]
  · rw [h, readString_literalLines htick hcs hshort]

end

/-! ### The characters that are written -/

theorem needsEscape_of_mem_escaped {severalLines : Bool} {run : Nat} {cs : List Char} {c : Char}
    (h : c ∈ escaped severalLines run cs) : needsEscape c = false := by
  induction cs generalizing run with
  | nil => cases h
  | cons d cs ih =>
    rw [escaped] at h
    split_ifs at h
    · rcases List.mem_cons.1 h with rfl | h
      · decide
      · exact ih h
    · rcases List.mem_cons.1 h with rfl | h
      · decide
      · rcases List.mem_cons.1 h with rfl | h
        · decide
        · exact ih h
    · rcases List.mem_append.1 h with h | h
      · rcases escapeChar_cases severalLines d with
          ⟨hself, _, hescape, _⟩ | ⟨e, more, hescape, he, hmore⟩
        · rw [hself] at h
          rw [List.mem_singleton.1 h, hescape]
        · rw [hescape] at h
          rcases List.mem_cons.1 h with rfl | h
          · decide
          · rcases List.mem_cons.1 h with rfl | h
            · exact needsEscape_of_isPlain he
            · exact needsEscape_of_isPlain (hmore c h).1
      · exact ih h

theorem needsEscape_of_mem_margin {cs : List Char} {c : Char} (h : c ∈ margin cs) :
    needsEscape c = false := by
  unfold margin at h
  split at h
  · rw [List.mem_singleton.1 h]
    decide
  · cases h

/-- No character is written that only an escape can write. -/
theorem needsEscape_of_mem_quotedChars {cs : List Char} {c : Char} (h : c ∈ quotedChars cs) :
    needsEscape c = false := by
  have hquote : needsEscape '"' = false := by decide
  have htick : needsEscape '\'' = false := by decide
  rcases quotedChars_cases cs with heq | heq | ⟨heq, hcs⟩ | ⟨heq, hcs, _⟩
  · simp only [heq, basic, List.mem_cons, List.mem_append, List.not_mem_nil, or_false] at h
    rcases h with (rfl | h) | rfl
    · exact hquote
    · exact needsEscape_of_mem_escaped h
    · exact hquote
  · simp only [heq, basicLines, threeQuotes, List.mem_cons, List.mem_append, List.not_mem_nil,
      or_false, or_self] at h
    rcases h with ((rfl | h) | h) | rfl
    · exact hquote
    · exact needsEscape_of_mem_margin h
    · exact needsEscape_of_mem_escaped h
    · exact hquote
  · simp only [heq, literal, List.mem_cons, List.mem_append, List.not_mem_nil, or_false] at h
    rcases h with (rfl | h) | rfl
    · exact htick
    · exact needsEscape_of_isPlain (hcs c h).1
    · exact htick
  · simp only [heq, literalLines, threeTicks, List.mem_cons, List.mem_append, List.not_mem_nil,
      or_false, or_self] at h
    rcases h with ((rfl | h) | h) | rfl
    · exact htick
    · exact needsEscape_of_mem_margin h
    · exact hcs c h
    · exact htick

end Wiring.Toml
