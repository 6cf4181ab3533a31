import Mathlib.Data.List.TakeWhile
import Wiring.Proofs.Name.Extension
import Wiring.Proofs.Name.Reading

/-! The grammar of names and their normal form.  A text is read as a name exactly if it is one to
three segments of identifiers, blanks around them aside; what is read is written without these
blanks, and so is every name that an operation makes from others. -/

namespace Wiring

namespace Text

/-! ### Blanks at the ends -/

theorem trimChars_cons {c : Char} (hc : isBlank c = true) (cs : List Char) :
    trimChars (c :: cs) = trimChars cs := by
  rw [trimChars, List.dropWhile_cons_of_pos hc, trimChars]

theorem trimChars_concat {c : Char} (hc : isBlank c = true) (cs : List Char) :
    trimChars (cs ++ [c]) = trimChars cs := by
  rw [trimChars, trimChars, List.dropWhile_append]
  split
  · rename_i hempty
    rw [List.isEmpty_iff.1 hempty, List.dropWhile_cons_of_pos hc, List.dropWhile_nil]
  · rw [List.reverse_append, List.reverse_singleton, List.singleton_append,
      List.dropWhile_cons_of_pos hc]

theorem trimChars_append {after : List Char} (ha : ∀ c ∈ after, isBlank c = true)
    (cs : List Char) : trimChars (cs ++ after) = trimChars cs := by
  induction after generalizing cs with
  | nil => rw [List.append_nil]
  | cons c after ih =>
    rw [List.forall_mem_cons] at ha
    rw [List.append_cons, ih ha.2, trimChars_concat ha.1]

/-- A text is what trimming leaves of it, with blanks before and behind. -/
theorem exists_trimChars (cs : List Char) : ∃ before after,
    (∀ c ∈ before, isBlank c = true) ∧ (∀ c ∈ after, isBlank c = true) ∧
    cs = before ++ (trimChars cs ++ after) := by
  refine ⟨cs.takeWhile isBlank, ((cs.dropWhile isBlank).reverse.takeWhile isBlank).reverse,
    fun c => List.mem_takeWhile_imp, fun c hc => List.mem_takeWhile_imp (List.mem_reverse.1 hc), ?_⟩
  rw [trimChars, ← List.reverse_append, List.takeWhile_append_dropWhile, List.reverse_reverse,
    List.takeWhile_append_dropWhile]

/-- Only blanks are trimmed. -/
theorem mem_trimChars {c : Char} {cs : List Char} (hc : isBlank c = false) (h : c ∈ cs) :
    c ∈ trimChars cs := by
  obtain ⟨before, after, hb, ha, hcs⟩ := exists_trimChars cs
  rw [hcs, List.mem_append, List.mem_append] at h
  rcases h with h | h | h
  · rw [hb c h] at hc
    cases hc
  · exact h
  · rw [ha c h] at hc
    cases hc

/-! ### Blanks around pieces -/

section

variable {separator : Char}

theorem pieces_cons_ne {c : Char} (hc : c ≠ separator) (cs : List Char) :
    pieces separator (c :: cs) = (pieces separator cs).modifyHead (c :: ·) := by
  obtain ⟨p, ps, hpieces⟩ := List.exists_cons_of_ne_nil (pieces_ne_nil separator cs)
  rw [pieces, if_neg hc, hpieces]
  rfl

/-- What stands behind the last separator belongs to the last piece. -/
theorem pieces_append {after : List Char} (ha : separator ∉ after) (cs : List Char) :
    ∃ others last, pieces separator cs = others ++ [last] ∧
      pieces separator (cs ++ after) = others ++ [last ++ after] := by
  induction cs with
  | nil =>
    refine ⟨[], [], rfl, ?_⟩
    rw [List.nil_append, pieces_eq_splitOn, List.splitOn_eq_singleton ha, List.nil_append]
  | cons c cs ih =>
    obtain ⟨others, last, hpieces, happend⟩ := ih
    by_cases hc : c = separator
    · refine ⟨[] :: others, last, ?_, ?_⟩
      · rw [pieces, if_pos hc, hpieces, List.cons_append]
      · rw [List.cons_append, pieces, if_pos hc, happend, List.cons_append]
    · rw [List.cons_append, pieces_cons_ne hc, pieces_cons_ne hc, hpieces, happend]
      cases others with
      | nil => exact ⟨[], c :: last, rfl, rfl⟩
      | cons p ps => exact ⟨(c :: p) :: ps, last, rfl, rfl⟩

/-- Blanks around a text are blanks around its first and its last piece. -/
theorem map_trimChars_pieces (hs : isBlank separator = false) (cs : List Char) :
    (pieces separator (trimChars cs)).map trimChars = (pieces separator cs).map trimChars := by
  obtain ⟨before, after, hb, ha, hcs⟩ := exists_trimChars cs
  have hafter : (pieces separator (trimChars cs ++ after)).map trimChars =
      (pieces separator (trimChars cs)).map trimChars := by
    have hnot : separator ∉ after := fun h => by simp [ha _ h] at hs
    obtain ⟨others, last, hpieces, happend⟩ := pieces_append hnot (trimChars cs)
    rw [hpieces, happend]
    simp [trimChars_append ha]
  have hbefore : ∀ rest : List Char, (pieces separator (before ++ rest)).map trimChars =
      (pieces separator rest).map trimChars := by
    intro rest
    clear hcs hafter
    induction before with
    | nil => rfl
    | cons c before ih =>
      rw [List.forall_mem_cons] at hb
      have hc : c ≠ separator := by
        rintro rfl
        rw [hb.1] at hs
        cases hs
      obtain ⟨p, ps, hpieces⟩ :=
        List.exists_cons_of_ne_nil (pieces_ne_nil separator (before ++ rest))
      rw [← ih hb.2, List.cons_append, pieces_cons_ne hc, hpieces]
      simp [trimChars_cons hb.1]
  calc (pieces separator (trimChars cs)).map trimChars
      = (pieces separator (trimChars cs ++ after)).map trimChars := hafter.symm
    _ = (pieces separator (before ++ (trimChars cs ++ after))).map trimChars := (hbefore _).symm
    _ = (pieces separator cs).map trimChars := by rw [← hcs]

end

end Text

namespace Name

/-! ### The grammar -/

/-- A letter of ASCII, an underscore or a dollar sign. -/
def Letter (c : Char) : Prop := ('A' ≤ c ∧ c ≤ 'Z') ∨ ('a' ≤ c ∧ c ≤ 'z') ∨ c = '_' ∨ c = '$'

/-- One identifier with nothing around it. -/
def IsPart (cs : List Char) : Prop :=
  ∃ first rest, cs = first :: rest ∧ Letter first ∧
    ∀ c ∈ rest, Letter c ∨ ('0' ≤ c ∧ c ≤ '9')

/-- Identifiers with dots between them, blanks around each of them aside. -/
def IsDotted (segment : List Char) : Prop :=
  ∀ part ∈ segment.splitOn '.', IsPart (Text.trimChars part)

/-- One to three segments with colons between them.  The first two may have dots, the third is one
identifier. -/
def InGrammar (s : List Char) : Prop :=
  (s.splitOn ':').length ≤ 3 ∧ (∀ segment ∈ (s.splitOn ':').take 2, IsDotted segment) ∧
    ∀ segment ∈ (s.splitOn ':').drop 2, IsPart (Text.trimChars segment)

/-- The parts of a segment without the blanks around them. -/
def segmentForm (segment : List Char) : List Char :=
  ['.'].intercalate ((segment.splitOn '.').map Text.trimChars)

/-- The segments of a text without the blanks around their parts. -/
def normalForm (s : List Char) : List Char := [':'].intercalate ((s.splitOn ':').map segmentForm)

/-- A text of the grammar that holds no blanks to be left out. -/
def Normal (s : List Char) : Prop := InGrammar s ∧ normalForm s = s

/-! ### Identifiers -/

theorem isIdentifierStart_iff {c : Char} : isIdentifierStart c = true ↔ Letter c := by
  have hdef : isIdentifierStart c = (((decide ('A' ≤ c ∧ c ≤ 'Z') ||
      (decide ('a' ≤ c) && decide (c ≤ 'z'))) || c == '_') || c == '$') := rfl
  simp only [hdef, Letter, Bool.or_eq_true, Bool.and_eq_true, decide_eq_true_iff, beq_iff_eq,
    or_assoc]

theorem isIdentifierChar_iff {c : Char} :
    isIdentifierChar c = true ↔ Letter c ∨ ('0' ≤ c ∧ c ≤ '9') := by
  have hdigit : c.isDigit = (decide ('0' ≤ c) && decide (c ≤ '9')) := rfl
  rw [isIdentifierChar, hdigit]
  simp only [Bool.or_eq_true, Bool.and_eq_true, decide_eq_true_iff, isIdentifierStart_iff]

theorem isIdentifier_iff {cs : List Char} : isIdentifier cs = true ↔ IsPart cs := by
  cases cs with
  | nil => simp [isIdentifier, IsPart]
  | cons c cs =>
    rw [isIdentifier, Bool.and_eq_true, isIdentifierStart_iff, List.all_eq_true]
    simp only [isIdentifierChar_iff]
    constructor
    · rintro ⟨hc, hcs⟩
      exact ⟨c, cs, rfl, hc, hcs⟩
    · rintro ⟨first, rest, heq, hfirst, hrest⟩
      cases heq
      exact ⟨hfirst, hrest⟩

theorem ofChars?_eq_some_iff {cs : List Char} {i : Identifier} :
    Identifier.ofChars? cs = some i ↔ cs = i.text.toList := by
  constructor
  · intro h
    rw [Identifier.ofChars?] at h
    split_ifs at h
    cases h
    simp
  · rintro rfl
    exact i.ofChars?_text

theorem isPart_iff {cs : List Char} : IsPart cs ↔ ∃ i : Identifier, cs = i.text.toList := by
  rw [← isIdentifier_iff]
  constructor
  · intro h
    exact ⟨⟨String.ofList cs, by simpa using h⟩, by simp⟩
  · rintro ⟨i, rfl⟩
    exact i.legal

/-! ### Segments -/

theorem readPart_eq_ok_iff {segment part : List Char} {i : Identifier} :
    readPart segment part = .ok i ↔ Text.trimChars part = i.text.toList := by
  rw [← ofChars?_eq_some_iff, readPart]
  split <;> rename_i h <;> simp [h]

theorem mapM_readPart_eq_ok_iff {segment : List Char} {parts : List (List Char)}
    {is : List Identifier} :
    parts.mapM (readPart segment) = .ok is ↔
      parts.map Text.trimChars = is.map (·.text.toList) := by
  induction parts generalizing is with
  | nil =>
    show Except.ok [] = Except.ok is ↔ _
    cases is <;> simp
  | cons part parts ih =>
    simp only [List.mapM_cons, bind_eq_ok_iff, readPart_eq_ok_iff, ih]
    constructor
    · rintro ⟨i, hi, others, hothers, h⟩
      cases h
      rw [List.map_cons, List.map_cons, hi, hothers]
    · intro h
      cases is with
      | nil => cases h
      | cons i is =>
        obtain ⟨hi, his⟩ := List.cons_eq_cons.1 h
        exact ⟨i, hi, is, his, rfl⟩

/-- A path is read from a segment exactly if its identifiers are the parts of the segment, blanks
around these aside. -/
theorem readPath_eq_ok_iff {written : List Char} {p : Path} :
    readPath written = .ok p ↔
      (written.splitOn '.').map Text.trimChars = p.parts.map (·.text.toList) := by
  rw [← Text.pieces_eq_splitOn, ← Text.map_trimChars_pieces (by decide)]
  obtain ⟨part, parts, hpieces⟩ :=
    List.exists_cons_of_ne_nil (Text.pieces_ne_nil '.' (Text.trimChars written))
  rw [readPath, hpieces]
  by_cases hempty : Text.trimChars written = []
  · -- the one part of nothing is no identifier
    rw [hempty] at hpieces ⊢
    cases hpieces
    refine iff_of_false (by simp) fun h => p.first.toList_ne_nil ?_
    exact (List.cons_eq_cons.1 h).1.symm
  · simp only [List.isEmpty_iff, if_neg hempty, bind_eq_ok_iff, readPart_eq_ok_iff,
      mapM_readPart_eq_ok_iff]
    constructor
    · rintro ⟨first, hfirst, rest, hrest, h⟩
      cases h
      rw [List.map_cons, hfirst, hrest, Path.parts, List.map_cons]
    · intro h
      obtain ⟨hfirst, hrest⟩ := List.cons_eq_cons.1 h
      exact ⟨p.first, hfirst, p.rest, hrest, rfl⟩

theorem exists_map_text_iff {parts : List (List Char)} :
    (∃ is : List Identifier, parts = is.map (·.text.toList)) ↔ ∀ part ∈ parts, IsPart part := by
  induction parts with
  | nil => exact iff_of_true ⟨[], rfl⟩ fun _ h => by cases h
  | cons part parts ih =>
    rw [List.forall_mem_cons, isPart_iff, ← ih]
    constructor
    · rintro ⟨is, his⟩
      cases is with
      | nil => cases his
      | cons i is =>
        obtain ⟨hi, his⟩ := List.cons_eq_cons.1 his
        exact ⟨⟨i, hi⟩, is, his⟩
    · rintro ⟨⟨i, hi⟩, is, his⟩
      exact ⟨i :: is, by rw [List.map_cons, hi, his]⟩

theorem exists_readPath_iff {written : List Char} :
    (∃ p, readPath written = .ok p) ↔ IsDotted written := by
  have hdotted : IsDotted written ↔
      ∀ part ∈ (written.splitOn '.').map Text.trimChars, IsPart part := List.forall_mem_map.symm
  simp only [hdotted, ← exists_map_text_iff, readPath_eq_ok_iff]
  constructor
  · rintro ⟨p, hp⟩
    exact ⟨p.parts, hp⟩
  · rintro ⟨is, his⟩
    cases is with
    | nil => exact absurd (List.map_eq_nil_iff.1 his) (List.splitOnP_ne_nil _ _)
    | cons i is => exact ⟨⟨i, is⟩, his⟩

theorem readIdentifier_eq_ok_iff {written : List Char} {i : Identifier} :
    readIdentifier written = .ok i ↔ Text.trimChars written = i.text.toList := by
  rw [← ofChars?_eq_some_iff, readIdentifier]
  split <;> rename_i h <;> simp [h]

theorem readSocketPart_eq_ok_iff {written : List Char} {i : Identifier} :
    readSocketPart written = .ok i ↔ Text.trimChars written = i.text.toList := by
  rw [readSocketPart]
  by_cases hempty : Text.trimChars written = []
  · rw [hempty]
    exact iff_of_false (by simp) fun h => i.toList_ne_nil h.symm
  · rw [if_neg (by simpa using hempty), readIdentifier_eq_ok_iff]

theorem exists_readSocketPart_iff {written : List Char} :
    (∃ i, readSocketPart written = .ok i) ↔ IsPart (Text.trimChars written) := by
  simp only [readSocketPart_eq_ok_iff, isPart_iff]

/-! ### What is written for a segment -/

theorem segmentForm_of_readPath {written : List Char} {p : Path}
    (h : readPath written = .ok p) : segmentForm written = p.text.toList := by
  rw [segmentForm, readPath_eq_ok_iff.1 h, p.toList_text]

theorem segmentForm_of_readSocketPart {written : List Char} {i : Identifier}
    (h : readSocketPart written = .ok i) : segmentForm written = i.text.toList := by
  have htrim := readSocketPart_eq_ok_iff.1 h
  have hdot : '.' ∉ written := fun hmem =>
    i.not_mem_text (by decide) (htrim ▸ Text.mem_trimChars (by decide) hmem)
  rw [segmentForm, List.splitOn_eq_singleton hdot, List.map_singleton,
    List.intercalate_singleton, htrim]

/-! ### Texts -/

/-- The segments are read one by one as those of the name. -/
inductive ReadFrom : List (List Char) → Name → Prop
  | module {m : List Char} {p : Path} (hm : readPath m = .ok p) : ReadFrom [m] (.module p)
  | bean {m b : List Char} {p q : Path} (hm : readPath m = .ok p) (hb : readPath b = .ok q) :
    ReadFrom [m, b] (.bean p q)
  | socket {m b k : List Char} {p q : Path} {i : Identifier} (hm : readPath m = .ok p)
    (hb : readPath b = .ok q) (hk : readSocketPart k = .ok i) : ReadFrom [m, b, k] (.socket p q i)

theorem parse_eq_ok_iff {s : String} {n : Name} :
    parse s = .ok n ↔ ReadFrom (s.toList.splitOn ':') n := by
  rw [parse, Text.pieces_eq_splitOn]
  constructor
  · intro h
    split at h <;> rename_i hsplit
    · obtain ⟨p, hm, h⟩ := bind_eq_ok_iff.1 h
      cases h
      exact hsplit ▸ .module hm
    · obtain ⟨p, hm, h⟩ := bind_eq_ok_iff.1 h
      obtain ⟨q, hb, h⟩ := bind_eq_ok_iff.1 h
      cases h
      exact hsplit ▸ .bean hm hb
    · obtain ⟨p, hm, h⟩ := bind_eq_ok_iff.1 h
      obtain ⟨q, hb, h⟩ := bind_eq_ok_iff.1 h
      obtain ⟨i, hk, h⟩ := bind_eq_ok_iff.1 h
      cases h
      exact hsplit ▸ .socket hm hb hk
    · cases h
  · intro h
    generalize s.toList.splitOn ':' = segments at h
    cases h with
    | module hm =>
      dsimp only
      rw [hm]
      rfl
    | bean hm hb =>
      dsimp only
      rw [hm, hb]
      rfl
    | socket hm hb hk =>
      dsimp only
      rw [hm, hb, hk]
      rfl

theorem exists_parse_iff {s : String} : (∃ n, parse s = .ok n) ↔ InGrammar s.toList := by
  simp only [parse_eq_ok_iff, InGrammar]
  generalize hsplit : s.toList.splitOn ':' = segments
  constructor
  · rintro ⟨n, h⟩
    cases h with
    | module hm => simp [exists_readPath_iff.1 ⟨_, hm⟩]
    | bean hm hb => simp [exists_readPath_iff.1 ⟨_, hm⟩, exists_readPath_iff.1 ⟨_, hb⟩]
    | socket hm hb hk =>
      simp [exists_readPath_iff.1 ⟨_, hm⟩, exists_readPath_iff.1 ⟨_, hb⟩,
        exists_readSocketPart_iff.1 ⟨_, hk⟩]
  · rintro ⟨hlength, hdotted, hpart⟩
    rcases segments with _ | ⟨m, _ | ⟨b, _ | ⟨k, _ | ⟨u, us⟩⟩⟩⟩
    · exact absurd hsplit (List.splitOnP_ne_nil _ _)
    · rw [List.take, List.forall_mem_cons] at hdotted
      obtain ⟨p, hm⟩ := exists_readPath_iff.2 hdotted.1
      exact ⟨_, .module hm⟩
    · simp only [List.take, List.forall_mem_cons] at hdotted
      obtain ⟨p, hm⟩ := exists_readPath_iff.2 hdotted.1
      obtain ⟨q, hb⟩ := exists_readPath_iff.2 hdotted.2.1
      exact ⟨_, .bean hm hb⟩
    · simp only [List.take, List.forall_mem_cons] at hdotted
      simp only [List.drop, List.forall_mem_cons] at hpart
      obtain ⟨p, hm⟩ := exists_readPath_iff.2 hdotted.1
      obtain ⟨q, hb⟩ := exists_readPath_iff.2 hdotted.2.1
      obtain ⟨i, hk⟩ := exists_readSocketPart_iff.2 hpart.1
      exact ⟨_, .socket hm hb hk⟩
    · simp only [List.length_cons] at hlength
      omega

theorem splitOn_text (n : Name) : n.text.toList.splitOn ':' = n.segments.map String.toList := by
  rw [text_eq_intercalate, String.toList_intercalate]
  refine List.splitOn_intercalate ':' (fun l hl => ?_) (by cases n <;> simp [segments])
  obtain ⟨t, ht, rfl⟩ := List.mem_map.1 hl
  exact n.not_mem_segments (by decide) (by decide) t ht

theorem ReadFrom.text {segments : List (List Char)} {n : Name} (h : ReadFrom segments n) :
    n.text.toList = [':'].intercalate (segments.map segmentForm) := by
  rw [text_eq_intercalate, String.toList_intercalate]
  cases h with
  | module hm => simp [Name.segments, segmentForm_of_readPath hm]
  | bean hm hb => simp [Name.segments, segmentForm_of_readPath hm, segmentForm_of_readPath hb]
  | socket hm hb hk =>
    simp [Name.segments, segmentForm_of_readPath hm, segmentForm_of_readPath hb,
      segmentForm_of_readSocketPart hk]

/-- The name that a text is read as is written as the text without its blanks. -/
theorem text_of_parse {s : String} {n : Name} (h : parse s = .ok n) :
    n.text.toList = normalForm s.toList :=
  (parse_eq_ok_iff.1 h).text

theorem normal_text (n : Name) : Normal n.text.toList :=
  ⟨exists_parse_iff.1 ⟨n, n.parse_text⟩, (text_of_parse n.parse_text).symm⟩

end Name

end Wiring
