import Mathlib.Data.List.Basic
import Wiring.Json.Document

/-! Reading JSON texts as this library writes them.  What is written for a value is read as the tree
of that value, whatever strings it holds: escapes are undone one by one, the space between tokens is
passed over, and every bracket finds the one that closes it. -/

namespace Wiring.Json

/-! ### Strings -/

theorem hexValue?_control :
    ∀ n < 32, hexValue? '0' '0' (hexDigit (n / 16)) (hexDigit (n % 16)) = some n := by
  decide

theorem readEscape_control {c : Char} (hc : c.toNat < 32) (cs : List Char) :
    ∃ shorter, readEscape ('u' :: '0' :: '0' :: hexDigit (c.toNat / 16) ::
      hexDigit (c.toNat % 16) :: cs) = .ok ⟨some c, cs, shorter⟩ := by
  have hlow : isLowSurrogate c.toNat = false := by
    simp [isLowSurrogate]
    omega
  have hhigh : isHighSurrogate c.toNat = false := by
    simp [isHighSurrogate]
    omega
  rw [readEscape]
  simp only [hexValue?_control _ hc, hlow, hhigh, Bool.false_eq_true, if_false, Bool.not_false,
    if_true, Char.ofNat_toNat]
  refine ⟨?_, trivial⟩
  simp
  omega

theorem readString_escape {read written cs : List Char} {c : Char}
    (h : ∃ shorter, readEscape (written ++ cs) = .ok ⟨some c, cs, shorter⟩) :
    readString (some read) ('\\' :: written ++ cs) = readString (some (c :: read)) cs := by
  obtain ⟨shorter, hescape⟩ := h
  rw [List.cons_append, readString, hescape]
  rfl

/-- What is written for a character is read as that character. -/
theorem readString_escapeChar (read : List Char) (c : Char) (cs : List Char) :
    readString (some read) (escapeChar c ++ cs) = readString (some (c :: read)) cs := by
  unfold escapeChar
  simp only [beq_iff_eq]
  split_ifs with hquote hbackslash hb hf hn hr ht hcontrol
  · rw [hquote]
    exact readString_escape ⟨_, rfl⟩
  · rw [hbackslash]
    exact readString_escape ⟨_, rfl⟩
  · rw [hb]
    exact readString_escape ⟨_, rfl⟩
  · rw [hf]
    exact readString_escape ⟨_, rfl⟩
  · rw [hn]
    exact readString_escape ⟨_, rfl⟩
  · rw [hr]
    exact readString_escape ⟨_, rfl⟩
  · rw [ht]
    exact readString_escape ⟨_, rfl⟩
  · exact readString_escape (readEscape_control hcontrol cs)
  · rw [List.singleton_append, readString.eq_5 _ _ _ hquote hbackslash, if_neg hcontrol]
    rfl

theorem readString_flatMap (read s rest : List Char) :
    readString (some read) (s.flatMap escapeChar ++ '"' :: rest) =
      (.string (String.ofList (read.reverse ++ s)), rest) := by
  induction s generalizing read with
  | nil => rw [List.flatMap_nil, List.nil_append, readString, List.append_nil]
  | cons c s ih =>
    rw [List.flatMap_cons, List.append_assoc, readString_escapeChar, ih, List.reverse_cons,
      List.append_assoc]
    rfl

/-! ### Tokens -/

theorem tokens_of_isSpace {c : Char} (hc : isSpace c = true) (rest : List Char) :
    tokens (c :: rest) = tokens rest := by
  rw [tokens, if_pos hc]

theorem tokens_of_readToken {c : Char} {rest after : List Char} {token : Token}
    (hc : isSpace c = false) (h : readToken c rest = (token, after)) :
    tokens (c :: rest) = token :: tokens after := by
  rw [tokens, if_neg (by simp [hc])]
  simp only [h]

theorem tokens_quoted (s : String) (rest : List Char) :
    tokens ((quoted s).toList ++ rest) = .string s :: tokens rest := by
  have hchars : (quoted s).toList ++ rest =
      '"' :: (s.toList.flatMap escapeChar ++ '"' :: rest) := by
    simp [quoted]
  rw [hchars]
  refine tokens_of_readToken (by decide) ?_
  show readString (some []) _ = _
  rw [readString_flatMap]
  simp

theorem tokens_newline (depth : Nat) (rest : List Char) :
    tokens ((newline depth).toList ++ rest) = tokens rest := by
  have hblanks : ∀ n, tokens (List.replicate n ' ' ++ rest) = tokens rest := by
    intro n
    induction n with
    | zero => rfl
    | succ n ih => rw [List.replicate_succ, List.cons_append, tokens_of_isSpace (by decide), ih]
  have hchars : (newline depth).toList ++ rest =
      '\n' :: (List.replicate (2 * depth) ' ' ++ rest) := by
    simp [newline]
  rw [hchars, tokens_of_isSpace (by decide), hblanks]

section

variable (rest : List Char)

theorem tokens_beginArray : tokens ('[' :: rest) = .beginArray :: tokens rest :=
  tokens_of_readToken (by decide) rfl

theorem tokens_endArray : tokens (']' :: rest) = .endArray :: tokens rest :=
  tokens_of_readToken (by decide) rfl

theorem tokens_beginObject : tokens ('\x7b' :: rest) = .beginObject :: tokens rest :=
  tokens_of_readToken (by decide) rfl

theorem tokens_endObject : tokens ('\x7d' :: rest) = .endObject :: tokens rest :=
  tokens_of_readToken (by decide) rfl

theorem tokens_comma : tokens (',' :: rest) = .comma :: tokens rest :=
  tokens_of_readToken (by decide) rfl

theorem tokens_colon : tokens (':' :: ' ' :: rest) = .colon :: tokens rest := by
  have hcolon : tokens (':' :: ' ' :: rest) = .colon :: tokens (' ' :: rest) :=
    tokens_of_readToken (by decide) rfl
  rw [hcolon, tokens_of_isSpace (by decide)]

end

/-! ### Values -/

/-- Where a value ends in what is written: at a comma, at the end of a line or with the text. -/
def Ends (rest : List Char) : Prop := ∀ c ∈ rest.head?, c = ',' ∨ c = '\n'

mutual

/-- The integers of the value are read as they are written. -/
def Legible : Json → Prop
  | .integer n =>
    ∀ rest, Ends rest → tokens ((toString n).toList ++ rest) = .integer n :: tokens rest
  | .array items => LegibleItems items
  | .object fields => LegibleFields fields
  | .null | .bool _ | .string _ => True

def LegibleItems : List Json → Prop
  | [] => True
  | item :: items => item.Legible ∧ LegibleItems items

def LegibleFields : List (String × Json) → Prop
  | [] => True
  | (_, value) :: fields => value.Legible ∧ LegibleFields fields

end

theorem ends_newline (depth : Nat) (rest : List Char) : Ends ((newline depth).toList ++ rest) := by
  intro c hc
  have hhead : ((newline depth).toList ++ rest).head? = some '\n' := by simp [newline]
  rw [hhead] at hc
  exact .inr (Option.some.inj hc).symm

theorem ends_comma (rest : List Char) : Ends (',' :: rest) := by
  intro c hc
  exact .inl (Option.some.inj hc).symm

/-- Items but the first, with what closes the array, end the item before them. -/
theorem ends_prettyItems (depth : Nat) (items : List Json) {rest : List Char} (h : Ends rest) :
    Ends ((prettyItems depth items).toList ++ rest) := by
  cases items with
  | nil => simpa [prettyItems] using h
  | cons item items =>
    rw [prettyItems]
    simpa using ends_comma _

theorem ends_prettyFields (depth : Nat) (fields : List (String × Json)) {rest : List Char}
    (h : Ends rest) : Ends ((prettyFields depth fields).toList ++ rest) := by
  cases fields with
  | nil => simpa [prettyFields] using h
  | cons field fields =>
    rw [prettyFields]
    simpa using ends_comma _

theorem tokens_null (rest : List Char) : tokens ("null".toList ++ rest) = .null :: tokens rest :=
  tokens_of_readToken (by decide) rfl

theorem tokens_bool (b : Bool) (depth : Nat) (rest : List Char) :
    tokens (((bool b).prettyAt depth).toList ++ rest) = .bool b :: tokens rest := by
  cases b with
  | true =>
    rw [prettyAt]
    exact tokens_of_readToken (c := 't') (by decide) rfl
  | false =>
    rw [prettyAt]
    exact tokens_of_readToken (c := 'f') (by decide) rfl

/-- The token may be the first of a value. -/
def Token.Begins (token : Token) : Prop :=
  token.scalar?.isSome = true ∨ token = .beginArray ∨ token = .beginObject

theorem exists_first {j : Json} (hj : j.Legible) (depth : Nat) {rest : List Char}
    (hrest : Ends rest) : ∃ token ts, token.Begins ∧
      tokens ((j.prettyAt depth).toList ++ rest) = token :: ts := by
  cases j with
  | null => exact ⟨_, _, .inl rfl, tokens_null rest⟩
  | bool b => exact ⟨_, _, .inl rfl, tokens_bool b depth rest⟩
  | integer n => exact ⟨_, _, .inl rfl, hj rest hrest⟩
  | string s => exact ⟨_, _, .inl rfl, tokens_quoted s rest⟩
  | array items =>
    refine ⟨.beginArray, ?_⟩
    cases items with
    | nil =>
      rw [prettyAt]
      exact ⟨_, .inr (.inl rfl), tokens_beginArray _⟩
    | cons item items =>
      simp only [prettyAt, String.toList_append, List.append_assoc]
      exact ⟨_, .inr (.inl rfl), tokens_beginArray _⟩
  | object fields =>
    refine ⟨.beginObject, ?_⟩
    cases fields with
    | nil =>
      rw [prettyAt]
      exact ⟨_, .inr (.inr rfl), tokens_beginObject _⟩
    | cons field fields =>
      simp only [prettyAt, String.toList_append, List.append_assoc]
      exact ⟨_, .inr (.inr rfl), tokens_beginObject _⟩

/-- The first token of a value is read in the same way at the beginning of an array. -/
theorem run_firstItem {token : Token} (h : token.Begins) (frames : List Frame) (ts : List Token) :
    Place.run frames .firstItem (token :: ts) =
      Place.run (.array [] :: frames) .value (token :: ts) := by
  rw [Place.run, Place.run]
  rcases h with h | rfl | rfl
  · cases token with
    | null => rfl
    | bool b => rfl
    | integer n => rfl
    | real x => rfl
    | string s => rfl
    | spoiled quoted => rfl
    | beginArray => rfl
    | beginObject => rfl
    | _ => cases h
  · rfl
  · rfl

theorem run_scalar {token : Token} {t : Tree} (h : token.scalar? = some t) (frames : List Frame)
    (ts : List Token) : Place.run frames .value (token :: ts) = Place.run frames (.after t) ts := by
  have hnext : Place.next token frames .value = .ok (.after t, frames) := by
    simp only [Place.next, Place.next.value, h]
  rw [Place.run, hnext]

mutual

/-- What is written for a value is read as its tree. -/
theorem run_prettyAt : ∀ (j : Json), j.Legible → ∀ (depth : Nat) (frames : List Frame)
    (rest : List Char), Ends rest →
    Place.run frames .value (tokens ((j.prettyAt depth).toList ++ rest)) =
      Place.run frames (.after j.toTree) (tokens rest)
  | .null, _, depth, frames, rest, _ => by
    show Place.run frames .value (tokens ("null".toList ++ rest)) = _
    rw [tokens_null, run_scalar rfl, toTree]
  | .bool b, _, depth, frames, rest, _ => by
    rw [tokens_bool, run_scalar rfl, toTree]
  | .integer n, hj, depth, frames, rest, hrest => by
    rw [prettyAt, hj rest hrest, run_scalar rfl, toTree]
  | .string s, _, depth, frames, rest, _ => by
    rw [prettyAt, tokens_quoted, run_scalar rfl, toTree]
  | .array [], _, depth, frames, rest, _ => by
    have hchars : ((array []).prettyAt depth).toList ++ rest = '[' :: ']' :: rest := by
      rw [prettyAt]
      rfl
    rw [hchars, tokens_beginArray, tokens_endArray]
    rfl
  | .array (item :: items), hj, depth, frames, rest, _ => by
    obtain ⟨hitem, hitems⟩ := hj
    have hchars : ((array (item :: items)).prettyAt depth).toList ++ rest =
        '[' :: ((newline (depth + 1)).toList ++ ((item.prettyAt (depth + 1)).toList ++
          ((prettyItems (depth + 1) items).toList ++
            ((newline depth).toList ++ ']' :: rest)))) := by
      simp [prettyAt]
    have hends := ends_prettyItems (depth + 1) items (ends_newline depth (']' :: rest))
    obtain ⟨token, ts, hbegins, hfirst⟩ := exists_first hitem (depth + 1) hends
    calc
      _ = Place.run frames .firstItem (token :: ts) := by
        rw [hchars, tokens_beginArray, tokens_newline, hfirst]
        rfl
      _ = Place.run (.array [] :: frames) .value (token :: ts) := run_firstItem hbegins frames ts
      _ = Place.run (.array [] :: frames) (.after item.toTree) _ := by
        rw [← hfirst]
        exact run_prettyAt item hitem (depth + 1) _ _ hends
      _ = _ := run_prettyItems items hitems (depth + 1) depth frames [] item.toTree rest
  | .object [], _, depth, frames, rest, _ => by
    have hchars : ((object []).prettyAt depth).toList ++ rest = '\x7b' :: '\x7d' :: rest := by
      rw [prettyAt]
      rfl
    rw [hchars, tokens_beginObject, tokens_endObject]
    rfl
  | .object ((key, value) :: fields), hj, depth, frames, rest, _ => by
    obtain ⟨hvalue, hfields⟩ := hj
    have hchars : ((object ((key, value) :: fields)).prettyAt depth).toList ++ rest =
        '\x7b' :: ((newline (depth + 1)).toList ++ ((quoted key).toList ++ (':' :: ' ' ::
          ((value.prettyAt (depth + 1)).toList ++ ((prettyFields (depth + 1) fields).toList ++
            ((newline depth).toList ++ '\x7d' :: rest)))))) := by
      simp [prettyAt]
    have hends := ends_prettyFields (depth + 1) fields (ends_newline depth ('\x7d' :: rest))
    calc
      _ = Place.run (.object [] (some key) :: frames) .value
          (tokens ((value.prettyAt (depth + 1)).toList ++ _)) := by
        rw [hchars, tokens_beginObject, tokens_newline, tokens_quoted, tokens_colon]
        rfl
      _ = Place.run (.object [] (some key) :: frames) (.after value.toTree) _ :=
        run_prettyAt value hvalue (depth + 1) _ _ hends
      _ = _ :=
        run_prettyFields fields hfields (depth + 1) depth frames [] (some key) value.toTree rest

/-- After an item, the items that follow are read up to the end of the array. -/
theorem run_prettyItems : ∀ (items : List Json), LegibleItems items → ∀ (depth outer : Nat)
    (frames : List Frame) (before : List Tree) (t : Tree) (rest : List Char),
    Place.run (.array before :: frames) (.after t)
        (tokens ((prettyItems depth items).toList ++ ((newline outer).toList ++ ']' :: rest))) =
      Place.run frames (.after (.array (before.reverse ++ t :: itemTrees items) none)) (tokens rest)
  | [], _, depth, outer, frames, before, t, rest => by
    show Place.run _ _ (tokens ((newline outer).toList ++ ']' :: rest)) = _
    rw [tokens_newline, tokens_endArray, itemTrees, ← List.reverse_cons]
    rfl
  | item :: items, hitems, depth, outer, frames, before, t, rest => by
    obtain ⟨hitem, hitems⟩ := hitems
    have hends := ends_prettyItems depth items (ends_newline outer (']' :: rest))
    have hchars : (prettyItems depth (item :: items)).toList ++
        ((newline outer).toList ++ ']' :: rest) = ',' :: ((newline depth).toList ++
          ((item.prettyAt depth).toList ++ ((prettyItems depth items).toList ++
            ((newline outer).toList ++ ']' :: rest)))) := by
      simp [prettyItems]
    calc
      _ = Place.run (.array (t :: before) :: frames) .value
          (tokens ((item.prettyAt depth).toList ++ _)) := by
        rw [hchars, tokens_comma, tokens_newline]
        rfl
      _ = Place.run (.array (t :: before) :: frames) (.after item.toTree) _ :=
        run_prettyAt item hitem depth _ _ hends
      _ = _ := run_prettyItems items hitems depth outer frames (t :: before) item.toTree rest
      _ = _ := by rw [itemTrees, List.reverse_cons, List.append_assoc, List.singleton_append]

/-- After a field, the fields that follow are read up to the end of the object. -/
theorem run_prettyFields : ∀ (fields : List (String × Json)), LegibleFields fields →
    ∀ (depth outer : Nat) (frames : List Frame) (before : List Field) (key : Option String)
      (t : Tree) (rest : List Char),
    Place.run (.object before key :: frames) (.after t)
        (tokens ((prettyFields depth fields).toList ++
          ((newline outer).toList ++ '\x7d' :: rest))) =
      Place.run frames (.after (.object (before.reverse ++ (key, t) :: fieldTrees fields) none))
        (tokens rest)
  | [], _, depth, outer, frames, before, key, t, rest => by
    show Place.run _ _ (tokens ((newline outer).toList ++ '\x7d' :: rest)) = _
    rw [tokens_newline, tokens_endObject, fieldTrees, ← List.reverse_cons]
    rfl
  | (name, value) :: fields, hfields, depth, outer, frames, before, key, t, rest => by
    obtain ⟨hvalue, hfields⟩ := hfields
    have hends := ends_prettyFields depth fields (ends_newline outer ('\x7d' :: rest))
    have hchars : (prettyFields depth ((name, value) :: fields)).toList ++
        ((newline outer).toList ++ '\x7d' :: rest) = ',' :: ((newline depth).toList ++
          ((quoted name).toList ++ (':' :: ' ' :: ((value.prettyAt depth).toList ++
            ((prettyFields depth fields).toList ++
              ((newline outer).toList ++ '\x7d' :: rest)))))) := by
      simp [prettyFields]
    calc
      _ = Place.run (.object ((key, t) :: before) (some name) :: frames) .value
          (tokens ((value.prettyAt depth).toList ++ _)) := by
        rw [hchars, tokens_comma, tokens_newline, tokens_quoted, tokens_colon]
        rfl
      _ = Place.run (.object ((key, t) :: before) (some name) :: frames) (.after value.toTree) _ :=
        run_prettyAt value hvalue depth _ _ hends
      _ = _ := run_prettyFields fields hfields depth outer frames ((key, t) :: before) (some name)
        value.toTree rest
      _ = _ := by rw [fieldTrees, List.reverse_cons, List.append_assoc, List.singleton_append]

end

theorem read_pretty {j : Json} (hj : j.Legible) : Document.read j.pretty = ⟨j.toTree, none⟩ := by
  have hends : Ends [] := fun c hc => by cases hc
  have hrun := run_prettyAt j hj 0 [] [] hends
  have hnil : tokens [] = [] := by rw [tokens]
  rw [List.append_nil, hnil] at hrun
  exact hrun

end Wiring.Json
