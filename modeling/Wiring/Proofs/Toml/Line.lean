import Wiring.Proofs.Name.Text
import Wiring.Proofs.Toml.Quoted
import Wiring.Toml.Table

/-! Lines of TOML documents as this library writes them: headers of tables, and entries with a bare
key and a value on one line.  Each is read as what was written, whatever follows it.  What it writes
has no carriage return and no byte order mark, which the reader would take away. -/

namespace Wiring.Toml

/-! ### Keys -/

/-- A part of a key that needs no quotation marks. -/
def IsBare (key : String) : Prop := key.toList ≠ [] ∧ ∀ c ∈ key.toList, isBareKeyChar c = true

instance (key : String) : Decidable (IsBare key) :=
  decidable_of_iff ((!key.toList.isEmpty && key.toList.all isBareKeyChar) = true) (by simp [IsBare])

theorem ne_of_isBareKeyChar {c d : Char} (hc : isBareKeyChar c = true)
    (hd : isBareKeyChar d = false) : c ≠ d := by
  rintro rfl
  rw [hc] at hd
  cases hd

theorem skipBlanks_cons {c : Char} (hc : isBareKeyChar c = true) (cs : List Char) :
    skipBlanks (c :: cs) = c :: cs := by
  have hspace : c ≠ ' ' := ne_of_isBareKeyChar hc (by decide)
  have htab : c ≠ '\t' := ne_of_isBareKeyChar hc (by decide)
  rw [skipBlanks, List.dropWhile_cons_of_neg (by simp [isBlank, hspace, htab])]

/-- The text goes on with something that is no part of a bare key. -/
def Stops (rest : List Char) : Prop := ∀ c, rest.head? = some c → isBareKeyChar c = false

theorem readKeyPart_bare {key : String} (hkey : IsBare key) {rest : List Char}
    (hrest : Stops rest) : readKeyPart (key.toList ++ rest) = some (key, rest) := by
  obtain ⟨hne, hbare⟩ := hkey
  have htake : (key.toList ++ rest).takeWhile isBareKeyChar = key.toList := by
    rw [List.takeWhile_append_of_pos hbare]
    cases rest with
    | nil => simp
    | cons c rest => simp [hrest c rfl]
  have hdrop : (key.toList ++ rest).dropWhile isBareKeyChar = rest := by
    rw [List.dropWhile_append_of_pos hbare]
    cases rest with
    | nil => rfl
    | cons c rest => rw [List.dropWhile_cons_of_neg (by simp [hrest c rfl])]
  obtain ⟨c, cs, hcs⟩ := List.exists_cons_of_ne_nil hne
  have hc : isBareKeyChar c = true := hbare c (hcs ▸ List.mem_cons_self)
  have hquote : c ≠ '"' := ne_of_isBareKeyChar hc (by decide)
  have htick : c ≠ '\'' := ne_of_isBareKeyChar hc (by decide)
  have hfirst : ∀ d more, d ≠ c → key.toList ++ rest = d :: more → False := by
    intro d more hd heq
    rw [hcs] at heq
    exact hd (List.cons.inj heq).1.symm
  rw [readKeyPart.eq_3 _ (fun more => hfirst _ more hquote.symm)
    (fun more => hfirst _ more htick.symm), htake, hdrop, if_neg (by simpa using hne),
    String.ofList_toList]

/-- A key is read up to what is no part of it. -/
theorem readKeyParts_path {path : List String} (hpath : path ≠ []) (hbare : ∀ k ∈ path, IsBare k)
    {rest : List Char} (hrest : Stops rest) (hdot : (skipBlanks rest).head? ≠ some '.') {fuel : Nat}
    (hfuel : (".".intercalate path).toList.length < fuel) :
    readKeyParts fuel ((".".intercalate path).toList ++ rest) = some (path, skipBlanks rest) := by
  induction path generalizing fuel with
  | nil => exact absurd rfl hpath
  | cons key path ih =>
    obtain ⟨hkey, hbare⟩ := List.forall_mem_cons.1 hbare
    obtain ⟨fuel, rfl⟩ : ∃ n, fuel = n + 1 := ⟨fuel - 1, by omega⟩
    obtain ⟨c, cs, hcs⟩ := List.exists_cons_of_ne_nil hkey.1
    have hc : isBareKeyChar c = true := hkey.2 c (hcs ▸ List.mem_cons_self)
    have hskip : ∀ more, skipBlanks (key.toList ++ more) = key.toList ++ more := by
      intro more
      rw [hcs]
      exact skipBlanks_cons hc _
    cases path with
    | nil =>
      rw [String.intercalate_singleton, readKeyParts, hskip, readKeyPart_bare hkey hrest]
      simp only [Option.bind_eq_bind, Option.bind_some]
      split
      · rename_i more heq
        rw [heq] at hdot
        exact absurd rfl hdot
      · rfl
    | cons next path =>
      have hchars : (".".intercalate (key :: next :: path)).toList ++ rest =
          key.toList ++ ('.' :: ((".".intercalate (next :: path)).toList ++ rest)) := by
        simp [String.intercalate_cons_cons]
      have hstops : Stops ('.' :: ((".".intercalate (next :: path)).toList ++ rest)) := by
        rintro d ⟨⟩
        decide
      have hshorter : (".".intercalate (next :: path)).toList.length < fuel := by
        rw [String.intercalate_cons_cons, String.toList_append, String.toList_append,
          List.length_append, List.length_append] at hfuel
        have hdotLength : ".".toList.length = 1 := rfl
        omega
      have hnext := ih (by simp) hbare hshorter
      have hblank : skipBlanks ('.' :: ((".".intercalate (next :: path)).toList ++ rest)) =
          '.' :: ((".".intercalate (next :: path)).toList ++ rest) := rfl
      rw [hchars, readKeyParts, hskip, readKeyPart_bare hkey hstops]
      simp only [Option.bind_eq_bind, Option.bind_some, hblank, hnext]
      rfl

theorem exists_intercalate {path : List String} (hpath : path ≠ [])
    (hbare : ∀ k ∈ path, IsBare k) :
    ∃ c more, isBareKeyChar c = true ∧ (".".intercalate path).toList = c :: more := by
  obtain ⟨key, path, rfl⟩ := List.exists_cons_of_ne_nil hpath
  obtain ⟨hne, hkey⟩ := hbare key List.mem_cons_self
  obtain ⟨c, cs, hcs⟩ := List.exists_cons_of_ne_nil hne
  have hc : isBareKeyChar c = true := hkey c (hcs ▸ List.mem_cons_self)
  cases path with
  | nil => exact ⟨c, cs, hc, by rw [String.intercalate_singleton, hcs]⟩
  | cons next path =>
    refine ⟨c, cs ++ '.' :: (".".intercalate (next :: path)).toList, hc, ?_⟩
    simp [String.intercalate_cons_cons, hcs]

theorem readKey_path {path : List String} (hpath : path ≠ []) (hbare : ∀ k ∈ path, IsBare k)
    {rest : List Char} (hrest : Stops rest) (hdot : (skipBlanks rest).head? ≠ some '.') :
    readKey ((".".intercalate path).toList ++ rest) = some (path, skipBlanks rest) :=
  readKeyParts_path hpath hbare hrest hdot (by rw [List.length_append]; omega)

/-! ### Values -/

theorem exists_quotedChars (cs : List Char) :
    ∃ mark body, (mark = '"' ∨ mark = '\'') ∧ quotedChars cs = mark :: body := by
  rcases quotedChars_cases cs with h | h | ⟨h, _⟩ | ⟨h, _⟩
  · exact ⟨'"', _, .inl rfl, h⟩
  · exact ⟨'"', _, .inl rfl, h⟩
  · exact ⟨'\'', _, .inr rfl, h⟩
  · exact ⟨'\'', _, .inr rfl, h⟩

/-- The text is read as a value that ends with the line, whatever follows the line. -/
def Holds (text : String) (value : Value) : Prop :=
  ∀ rest, skipBlanks (text.toList ++ '\n' :: rest) = text.toList ++ '\n' :: rest ∧
    readValue maxLevels (text.toList ++ '\n' :: rest) = some (value, '\n' :: rest)

theorem holds_quoted (s : String) : Holds (quoted s) (.string s) := by
  intro rest
  obtain ⟨mark, body, hmark, hchars⟩ := exists_quotedChars s.toList
  have htext : (quoted s).toList = mark :: body := by rw [quoted, String.toList_ofList, hchars]
  have hread : readString (mark :: body ++ '\n' :: rest) = some (s, '\n' :: rest) := by
    rw [← hchars, readString_quotedChars (by simp) (by simp), String.ofList_toList]
  rw [htext]
  rcases hmark with rfl | rfl
  · refine ⟨rfl, ?_⟩
    rw [List.cons_append, readValue, ← List.cons_append, hread]
    rfl
  · refine ⟨rfl, ?_⟩
    rw [List.cons_append, readValue, ← List.cons_append, hread]
    rfl

theorem holds_true : Holds "true" (.bool true) := fun _ => ⟨rfl, rfl⟩

theorem holds_false : Holds "false" (.bool false) := fun _ => ⟨rfl, rfl⟩

/-! ### Lines -/

/-- The text is read as these lines. -/
def ReadsAs (text : String) (lines : List Line) : Prop :=
  ∀ fuel, text.toList.length < fuel → readLines fuel text.toList = some lines

namespace ReadsAs

theorem nil : ReadsAs "" [] := by
  intro fuel _
  cases fuel <;> rfl

variable {rest : String} {lines : List Line}

theorem line {written : String} {line? : Option Line}
    (hline : readLine (written.toList ++ '\n' :: rest.toList) = some (line?, '\n' :: rest.toList))
    (h : ReadsAs rest lines) : ReadsAs (written ++ "\n" ++ rest) (line?.toList ++ lines) := by
  intro fuel hfuel
  have hchars : (written ++ "\n" ++ rest).toList = written.toList ++ '\n' :: rest.toList := by
    simp
  rw [hchars] at hfuel ⊢
  obtain ⟨fuel, rfl⟩ : ∃ n, fuel = n + 1 := ⟨fuel - 1, by omega⟩
  rw [List.length_append, List.length_cons] at hfuel
  have hrest : readLines fuel rest.toList = some lines := h fuel (by omega)
  rw [readLines.eq_3 _ _ (by simp), hline]
  show (do
    let lines ← readLines fuel rest.toList
    return line?.toList ++ lines) = _
  rw [hrest]
  rfl

theorem blank (h : ReadsAs rest lines) : ReadsAs ("\n" ++ rest) lines := by
  have hline : readLine ("".toList ++ '\n' :: rest.toList) = some (none, '\n' :: rest.toList) := rfl
  have hread := line hline h
  rwa [String.empty_append] at hread

theorem header {path : List String} (hpath : path ≠ []) (hbare : ∀ k ∈ path, IsBare k)
    (h : ReadsAs rest lines) :
    ReadsAs ("[" ++ ".".intercalate path ++ "]" ++ "\n" ++ rest) (.table path :: lines) := by
  have hstops : Stops (']' :: '\n' :: rest.toList) := by
    rintro d ⟨⟩
    decide
  have hkey := readKey_path hpath hbare hstops nofun
  obtain ⟨c, more, hc, hfirst⟩ := exists_intercalate hpath hbare
  have hbracket : c ≠ '[' := ne_of_isBareKeyChar hc (by decide)
  have hchars : ("[" ++ ".".intercalate path ++ "]").toList ++ '\n' :: rest.toList =
      '[' :: ((".".intercalate path).toList ++ ']' :: '\n' :: rest.toList) := by
    simp
  have hline : readLine (("[" ++ ".".intercalate path ++ "]").toList ++ '\n' :: rest.toList) =
      some (some (.table path), '\n' :: rest.toList) := by
    have hskip : ∀ cs, skipBlanks ('[' :: cs) = '[' :: cs := fun _ => rfl
    rw [hchars, readLine, hskip]
    split
    · simp_all
    · simp_all
    · simp_all
    · simp_all
    · rename_i heq
      cases heq
      rw [hkey]
      rfl
    · simp_all
  exact line hline h

theorem entry {key text : String} {value : Value} (hkey : IsBare key) (htext : Holds text value)
    (h : ReadsAs rest lines) :
    ReadsAs (key ++ " = " ++ text ++ "\n" ++ rest) (.entry [key] value :: lines) := by
  let more := text.toList ++ '\n' :: rest.toList
  have hread : readKey (key.toList ++ ' ' :: '=' :: ' ' :: more) =
      some ([key], '=' :: ' ' :: more) := by
    have hstops : Stops (' ' :: '=' :: ' ' :: more) := by
      rintro d ⟨⟩
      decide
    have hbare : ∀ k ∈ [key], IsBare k := by simpa using hkey
    have hpath := readKey_path (List.cons_ne_nil key []) hbare hstops nofun
    rwa [String.intercalate_singleton] at hpath
  have hentry : readEntry (readValue maxLevels) (key.toList ++ ' ' :: '=' :: ' ' :: more) =
      some (([key], value), '\n' :: rest.toList) := by
    obtain ⟨hskip, hvalue⟩ := htext rest.toList
    have hblank : skipBlanks (' ' :: more) = more := hskip
    rw [readEntry, hread]
    simp only [Option.bind_eq_bind, Option.bind_some, hblank, more, hvalue]
    rfl
  have hchars : (key ++ " = " ++ text).toList ++ '\n' :: rest.toList =
      key.toList ++ ' ' :: '=' :: ' ' :: more := by
    simp [more]
  have hline : readLine ((key ++ " = " ++ text).toList ++ '\n' :: rest.toList) =
      some (some (.entry [key] value), '\n' :: rest.toList) := by
    obtain ⟨c, cs, hcs⟩ := List.exists_cons_of_ne_nil hkey.1
    have hc : isBareKeyChar c = true := hkey.2 c (hcs ▸ List.mem_cons_self)
    have hbreak : c ≠ '\n' := ne_of_isBareKeyChar hc (by decide)
    have hhash : c ≠ '#' := ne_of_isBareKeyChar hc (by decide)
    have hbracket : c ≠ '[' := ne_of_isBareKeyChar hc (by decide)
    rw [hchars, readLine, hcs, List.cons_append, skipBlanks_cons hc, ← List.cons_append, ← hcs]
    split
    · simp_all
    · simp_all
    · simp_all
    · simp_all
    · simp_all
    · rw [hentry]
      rfl
  exact line hline h

end ReadsAs

/-! ### Documents -/

theorem normalizeLineEnds_eq_self {cs : List Char} (h : '\r' ∉ cs) : normalizeLineEnds cs = cs := by
  induction cs with
  | nil => rfl
  | cons c cs ih =>
    simp only [List.mem_cons, not_or] at h
    obtain ⟨hc, hcs⟩ := h
    rw [normalizeLineEnds.eq_2 _ _ fun _ heq => absurd heq.symm hc, ih hcs]

theorem dropByteOrderMark_eq_self {cs : List Char} (h : cs.head? ≠ some '\ufeff') :
    dropByteOrderMark cs = cs := by
  unfold dropByteOrderMark
  split
  · exact absurd rfl h
  · rfl

/-- Lines that make a table are read as this table. -/
theorem read_of_readsAs {text : String} {lines : List Line} {items : Items}
    (hreturn : '\r' ∉ text.toList) (hmark : text.toList.head? ≠ some '\ufeff')
    (hlines : ReadsAs text lines) (hitems : Items.addLines [] [] lines = some items) :
    read text = some items.toTable := by
  have hread := hlines _ (Nat.lt_succ_self text.toList.length)
  unfold read
  rw [dropByteOrderMark_eq_self hmark, normalizeLineEnds_eq_self hreturn]
  show (do
    let lines ← readLines (text.toList.length + 1) text.toList
    return (← Items.addLines [] [] lines).toTable) = _
  rw [hread]
  show (do return (← Items.addLines [] [] lines).toTable) = _
  rw [hitems]
  rfl

end Wiring.Toml
