import Wiring.Proofs.Toml.Line
import Wiring.Settings.Saved

/-! What is saved can be loaded.  The text of settings is read line by line as what was written, and
the lines make a table with every setting in it, so that no default and no quotation mark changes
one. -/

namespace Wiring

namespace Workspace

variable {w w' : Workspace} {path text : String}

theorem write_eq_ok_iff : w.write path text = .ok w' ↔ w.admits path = .ok () ∧
    { w with look := fun p => if p = path then .ok (.file text) else w.look p } = w' := by
  unfold write
  cases w.admits path with
  | ok =>
    show Except.ok _ = Except.ok w' ↔ _
    simp
  | error fault =>
    show Except.error fault = Except.ok w' ↔ _
    simp

theorem look_of_write (h : w.write path text = .ok w') : w'.look path = .ok (.file text) := by
  obtain ⟨-, rfl⟩ := write_eq_ok_iff.1 h
  exact if_pos rfl

theorem read_of_write (h : w.write path text = .ok w') : w'.read path = .ok text := by
  rw [read, look_of_write h]

theorem contains_of_write (h : w.write path text = .ok w') : w'.contains path = true := by
  rw [contains, look_of_write h]
  rfl

theorem environment_of_write (h : w.write path text = .ok w') :
    w'.environment = w.environment := by
  obtain ⟨-, rfl⟩ := write_eq_ok_iff.1 h
  rfl

end Workspace

namespace Settings

open Toml (Holds ReadsAs)

/-! ### The text as lines -/

theorem holds_truth (b : Bool) : Holds (truth b) (.bool b) := by
  cases b
  · exact Toml.holds_false
  · exact Toml.holds_true

section

variable {rest : String} {more : List Toml.Line}

theorem readsAs_assignment {key value : String} {v : Toml.Value} (hkey : Toml.IsBare key)
    (hvalue : Holds value v) (h : ReadsAs rest more) :
    ReadsAs (assignment key value ++ rest) (.entry [key] v :: more) :=
  h.entry hkey hvalue

variable {title : String} {path : List String}

theorem readsAs_title (hpath : path ≠ []) (hbare : ∀ k ∈ path, Toml.IsBare k)
    (htitle : title = "[" ++ ".".intercalate path ++ "]" ++ "\n") (h : ReadsAs rest more) :
    ReadsAs (title ++ rest) (.table path :: more) := by
  rw [htitle]
  exact h.header hpath hbare

theorem readsAs_spacedTitle (hpath : path ≠ []) (hbare : ∀ k ∈ path, Toml.IsBare k)
    (htitle : title = "\n" ++ ("[" ++ ".".intercalate path ++ "]" ++ "\n"))
    (h : ReadsAs rest more) : ReadsAs (title ++ rest) (.table path :: more) := by
  rw [htitle, String.append_assoc]
  exact (readsAs_title hpath hbare rfl h).blank

end

/-- The lines of the text, those that are blank left out. -/
def lines (s : Settings) : List Toml.Line :=
  [.table ["resolver"],
    .entry ["parallel"] (.bool s.resolver.parallel),
    .entry ["memoize_cycle_search"] (.bool s.resolver.memoizeCycleSearch),
    .entry ["warn_on_unresolved_root_sockets"] (.bool s.resolver.warnOnUnresolvedRootSockets),
    .table ["resolver", "known_types"],
    .entry ["list"] (.string s.resolver.knownTypes.list),
    .entry ["set"] (.string s.resolver.knownTypes.set),
    .entry ["collection"] (.string s.resolver.knownTypes.collection),
    .entry ["top_type"] (.string s.resolver.knownTypes.top),
    .table ["logging"],
    .entry ["level"] (.string s.logging.level),
    .entry ["json_format"] (.bool s.logging.jsonFormat)]

theorem readsAs_text (s : Settings) : ReadsAs s.text s.lines := by
  unfold text
  simp only [String.append_assoc]
  refine readsAs_title (by decide) (by decide) (by decide) ?_
  refine readsAs_assignment (by decide) (holds_truth _) ?_
  refine readsAs_assignment (by decide) (holds_truth _) ?_
  refine readsAs_assignment (by decide) (holds_truth _) ?_
  refine readsAs_spacedTitle (by decide) (by decide) (by decide) ?_
  refine readsAs_assignment (by decide) (Toml.holds_quoted _) ?_
  refine readsAs_assignment (by decide) (Toml.holds_quoted _) ?_
  refine readsAs_assignment (by decide) (Toml.holds_quoted _) ?_
  refine readsAs_assignment (by decide) (Toml.holds_quoted _) ?_
  refine readsAs_spacedTitle (by decide) (by decide) (by decide) ?_
  refine readsAs_assignment (by decide) (Toml.holds_quoted _) ?_
  rw [← String.append_empty (s := assignment _ _)]
  exact readsAs_assignment (by decide) (holds_truth _) .nil

def table (s : Settings) : Toml.Table :=
  [("resolver", .table
      [("parallel", .bool s.resolver.parallel),
        ("memoize_cycle_search", .bool s.resolver.memoizeCycleSearch),
        ("warn_on_unresolved_root_sockets", .bool s.resolver.warnOnUnresolvedRootSockets),
        ("known_types", .table
          [("list", .string s.resolver.knownTypes.list),
            ("set", .string s.resolver.knownTypes.set),
            ("collection", .string s.resolver.knownTypes.collection),
            ("top_type", .string s.resolver.knownTypes.top)])]),
    ("logging", .table
      [("level", .string s.logging.level), ("json_format", .bool s.logging.jsonFormat)])]

theorem addLines_lines (s : Settings) :
    ∃ items, Toml.Items.addLines [] [] s.lines = some items ∧ items.toTable = s.table :=
  ⟨_, rfl, rfl⟩

theorem ofTable_table (s : Settings) : ofTable s.table = .ok s := rfl

/-! ### The text as a table -/

theorem return_not_mem_quoted (s : String) : '\r' ∉ (Toml.quoted s).toList := by
  intro hmem
  rw [Toml.quoted, String.toList_ofList] at hmem
  exact absurd (Toml.needsEscape_of_mem_quotedChars hmem) (by decide)

theorem return_not_mem_truth (b : Bool) : '\r' ∉ (truth b).toList := by
  cases b <;> decide

theorem return_not_mem_assignment {key value : String} (hkey : '\r' ∉ key.toList)
    (hvalue : '\r' ∉ value.toList) : '\r' ∉ (assignment key value).toList := by
  have hsign : '\r' ∉ " = ".toList := by decide
  have hend : '\r' ∉ "\n".toList := by decide
  simp only [assignment, String.toList_append, List.mem_append, not_or]
  exact ⟨⟨⟨hkey, hsign⟩, hvalue⟩, hend⟩

theorem return_not_mem_text (s : Settings) : '\r' ∉ s.text.toList := by
  have htruth {key : String} (hkey : '\r' ∉ key.toList) (b : Bool) :=
    return_not_mem_assignment hkey (return_not_mem_truth b)
  have hquoted {key : String} (hkey : '\r' ∉ key.toList) (name : String) :=
    return_not_mem_assignment hkey (return_not_mem_quoted name)
  unfold text
  simp only [String.append_assoc, String.toList_append, List.mem_append, not_or]
  exact ⟨by decide, htruth (by decide) _, htruth (by decide) _, htruth (by decide) _,
    by decide, hquoted (by decide) _, hquoted (by decide) _, hquoted (by decide) _,
    hquoted (by decide) _, by decide, hquoted (by decide) _, htruth (by decide) _⟩

theorem head?_text (s : Settings) : s.text.toList.head? = some '[' := by
  unfold text
  simp only [String.append_assoc]
  rw [String.toList_append]
  rfl

theorem read_text (s : Settings) : Toml.read s.text = some s.table := by
  obtain ⟨items, hitems, htable⟩ := addLines_lines s
  have hmark : s.text.toList.head? ≠ some '\ufeff' := by
    rw [head?_text]
    decide
  rw [Toml.read_of_readsAs (return_not_mem_text s) hmark (readsAs_text s) hitems, htable]

/-! ### Saving and loading -/

/-- No variable of the environment has a name that begins with the mark of settings, in any case and
after blanks. -/
def Unmarked (w : Workspace) : Prop :=
  ∀ v ∈ w.environment, ¬ variableMark <+: (Text.trimChars v.1.toList).map Char.toLower

instance (w : Workspace) : Decidable (Unmarked w) :=
  inferInstanceAs (Decidable (∀ v ∈ w.environment, _))

theorem variablePath?_eq_none {name : String}
    (h : ¬ variableMark <+: (Text.trimChars name.toList).map Char.toLower) :
    variablePath? name = none := by
  unfold variablePath?
  exact if_neg fun hprefix => h (List.isPrefixOf_iff_prefix.1 hprefix)

theorem ofEnvironment_eq_nil {environment : List (String × String)}
    (h : ∀ v ∈ environment, variablePath? v.1 = none) : ofEnvironment environment = [] := by
  unfold ofEnvironment
  induction environment with
  | nil => rfl
  | cons v environment ih =>
    obtain ⟨hv, hrest⟩ := List.forall_mem_cons.1 h
    obtain ⟨name, text⟩ := v
    have hname : variablePath? name = none := hv
    simp only [List.foldl_cons, hname]
    exact ih hrest

theorem save_eq_ok_iff {s : Settings} {w w' : Workspace} {path : String} :
    s.save w path = .ok w' ↔ w.write path s.text = .ok w' := by
  unfold save
  cases w.write path s.text with
  | ok written => simp
  | error fault => simp

theorem fileTable_of_save {s : Settings} {w w' : Workspace} {path : String}
    (h : s.save w path = .ok w') : fileTable w' (some path) = .ok s.table := by
  have hwrite := save_eq_ok_iff.1 h
  have hthere := Workspace.contains_of_write hwrite
  have hread := Workspace.read_of_write hwrite
  simp only [fileTable, hthere, if_true, tableAt, hread, read_text]

/-- What is saved is loaded again, or rejected when it is not valid. -/
theorem load_of_save {s : Settings} {w w' : Workspace} {path : String}
    (hsave : s.save w path = .ok w') (henv : ofEnvironment w'.environment = []) :
    load w' (some path) = s.checked := by
  rw [load, fileTable_of_save hsave, henv]
  show (do
    let s ← ofTable (overTable s.table [])
    s.checked) = _
  rw [overTable, ofTable_table]
  rfl

/-- Valid settings can be saved wherever a file can be, and are then loaded from there as they were,
when the environment holds none. -/
theorem load_saved (s : Settings) (w : Workspace) (path : String) (hvalid : s.validate = .ok ())
    (henv : Unmarked w) :
    ((∃ w', s.save w path = .ok w') ↔ w.admits path = .ok ()) ∧
      ∀ w', s.save w path = .ok w' → load w' (some path) = .ok s := by
  constructor
  · simp only [save_eq_ok_iff, Workspace.write_eq_ok_iff, exists_and_left, exists_eq',
      and_true]
  · intro w' hsave
    have hsame : w'.environment = w.environment :=
      Workspace.environment_of_write (save_eq_ok_iff.1 hsave)
    have hsilent : ofEnvironment w'.environment = [] := by
      rw [hsame]
      exact ofEnvironment_eq_nil fun v hv => variablePath?_eq_none (henv v hv)
    rw [load_of_save hsave hsilent, checked, hvalid]
    rfl

namespace Sample

/-- Names with both kinds of quotation marks, with backslashes, and with characters that only an
escape can write. -/
def awkward : Settings :=
  { resolver :=
      { parallel := false
        knownTypes :=
          { list := "List<\"E\">"
            set := "C:\\sets\\'E'"
            collection := "two\nlines of '''\"\"\"\\"
            top := "\x07\x7f\r\n\t" ++ "\"" } }
    logging := { level := "WARNING" } }

def folder : Workspace := Workspace.ofFiles [("wireplan.toml", "[")] [("PATH", "/bin")]

end Sample

theorem load_saved_awkward :
    Sample.awkward.validate = .ok () ∧ Unmarked Sample.folder ∧
    ∃ w', Sample.awkward.save Sample.folder "wireplan.toml" = .ok w' ∧
      load w' (some "wireplan.toml") = .ok Sample.awkward := by
  have hvalid : Sample.awkward.validate = .ok () := rfl
  have henv : Unmarked Sample.folder := by decide
  have hadmits : Sample.folder.admits "wireplan.toml" = .ok () := by decide +kernel
  obtain ⟨hsaved, hloaded⟩ := load_saved Sample.awkward Sample.folder "wireplan.toml" hvalid henv
  obtain ⟨w', hw'⟩ := hsaved.2 hadmits
  exact ⟨hvalid, henv, w', hw', hloaded w' hw'⟩

end Settings

end Wiring
