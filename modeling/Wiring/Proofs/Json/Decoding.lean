import Mathlib.Data.List.Forall2
import Wiring.Json.Decoding
import Wiring.Proofs.Json.Written
import Wiring.Proofs.Lookup

/-! Decoders on what has been written for a value.  `Decoder.Reads` says that a decoder finds the
value again wherever the text leaves enough levels of brackets; each way of putting decoders
together keeps it.  A record is written field by field in the order in which the fields are known,
with some of them left out, and `Record.Fills` follows the value that is filled on the way. -/

namespace Wiring.Json

variable {α ρ : Type} {source : Source} {m n : Nat}

/-! ### Levels -/

/-- The source leaves room for `n` levels of brackets. -/
def Source.Allows : Source → Nat → Prop
  | .text levels, n => n < levels
  | .held, _ | .value, _ | .lenient, _ => True

namespace Source.Allows

theorem mono (h : source.Allows n) (hmn : m ≤ n) : source.Allows m := by
  cases source with
  | text levels => exact Nat.lt_of_le_of_lt hmn h
  | held => trivial
  | value => trivial
  | lenient => trivial

theorem enter (h : source.Allows (n + 1)) : ∃ inner, source.enter = .ok inner ∧ inner.Allows n := by
  cases source with
  | text levels =>
    have hlevels : n + 1 < levels := h
    refine ⟨.text (levels - 1), ?_, Nat.lt_sub_of_add_lt hlevels⟩
    rw [Source.enter, if_neg (by omega)]
  | held => exact ⟨.held, rfl, trivial⟩
  | value => exact ⟨.value, rfl, trivial⟩
  | lenient => exact ⟨.lenient, rfl, trivial⟩

end Source.Allows

/-! ### Trees of written values -/

theorem fieldTrees_append (fields others : List (String × Json)) :
    fieldTrees (fields ++ others) = fieldTrees fields ++ fieldTrees others := by
  induction fields with
  | nil => rfl
  | cons field fields ih => rw [List.cons_append, fieldTrees, fieldTrees, ih, List.cons_append]

theorem fieldsHeight_append (fields others : List Field) :
    fieldsHeight (fields ++ others) = max (fieldsHeight fields) (fieldsHeight others) := by
  induction fields with
  | nil => simp [fieldsHeight]
  | cons field fields ih => rw [List.cons_append, fieldsHeight, fieldsHeight, ih, Nat.max_assoc]

theorem legibleFields_append {fields others : List (String × Json)} :
    LegibleFields (fields ++ others) ↔ LegibleFields fields ∧ LegibleFields others := by
  induction fields with
  | nil => simp [LegibleFields]
  | cons field fields ih => simp only [List.cons_append, LegibleFields, ih, and_assoc]

theorem height_object (fields : List (String × Json)) :
    (object fields).toTree.height = fieldsHeight (fieldTrees fields) + 1 := by
  rw [toTree, Tree.height]

theorem height_array (items : List Json) :
    (array items).toTree.height = itemsHeight (itemTrees items) + 1 := by
  rw [toTree, Tree.height]

/-- A list counts for its own brackets only when it is written. -/
theorem fieldsHeight_nonemptyField (key : String) (items : List Json) :
    fieldsHeight (fieldTrees (nonemptyField key items)) =
      if items.isEmpty then 0 else itemsHeight (itemTrees items) + 1 := by
  cases items with
  | nil => rfl
  | cons item items =>
    show max (array (item :: items)).toTree.height 0 = _
    rw [height_array, Nat.max_zero]
    rfl

theorem itemsHeight_le_nonemptyField (key : String) (items : List Json) :
    itemsHeight (itemTrees items) ≤ fieldsHeight (fieldTrees (nonemptyField key items)) := by
  rw [fieldsHeight_nonemptyField]
  cases items with
  | nil => exact Nat.le_refl 0
  | cons item items => exact Nat.le_succ _

mutual

/-- What has been written is well formed, so it can be held. -/
theorem hold_toTree : ∀ (j : Json) (source : Source), source.Allows j.toTree.height →
    j.toTree.hold source = .ok ()
  | .null, _, _ | .bool _, _, _ | .integer _, _, _ | .string _, _, _ => by simp [toTree, Tree.hold]
  | .array items, source, hs => by
    rw [height_array] at hs
    obtain ⟨inner, henter, hinner⟩ := hs.enter
    rw [toTree, Tree.hold, henter]
    exact congrArg (· >>= fun _ => close none) (holdItems_itemTrees items inner hinner)
  | .object fields, source, hs => by
    rw [height_object] at hs
    obtain ⟨inner, henter, hinner⟩ := hs.enter
    rw [toTree, Tree.hold, henter]
    exact congrArg (· >>= fun _ => close none) (holdFields_fieldTrees fields inner hinner)

theorem holdItems_itemTrees : ∀ (items : List Json) (source : Source),
    source.Allows (itemsHeight (itemTrees items)) → holdItems source (itemTrees items) = .ok ()
  | [], _, _ => rfl
  | item :: items, source, hs => by
    rw [itemTrees, itemsHeight] at hs
    rw [itemTrees, holdItems, hold_toTree item source (hs.mono (Nat.le_max_left _ _))]
    exact holdItems_itemTrees items source (hs.mono (Nat.le_max_right _ _))

theorem holdFields_fieldTrees : ∀ (fields : List (String × Json)) (source : Source),
    source.Allows (fieldsHeight (fieldTrees fields)) →
    holdFields source (fieldTrees fields) = .ok ()
  | [], _, _ => rfl
  | (key, value) :: fields, source, hs => by
    rw [fieldTrees, fieldsHeight] at hs
    rw [fieldTrees, holdFields, hold_toTree value source (hs.mono (Nat.le_max_left _ _))]
    exact holdFields_fieldTrees fields source (hs.mono (Nat.le_max_right _ _))

end

/-! ### Reading back -/

/-- What is written as `j` is read as `a`, wherever there is room for it. -/
structure Decoder.Reads (decode : Decoder α) (j : Json) (a : α) : Prop where
  legible : j.Legible
  read : ∀ source : Source, source.Allows j.toTree.height → decode source j.toTree = .ok a

namespace Decoder

theorem reads_string (s : String) : Decoder.string.Reads (.string s) s := ⟨trivial, fun _ _ => rfl⟩

theorem reads_bool (b : Bool) : Decoder.bool.Reads (.bool b) b := ⟨trivial, fun _ _ => rfl⟩

theorem reads_natural {wanted : String} (h : (nat n).Legible) :
    (Decoder.natural wanted).Reads (nat n) n := by
  refine ⟨h, fun source _ => ?_⟩
  have hn : ¬ (n : Int) < 0 := Int.not_lt.2 (Int.natCast_nonneg n)
  rw [nat, toTree, Decoder.natural, if_neg hn, Int.toNat_natCast]

theorem Reads.nullable {decode : Decoder α} {j : Json} {a : α} (h : decode.Reads j a)
    (hnull : j.toTree ≠ .null) : (Decoder.nullable decode).Reads j (some a) := by
  refine ⟨h.legible, fun source hs => ?_⟩
  rw [Decoder.nullable.eq_2 _ _ _ hnull, h.read source hs]
  rfl

theorem reads_nullable {decode : Decoder α} {write : α → Json}
    (h : ∀ a, decode.Reads (write a) a) (hnull : ∀ a, (write a).toTree ≠ .null) (a? : Option α) :
    (Decoder.nullable decode).Reads (a?.elim .null write) a? := by
  cases a? with
  | none => exact ⟨trivial, fun _ _ => rfl⟩
  | some a => exact (h a).nullable (hnull a)

theorem Reads.map {β : Type} {decode : Decoder α} {j : Json} {a : α} (h : decode.Reads j a)
    (f : α → β) : Decoder.Reads (fun source t => f <$> decode source t) j (f a) := by
  refine ⟨h.legible, fun source hs => ?_⟩
  rw [h.read source hs]
  rfl

theorem reads_list {item : Decoder α} {js : List Json} {as : List α}
    (h : List.Forall₂ item.Reads js as) : (Decoder.list item).Reads (.array js) as := by
  have hlegible : LegibleItems js := by
    induction h with
    | nil => trivial
    | cons hitem _ ih => exact ⟨hitem.legible, ih⟩
  refine ⟨hlegible, fun source hs => ?_⟩
  rw [height_array] at hs
  obtain ⟨inner, henter, hinner⟩ := hs.enter
  have hitems : (itemTrees js).mapM (item inner) = .ok as := by
    clear hs henter hlegible
    induction h with
    | nil => rfl
    | cons hitem _ ih =>
      rw [itemTrees, itemsHeight] at hinner
      rw [itemTrees, List.mapM_cons, hitem.read inner (hinner.mono (Nat.le_max_left _ _)),
        ih (hinner.mono (Nat.le_max_right _ _))]
      rfl
  rw [toTree, Decoder.list, henter]
  show (do let values ← (itemTrees js).mapM (item inner); close none; return values) = _
  rw [hitems]
  rfl

/-- An object is read back as its entries when its keys are those of the entries. -/
theorem reads_entries {κ : Type} {key : String → Except Error κ} {item : Decoder α}
    {fields : List (String × Json)} {entries : List (κ × α)}
    (h : List.Forall₂ (fun field e => key field.1 = .ok e.1 ∧ item.Reads field.2 e.2) fields
      entries) : (Decoder.entries key item).Reads (.object fields) entries := by
  have hlegible : LegibleFields fields := by
    induction h with
    | nil => trivial
    | cons hentry _ ih => exact ⟨hentry.2.legible, ih⟩
  refine ⟨hlegible, fun source hs => ?_⟩
  rw [height_object] at hs
  obtain ⟨inner, henter, hinner⟩ := hs.enter
  rw [toTree, Decoder.entries, henter]
  show ((fieldTrees fields).mapM _ >>= fun values => close none >>= fun _ => pure values) = _
  refine (congrArg (· >>= _) (?_ : _ = Except.ok entries)).trans rfl
  clear hs henter hlegible
  induction h with
  | nil => rfl
  | cons hentry _ ih =>
    rw [fieldTrees, fieldsHeight] at hinner
    rw [fieldTrees, List.mapM_cons, ih (hinner.mono (Nat.le_max_right _ _))]
    simp only [hentry.1, hentry.2.read inner (hinner.mono (Nat.le_max_left _ _))]
    rfl

theorem forall₂_reads_map {item : Decoder α} {write : α → Json}
    (h : ∀ a, item.Reads (write a) a) (as : List α) :
    List.Forall₂ item.Reads (as.map write) as := by
  rw [List.forall₂_map_left_iff]
  exact List.forall₂_same.2 fun a _ => h a

end Decoder

/-! ### Variants -/

section

variable {tag name : String} {variants : List String} {fields : List (String × Json)}

theorem splitTag_fieldTrees (hs : source.Allows (fieldsHeight (fieldTrees fields)))
    (htag : tag ∉ fields.map (·.1)) :
    splitTag tag variants source (some name) (fieldTrees fields) =
      .ok (some name, fieldTrees fields) := by
  induction fields with
  | nil => rfl
  | cons field fields ih =>
    obtain ⟨key, value⟩ := field
    rw [fieldTrees, fieldsHeight] at hs
    rw [List.map_cons, List.mem_cons, not_or] at htag
    rw [fieldTrees, splitTag, if_neg (Ne.symm htag.1),
      hold_toTree value source (hs.mono (Nat.le_max_left _ _)),
      ih (hs.mono (Nat.le_max_right _ _)) htag.2]
    rfl

/-- An object that begins with its tag is read back when the decoder of its variant, which gets the
fields behind the tag, reads these back. -/
theorem Decoder.reads_tagged {β : Type} {title : String} {f : String × Tree → Except Error α}
    {decode : Decoder β} {make : β → Except Error α} {a : α} {b : β} (hname : name ∈ variants)
    (htag : tag ∉ fields.map (·.1)) (h : decode.Reads (.object fields) b)
    (hf : f (name, (object fields).toTree) = decode .held (object fields).toTree >>= make)
    (hmake : make b = .ok a) :
    Decoder.Reads (fun source t => Decoder.tagged title tag variants source t >>= f)
      (.object ((tag, .string name) :: fields)) a := by
  refine ⟨⟨trivial, h.legible⟩, fun source hs => ?_⟩
  rw [height_object] at hs
  obtain ⟨inner, henter, hinner⟩ := hs.enter
  rw [fieldTrees, fieldsHeight] at hinner
  have hsplit : splitTag tag variants inner none (fieldTrees ((tag, .string name) :: fields)) =
      .ok (some name, fieldTrees fields) := by
    rw [fieldTrees, splitTag, if_pos rfl]
    show (oneOf variants name >>= fun name => splitTag tag variants inner (some name) _) = _
    rw [oneOf, if_pos hname]
    exact splitTag_fieldTrees (hinner.mono (Nat.le_max_right _ _)) htag
  have htagged : Decoder.tagged title tag variants source
      (object ((tag, .string name) :: fields)).toTree = .ok (name, (object fields).toTree) := by
    rw [toTree, Decoder.tagged, henter]
    show (splitTag tag variants inner none _ >>= _) = _
    rw [hsplit, toTree]
    rfl
  rw [htagged]
  show f (name, _) = _
  rw [hf, h.read .held trivial]
  exact hmake

theorem Decoder.reads_tagged_bare {title : String} {f : String × Tree → Except Error α} {a : α}
    (hname : name ∈ variants) (hf : f (name, (object []).toTree) = .ok a) :
    Decoder.Reads (fun source t => Decoder.tagged title tag variants source t >>= f)
      (.object [(tag, .string name)]) a := by
  have hbare : Decoder.Reads (fun _ _ => .ok a) (.object []) a := ⟨trivial, fun _ _ => rfl⟩
  have hread : f (name, (object []).toTree) = Except.ok a >>= Except.ok := hf
  exact Decoder.reads_tagged hname (by simp) hbare hread rfl

namespace Adjacent

theorem reads_content (a : Adjacent α) {j : Json} {x : α} (hname : name ∈ a.variants)
    (hcontent : a.content ≠ a.tag) (h : Decoder.Reads (a.read name) j x) :
    a.decode.Reads (.object [(a.tag, .string name), (a.content, j)]) x := by
  refine ⟨⟨trivial, h.legible, trivial⟩, fun source hs => ?_⟩
  rw [height_object] at hs
  obtain ⟨inner, henter, hinner⟩ := hs.enter
  simp only [fieldTrees, fieldsHeight] at hinner
  have hread := h.read inner (hinner.mono (by omega))
  have hfields : a.readFields inner {} (fieldTrees [(a.tag, .string name), (a.content, j)]) =
      .ok ⟨some name, none, some x⟩ := by
    simp only [fieldTrees, readFields, if_pos, if_neg hcontent, Option.isSome_none,
      Option.isSome_some, Bool.or_self, Bool.false_eq_true, if_false]
    show (oneOf a.variants name >>= _) = _
    rw [oneOf, if_pos hname]
    show (a.read name inner j.toTree >>= _) = _
    rw [hread]
    rfl
  rw [toTree, decode, henter]
  show (a.readFields inner {} _ >>= _) = _
  rw [hfields]
  rfl

theorem reads_bare (a : Adjacent α) {x : α} (hname : name ∈ a.variants)
    (hbare : a.bare? name = some x) : a.decode.Reads (.object [(a.tag, .string name)]) x := by
  refine ⟨⟨trivial, trivial⟩, fun source hs => ?_⟩
  rw [height_object] at hs
  obtain ⟨inner, henter, -⟩ := hs.enter
  have hfields : a.readFields inner {} (fieldTrees [(a.tag, .string name)]) =
      .ok ⟨some name, none, none⟩ := by
    simp only [fieldTrees, readFields, if_pos, Option.isSome_none, Bool.false_eq_true, if_false]
    show (oneOf a.variants name >>= _) = _
    rw [oneOf, if_pos hname]
    rfl
  rw [toTree, decode, henter]
  show (a.readFields inner {} _ >>= _) = _
  rw [hfields]
  simp only [close, hbare, bind, Except.bind, pure, Except.pure]

end Adjacent

end

/-! ### Records -/

namespace Record

/-- The fields, in the order in which they are known and some of them left out, fill a record on
from `v` to `w`. -/
inductive Fills : List (String × Decoder (ρ → ρ)) → List (String × Json) → ρ → ρ → Prop
  | nil (v : ρ) : Fills [] [] v v
  | written {key : String} {decode : Decoder (ρ → ρ)} {known : List (String × Decoder (ρ → ρ))}
      {j : Json} {fields : List (String × Json)} {put : ρ → ρ} {v w : ρ} (h : decode.Reads j put)
      (rest : Fills known fields (put v) w) :
      Fills ((key, decode) :: known) ((key, j) :: fields) v w
  | omitted {key : String} {decode : Decoder (ρ → ρ)} {known : List (String × Decoder (ρ → ρ))}
      {fields : List (String × Json)} {v w : ρ} (rest : Fills known fields v w) :
      Fills ((key, decode) :: known) fields v w

namespace Fills

variable {known : List (String × Decoder (ρ → ρ))} {fields : List (String × Json)} {key : String}
  {v w : ρ}

theorem field {decode : Decoder α} {put : α → ρ → ρ} {j : Json} {a : α} (h : decode.Reads j a)
    (rest : Fills known fields (put a v) w) :
    Fills ((key, decode.into put) :: known) ((key, j) :: fields) v w :=
  .written (h.map put) rest

/-- A list that is left out when it is empty leaves the record as it is. -/
theorem list {item : Decoder α} {put : List α → ρ → ρ} {js : List Json} {as : List α}
    (h : List.Forall₂ item.Reads js as) (hput : put [] v = v)
    (rest : Fills known fields (put as v) w) :
    Fills ((key, (Decoder.list item).into put) :: known) (nonemptyField key js ++ fields) v w := by
  cases h with
  | nil =>
    rw [hput] at rest
    exact .omitted rest
  | cons hitem hitems => exact .field (Decoder.reads_list (.cons hitem hitems)) rest

/-- So does an optional value that is not there. -/
theorem option {decode : Decoder (Option α)} {put : Option α → ρ → ρ} {write : α → Json}
    {a? : Option α} (h : ∀ a, decode.Reads (write a) (some a)) (hput : put none v = v)
    (rest : Fills known fields (put a? v) w) :
    Fills ((key, decode.into put) :: known) (field? key (a?.map write) ++ fields) v w := by
  cases a? with
  | none =>
    rw [hput] at rest
    exact .omitted rest
  | some a => exact .field (h a) rest

theorem legible (h : Fills known fields v w) : LegibleFields fields := by
  induction h with
  | nil => trivial
  | written h _ ih => exact ⟨h.legible, ih⟩
  | omitted _ ih => exact ih

/-- The keys that are written are known. -/
theorem keys_sublist (h : Fills known fields v w) :
    (fields.map (·.1)).Sublist (known.map (·.1)) := by
  induction h with
  | nil => exact .slnil
  | written _ _ ih => exact ih.cons_cons _
  | omitted _ ih => exact ih.cons _

/-- A reader of fields that puts each known field into the record when it meets it for the first
time comes from `v` to `w` over the fields. -/
theorem run {β : Type} {f : ρ → List String → List Field → β}
    (before : List (String × Decoder (ρ → ρ))) {known : List (String × Decoder (ρ → ρ))}
    (hstep : ∀ v seen key t decode put rest, (before ++ known).lookup key = some decode →
      key ∉ seen → decode source t = .ok put →
      f v seen ((some key, t) :: rest) = f (put v) (key :: seen) rest)
    (h : Fills known fields v w) (hkeys : ((before ++ known).map (·.1)).Nodup)
    {seen : List String} (hseen : seen ⊆ before.map (·.1))
    (hs : source.Allows (fieldsHeight (fieldTrees fields))) (rest : List Field) :
    f v seen (fieldTrees fields ++ rest) = f w ((fields.map (·.1)).reverse ++ seen) rest := by
  induction h generalizing before seen with
  | nil v => rfl
  | @written key decode known j fields put v w h _ ih =>
    rw [fieldTrees, fieldsHeight] at hs
    have hassoc : before ++ (key, decode) :: known = (before ++ [(key, decode)]) ++ known := by simp
    have hlookup : (before ++ (key, decode) :: known).lookup key = some decode :=
      (lookup_eq_some_iff_mem hkeys).2 (by simp)
    have hnew : key ∉ seen := by
      intro hmem
      rw [List.map_append, List.map_cons, List.nodup_middle, List.nodup_cons] at hkeys
      exact hkeys.1 (List.mem_append_left _ (hseen hmem))
    rw [hassoc] at hstep hkeys
    calc f v seen (fieldTrees ((key, j) :: fields) ++ rest)
        = f (put v) (key :: seen) (fieldTrees fields ++ rest) :=
          hstep v seen key _ decode put _ (hassoc ▸ hlookup) hnew
            (h.read source (hs.mono (Nat.le_max_left _ _)))
      _ = f w ((fields.map (·.1)).reverse ++ key :: seen) rest :=
          ih _ hstep hkeys (by simpa using List.subset_append_of_subset_left _ hseen)
            (hs.mono (Nat.le_max_right _ _))
      _ = _ := by simp
  | @omitted key decode known fields v w _ ih =>
    have hassoc : before ++ (key, decode) :: known = (before ++ [(key, decode)]) ++ known := by simp
    rw [hassoc] at hstep hkeys
    exact ih _ hstep hkeys (by simpa using List.subset_append_of_subset_left _ hseen) hs

end Fills

theorem readFields_step (r : Record ρ) {v : ρ} {seen : List String} {key : String} {t : Tree}
    {decode : Decoder (ρ → ρ)} {put : ρ → ρ} (hlookup : r.fields.lookup key = some decode)
    (hnew : key ∉ seen) (hput : decode source t = .ok put) (rest : List Field) :
    r.readFields source v seen ((some key, t) :: rest) =
      r.readFields source (put v) (key :: seen) rest := by
  rw [readFields, hlookup]
  simp only [if_neg hnew, hput]
  rfl

/-- A record with all required fields among those that are written is read back. -/
theorem reads {r : Record ρ} {fields : List (String × Json)} {blank x : ρ}
    (h : Fills r.fields fields blank x) (hkeys : (r.fields.map (·.1)).Nodup)
    (hrequired : r.required ⊆ fields.map (·.1)) : (r.decode blank).Reads (.object fields) x := by
  refine ⟨h.legible, fun source hs => ?_⟩
  rw [height_object] at hs
  obtain ⟨inner, henter, hinner⟩ := hs.enter
  have hread : r.readFields inner blank [] (fieldTrees fields) =
      .ok (x, (fields.map (·.1)).reverse) := by
    have hrun := Fills.run [] (f := r.readFields inner)
      (fun v seen key t decode put rest hlookup hnew hput =>
        r.readFields_step hlookup hnew hput rest) h hkeys (List.nil_subset _) hinner []
    simpa [readFields] using hrun
  have hdemand : r.demand (fields.map (·.1)).reverse .missingField = .ok () := by
    have hfind : r.required.find? (· ∉ (fields.map (·.1)).reverse) = none := by
      rw [List.find?_eq_none]
      intro name hname
      simpa using hrequired hname
    rw [demand, hfind]
  rw [toTree, decode, henter]
  show (r.readFields inner blank [] _ >>= _) = _
  rw [hread]
  show (r.demand (fields.map (·.1)).reverse .missingField >>= _) = _
  rw [hdemand]
  rfl

end Record

/-! ### Texts -/

/-- A text that has been written for a value is read as that value. -/
theorem decodeText_pretty {decode : Decoder α} {j : Json} {a : α} (h : decode.Reads j a)
    (hheight : j.toTree.height < maxLevels) : decodeText decode j.pretty = .ok a := by
  rw [decodeText, read_pretty h.legible]
  show (decode (.text maxLevels) j.toTree >>= _) = _
  rw [h.read (.text maxLevels) hheight]
  rfl

end Wiring.Json
