import Wiring.Proofs.Except
import Wiring.Proofs.Json.Decoding

/-! How deep the values are that decoders accept.  A source sets a bound on the levels of brackets
that are entered below a tree, and each way of putting decoders together hands it on:
`Decoder.Yields` says what is known of an accepted value from the levels there are for it. -/

namespace Wiring.Json

variable {α β ρ : Type} {source inner : Source} {m n : Nat}

/-! ### Heights -/

theorem itemsHeight_le_iff {items : List Tree} :
    itemsHeight items ≤ n ↔ ∀ t ∈ items, t.height ≤ n := by
  induction items with
  | nil => simp [itemsHeight]
  | cons t items ih => rw [itemsHeight, Nat.max_le, ih, List.forall_mem_cons]

theorem fieldsHeight_le_iff {fields : List Field} :
    fieldsHeight fields ≤ n ↔ ∀ field ∈ fields, field.2.height ≤ n := by
  induction fields with
  | nil => simp [fieldsHeight]
  | cons field fields ih => rw [fieldsHeight, Nat.max_le, ih, List.forall_mem_cons]

theorem itemTrees_eq_map (items : List Json) : itemTrees items = items.map toTree := by
  induction items with
  | nil => rfl
  | cons item items ih => rw [itemTrees, ih, List.map_cons]

theorem height_array_le_iff {items : List Json} :
    (array items).toTree.height ≤ n + 1 ↔ ∀ item ∈ items, item.toTree.height ≤ n := by
  rw [height_array, Nat.succ_le_succ_iff, itemTrees_eq_map, itemsHeight_le_iff,
    List.forall_mem_map]

theorem fieldTrees_eq_map (fields : List (String × Json)) :
    fieldTrees fields = fields.map fun field => (some field.1, field.2.toTree) := by
  induction fields with
  | nil => rfl
  | cons field fields ih => rw [fieldTrees, ih, List.map_cons]

theorem height_object_le_iff {fields : List (String × Json)} :
    (object fields).toTree.height ≤ n + 1 ↔ ∀ field ∈ fields, field.2.toTree.height ≤ n := by
  rw [height_object, Nat.succ_le_succ_iff, fieldTrees_eq_map, fieldsHeight_le_iff,
    List.forall_mem_map]

@[simp]
theorem height_string (s : String) : (string s).toTree.height = 0 := rfl

@[simp]
theorem height_bool (b : Bool) : (bool b).toTree.height = 0 := rfl

theorem height_nonemptyField_le {key : String} {items : List Json}
    (h : ∀ item ∈ items, item.toTree.height ≤ n) :
    ∀ field ∈ nonemptyField key items, field.2.toTree.height ≤ n + 1 := by
  intro field hfield
  rw [nonemptyField] at hfield
  split_ifs at hfield
  · cases hfield
  · rw [List.mem_singleton.1 hfield]
    exact height_array_le_iff.2 h

/-! ### Levels -/

/-- At most `n` levels of brackets are entered below the tree at the source.  In a text that is what
is left of its levels, whatever is skipped; other trees have been read as a whole. -/
def Source.Within : Source → Tree → Nat → Prop
  | .text levels, _, n => levels ≤ n + 1
  | .held, t, n | .value, t, n | .lenient, t, n => t.height ≤ n

/-- Entering a tree takes one of the levels; below it the trees of `children` have the others. -/
theorem Source.Within.enter {t : Tree} (hw : source.Within t n) (children : List Tree)
    (hchildren : ∀ m, t.height ≤ m + 1 ↔ ∀ c ∈ children, c.height ≤ m) (hpos : 0 < t.height)
    (henter : source.enter = .ok inner) :
    ∃ m, n = m + 1 ∧ ∀ c ∈ children, inner.Within c m := by
  cases source with
  | text levels =>
    rw [Source.enter] at henter
    split_ifs at henter with hlevels
    cases henter
    have hn : levels ≤ n + 1 := hw
    exact ⟨n - 1, by omega, fun c _ => show levels - 1 ≤ n - 1 + 1 by omega⟩
  | held | value | lenient =>
    cases henter
    have hn : t.height ≤ n := hw
    obtain ⟨m, rfl⟩ : ∃ m, n = m + 1 := ⟨n - 1, by omega⟩
    exact ⟨m, rfl, (hchildren m).1 hn⟩

theorem Source.Within.enter_array {items : List Tree} {fault? : Option Fault}
    (hw : source.Within (.array items fault?) n) (henter : source.enter = .ok inner) :
    ∃ m, n = m + 1 ∧ ∀ t ∈ items, inner.Within t m :=
  hw.enter items (fun m => by rw [Tree.height, Nat.succ_le_succ_iff, itemsHeight_le_iff])
    (Nat.succ_pos _) henter

theorem Source.Within.enter_object {fields : List Field} {fault? : Option Fault}
    (hw : source.Within (.object fields fault?) n) (henter : source.enter = .ok inner) :
    ∃ m, n = m + 1 ∧ ∀ field ∈ fields, inner.Within field.2 m := by
  obtain ⟨m, hm, hinner⟩ := hw.enter (fields.map (·.2))
    (fun m => by
      rw [Tree.height, Nat.succ_le_succ_iff, fieldsHeight_le_iff, List.forall_mem_map])
    (Nat.succ_pos _) henter
  exact ⟨m, hm, List.forall_mem_map.1 hinner⟩

mutual

/-- What can be held has no more levels than may be entered. -/
theorem height_le_of_hold : ∀ (t : Tree) {source : Source} {n : Nat}, source.Within t n →
    t.hold source = .ok () → t.height ≤ n
  | .array items fault?, source, n, hw, h => by
    obtain ⟨inner, henter, h⟩ := bind_eq_ok_iff.1 h
    obtain ⟨_, hitems, h⟩ := bind_eq_ok_iff.1 h
    obtain ⟨m, rfl, hinner⟩ := hw.enter_array henter
    exact Nat.succ_le_succ (itemsHeight_le_of_hold items hinner hitems)
  | .object fields fault?, source, n, hw, h => by
    obtain ⟨inner, henter, h⟩ := bind_eq_ok_iff.1 h
    obtain ⟨_, hfields, h⟩ := bind_eq_ok_iff.1 h
    obtain ⟨m, rfl, hinner⟩ := hw.enter_object henter
    exact Nat.succ_le_succ (fieldsHeight_le_of_hold fields hinner hfields)
  | .null, _, _, _, _ | .bool _, _, _, _, _ | .integer _, _, _, _, _ | .real _, _, _, _, _
  | .string _, _, _, _, _ | .spoiled, _, _, _, _ | .fault _, _, _, _, _ => Nat.zero_le _

theorem itemsHeight_le_of_hold : ∀ (items : List Tree) {source : Source} {n : Nat},
    (∀ t ∈ items, source.Within t n) → holdItems source items = .ok () → itemsHeight items ≤ n
  | [], _, _, _, _ => Nat.zero_le _
  | t :: items, source, n, hw, h => by
    obtain ⟨_, ht, h⟩ := bind_eq_ok_iff.1 h
    rw [List.forall_mem_cons] at hw
    exact Nat.max_le.2 ⟨height_le_of_hold t hw.1 ht, itemsHeight_le_of_hold items hw.2 h⟩

theorem fieldsHeight_le_of_hold : ∀ (fields : List Field) {source : Source} {n : Nat},
    (∀ field ∈ fields, source.Within field.2 n) → holdFields source fields = .ok () →
    fieldsHeight fields ≤ n
  | [], _, _, _, _ => Nat.zero_le _
  | (none, _) :: _, _, _, _, h => by cases h
  | (some _, t) :: fields, source, n, hw, h => by
    obtain ⟨_, ht, h⟩ := bind_eq_ok_iff.1 h
    rw [List.forall_mem_cons] at hw
    exact Nat.max_le.2 ⟨height_le_of_hold t hw.1 ht, fieldsHeight_le_of_hold fields hw.2 h⟩

end

/-! ### What is known of an accepted value -/

/-- A value that is read where at most `n` levels are entered satisfies `fits n`. -/
def Decoder.Yields (decode : Decoder α) (fits : Nat → α → Prop) : Prop :=
  ∀ source t n a, source.Within t n → decode source t = .ok a → fits n a

namespace Decoder

variable {decode : Decoder α} {fits : Nat → α → Prop}

theorem yields_trivial (decode : Decoder α) : decode.Yields fun _ _ => True :=
  fun _ _ _ _ _ _ => trivial

theorem yields_unit (title : String) (value : α) :
    (Decoder.unit title value).Yields fun _ a => a = value := by
  intro source t n a _ ha
  cases t with
  | null =>
    cases ha
    rfl
  | _ => cases ha

theorem Yields.nullable (h : decode.Yields fits) :
    (Decoder.nullable decode).Yields fun n a? => ∀ a ∈ a?, fits n a := by
  intro source t n a? hw ha a hmem
  by_cases ht : t = .null
  · rw [ht] at ha
    cases ha
    cases hmem
  · rw [Decoder.nullable.eq_2 _ _ _ ht] at ha
    obtain ⟨b, hb, ha⟩ := bind_eq_ok_iff.1 ha
    cases ha
    cases hmem
    exact h source t n _ hw hb

theorem Yields.list (h : decode.Yields fits) :
    (Decoder.list decode).Yields fun n as => ∃ m, n = m + 1 ∧ ∀ a ∈ as, fits m a := by
  intro source t n as hw has
  cases t with
  | array items fault? =>
    obtain ⟨inner, henter, has⟩ := bind_eq_ok_iff.1 has
    obtain ⟨values, hvalues, has⟩ := bind_eq_ok_iff.1 has
    obtain ⟨_, _, has⟩ := bind_eq_ok_iff.1 has
    cases has
    obtain ⟨m, hm, hinner⟩ := hw.enter_array henter
    refine ⟨m, hm, fun a ha => ?_⟩
    obtain ⟨u, hu, hread⟩ := exists_of_mapM_ok hvalues a ha
    exact h inner u m a (hinner u hu) hread
  | _ => cases has

/-- The fields beside a tag have been held. -/
theorem splitTag_within {tag : String} {variants : List String} {variant? result? : Option String}
    {fields others : List Field} (hw : ∀ field ∈ fields, source.Within field.2 n)
    (h : splitTag tag variants source variant? fields = .ok (result?, others)) :
    fieldsHeight others ≤ n := by
  induction fields generalizing variant? others with
  | nil =>
    cases h
    exact Nat.zero_le _
  | cons field fields ih =>
    obtain ⟨key?, t⟩ := field
    rw [List.forall_mem_cons] at hw
    cases key? with
    | none => cases h
    | some key =>
      rw [splitTag] at h
      split_ifs at h with hkey htwice
      · obtain ⟨_, _, h⟩ := bind_eq_ok_iff.1 h
        exact ih hw.2 h
      · obtain ⟨_, hheld, h⟩ := bind_eq_ok_iff.1 h
        obtain ⟨⟨_, rest⟩, hrest, h⟩ := bind_eq_ok_iff.1 h
        cases h
        exact Nat.max_le.2 ⟨height_le_of_hold t hw.1 hheld, ih hw.2 hrest⟩

theorem yields_tagged {title tag : String} {variants : List String}
    {f : String × Tree → Except Error α}
    (h : ∀ name u n a, u.height ≤ n → f (name, u) = .ok a → fits n a) :
    Decoder.Yields (fun source t => Decoder.tagged title tag variants source t >>= f) fits := by
  intro source t n a hw ha
  obtain ⟨⟨name, u⟩, htagged, ha⟩ := bind_eq_ok_iff.1 ha
  refine h name u n a ?_ ha
  cases t with
  | object fields fault? =>
    obtain ⟨inner, henter, htagged⟩ := bind_eq_ok_iff.1 htagged
    obtain ⟨⟨variant?, others⟩, hsplit, htagged⟩ := bind_eq_ok_iff.1 htagged
    obtain ⟨_, _, htagged⟩ := bind_eq_ok_iff.1 htagged
    obtain ⟨m, rfl, hinner⟩ := hw.enter_object henter
    cases variant? with
    | none => cases htagged
    | some _ =>
      cases htagged
      exact Nat.succ_le_succ (splitTag_within hinner hsplit)
  | array items fault? =>
    obtain ⟨inner, henter, htagged⟩ := bind_eq_ok_iff.1 htagged
    obtain ⟨m, rfl, hinner⟩ := hw.enter_array henter
    cases items with
    | nil =>
      obtain ⟨_, _, htagged⟩ := bind_eq_ok_iff.1 htagged
      cases htagged
    | cons item items =>
      obtain ⟨_, _, htagged⟩ := bind_eq_ok_iff.1 htagged
      obtain ⟨_, hheld, htagged⟩ := bind_eq_ok_iff.1 htagged
      obtain ⟨_, _, htagged⟩ := bind_eq_ok_iff.1 htagged
      cases htagged
      rw [List.forall_mem_cons] at hinner
      exact Nat.succ_le_succ (itemsHeight_le_of_hold items hinner.2 hheld)
  | _ => cases htagged

end Decoder

namespace Adjacent

/-- What has been met of an adjacent value: the content that is held is no higher than `n`, and a
result has been read from content with so many levels. -/
structure Progress.Known (fits : Nat → α → Prop) (n : Nat) (p : Progress α) : Prop where
  held : ∀ t ∈ p.held?, t.height ≤ n
  result : ∀ x ∈ p.result?, fits n x

theorem known_readFields {a : Adjacent α} {fits : Nat → α → Prop}
    (hread : ∀ name, Decoder.Yields (a.read name) fits) {fields : List Field}
    (hw : ∀ field ∈ fields, source.Within field.2 n) {p q : Progress α} (hp : p.Known fits n)
    (h : a.readFields source p fields = .ok q) : q.Known fits n := by
  induction fields generalizing p with
  | nil =>
    cases h
    exact hp
  | cons field fields ih =>
    obtain ⟨key?, t⟩ := field
    rw [List.forall_mem_cons] at hw
    cases key? with
    | none => cases h
    | some key =>
      rw [readFields] at h
      split_ifs at h with htag htwice hcontent hagain
      · obtain ⟨name, _, h⟩ := bind_eq_ok_iff.1 h
        obtain ⟨result?, hresult, h⟩ := bind_eq_ok_iff.1 h
        refine ih hw.2 ⟨by simp, fun x hx => ?_⟩ h
        cases hheld : p.held? with
        | none =>
          rw [hheld] at hresult
          cases hresult
          cases hx
        | some u =>
          rw [hheld] at hresult
          obtain ⟨y, hy, hresult⟩ := bind_eq_ok_iff.1 hresult
          cases hresult
          cases hx
          exact hread name .held u n x (hp.held u hheld) hy
      · cases hname : p.variant? with
        | some name =>
          rw [hname] at h
          obtain ⟨x, hx, h⟩ := bind_eq_ok_iff.1 h
          refine ih hw.2 ⟨by simp, fun y hy => ?_⟩ h
          cases hy
          exact hread name source t n x hw.1 hx
        | none =>
          rw [hname] at h
          obtain ⟨_, hheld, h⟩ := bind_eq_ok_iff.1 h
          refine ih hw.2 ⟨fun u hu => ?_, by simp⟩ h
          cases hu
          exact height_le_of_hold t hw.1 hheld
      · obtain ⟨_, _, h⟩ := bind_eq_ok_iff.1 h
        exact ih hw.2 hp h

theorem yields_decode {a : Adjacent α} {fits : Nat → α → Prop}
    (hread : ∀ name, Decoder.Yields (a.read name) fits)
    (hbare : ∀ name n x, a.bare? name = some x → fits n x) :
    a.decode.Yields fun n x => ∃ m, n = m + 1 ∧ fits m x := by
  intro source t n x hw hx
  cases t with
  | object fields fault? =>
    obtain ⟨inner, henter, hx⟩ := bind_eq_ok_iff.1 hx
    obtain ⟨p, hfields, hx⟩ := bind_eq_ok_iff.1 hx
    obtain ⟨_, _, hx⟩ := bind_eq_ok_iff.1 hx
    obtain ⟨m, rfl, hinner⟩ := hw.enter_object henter
    have hknown := known_readFields hread hinner
      ⟨by simp, by simp⟩ hfields
    refine ⟨m, rfl, ?_⟩
    split at hx
    · cases hx
    · rename_i hresult
      cases hx
      exact hknown.result x hresult
    · split at hx
      · rename_i hresult
        cases hx
        exact hbare _ _ _ hresult
      · cases hx
  | array items fault? =>
    obtain ⟨inner, henter, hx⟩ := bind_eq_ok_iff.1 hx
    obtain ⟨m, rfl, hinner⟩ := hw.enter_array henter
    refine ⟨m, rfl, ?_⟩
    rcases items with _ | ⟨tagItem, _ | ⟨content, others⟩⟩
    · obtain ⟨_, _, hx⟩ := bind_eq_ok_iff.1 hx
      cases hx
    · obtain ⟨_, _, hx⟩ := bind_eq_ok_iff.1 hx
      obtain ⟨_, _, hx⟩ := bind_eq_ok_iff.1 hx
      cases hx
    · obtain ⟨name, _, hx⟩ := bind_eq_ok_iff.1 hx
      obtain ⟨y, hy, hx⟩ := bind_eq_ok_iff.1 hx
      obtain ⟨_, _, hx⟩ := bind_eq_ok_iff.1 hx
      obtain ⟨_, _, hx⟩ := bind_eq_ok_iff.1 hx
      cases hx
      exact hread name inner content m x (hinner _ (by simp)) hy
  | _ => cases hx

end Adjacent

/-! ### Records -/

namespace Record

/-- Reading the field where at most `n` levels are entered below it keeps what is known of the
record and of the names that have been seen. -/
def Keeps (Inv : List String → ρ → Prop) (n : Nat) (field : String × Decoder (ρ → ρ)) : Prop :=
  ∀ source t put seen v, source.Within t n → field.2 source t = .ok put → Inv seen v →
    Inv (field.1 :: seen) (put v)

theorem keeps_into {Inv : List String → ρ → Prop} {key : String} {decode : Decoder α}
    {put : α → ρ → ρ} {fits : Nat → α → Prop} (h : decode.Yields fits)
    (hput : ∀ a seen v, fits n a → Inv seen v → Inv (key :: seen) (put a v)) :
    Keeps Inv n (key, decode.into put) := by
  intro source t f seen v hw hf hv
  obtain ⟨a, hread, rfl⟩ := exists_of_map_ok hf
  exact hput a seen v (h source t n a hw hread) hv

/-- The statement holds once the field has been seen. -/
def WhenSeen (key : String) (seen : List String) (p : Prop) : Prop := key ∈ seen → p

namespace WhenSeen

variable {key other : String} {seen : List String} {p : Prop}

theorem blank : WhenSeen key [] p := fun h => absurd h List.not_mem_nil

theorem now (hp : p) : WhenSeen key seen p := fun _ => hp

theorem later (h : WhenSeen key seen p) (hne : key ≠ other) : WhenSeen key (other :: seen) p :=
  fun hmem => h (List.mem_of_ne_of_mem hne hmem)

end WhenSeen

theorem readFields_invariant {r : Record ρ} {Inv : List String → ρ → Prop}
    (hfields : ∀ field ∈ r.fields, Keeps Inv n field) {fields : List Field}
    (hw : ∀ field ∈ fields, source.Within field.2 n) {v w : ρ} {seen seen' : List String}
    (hv : Inv seen v) (h : r.readFields source v seen fields = .ok (w, seen')) : Inv seen' w := by
  induction fields generalizing v seen with
  | nil =>
    cases h
    exact hv
  | cons field fields ih =>
    obtain ⟨key?, t⟩ := field
    rw [List.forall_mem_cons] at hw
    cases key? with
    | none => cases h
    | some key =>
      rw [readFields] at h
      cases hlookup : r.fields.lookup key with
      | none =>
        rw [hlookup] at h
        obtain ⟨_, _, h⟩ := bind_eq_ok_iff.1 h
        exact ih hw.2 hv h
      | some decode =>
        rw [hlookup] at h
        split_ifs at h with hseen
        obtain ⟨put, hput, h⟩ := bind_eq_ok_iff.1 h
        have hkeeps := hfields _ (mem_of_lookup hlookup)
        exact ih hw.2 (hkeeps source t put seen v hw.1 hput hv) h

/-- In an array the first fields have been seen, as many as there are items. -/
theorem readItems_invariant {Inv : List String → ρ → Prop}
    {known : List (String × Decoder (ρ → ρ))} (hknown : ∀ field ∈ known, Keeps Inv n field)
    {items : List Tree} (hw : ∀ t ∈ items, source.Within t n) {v w : ρ} {seen : List String}
    (hv : Inv seen v) (h : readItems source v known items = .ok w) :
    Inv (((known.take items.length).map (·.1)).reverse ++ seen) w := by
  induction known generalizing items v seen with
  | nil =>
    cases h
    simpa using hv
  | cons field known ih =>
    obtain ⟨key, decode⟩ := field
    cases items with
    | nil =>
      cases h
      simpa using hv
    | cons t items =>
      obtain ⟨put, hput, h⟩ := bind_eq_ok_iff.1 h
      rw [List.forall_mem_cons] at hw hknown
      have := ih hknown.2 hw.2 (hknown.1 source t put seen v hw.1 hput hv) h
      simpa using this

theorem subset_of_demand {r : Record ρ} {seen : List String} {absent : String → Mismatch}
    {u : Unit} (h : r.demand seen absent = .ok u) : r.required ⊆ seen := by
  intro name hname
  rw [demand] at h
  split at h
  · cases h
  · rename_i hfind
    simpa using List.find?_eq_none.1 hfind name hname

/-- What reading each field keeps is known of the record, and the required fields have been seen. -/
theorem yields_decode {r : Record ρ} {blank : ρ} (Inv : Nat → List String → ρ → Prop)
    (hblank : ∀ n, Inv n [] blank) (hfields : ∀ n, ∀ field ∈ r.fields, Keeps (Inv n) n field) :
    (r.decode blank).Yields fun n x =>
      ∃ m seen, n = m + 1 ∧ Inv m seen x ∧ r.required ⊆ seen := by
  intro source t n x hw hx
  cases t with
  | object fields fault? =>
    obtain ⟨inner, henter, hx⟩ := bind_eq_ok_iff.1 hx
    obtain ⟨⟨v, seen⟩, hread, hx⟩ := bind_eq_ok_iff.1 hx
    obtain ⟨_, _, hx⟩ := bind_eq_ok_iff.1 hx
    obtain ⟨_, hdemand, hx⟩ := bind_eq_ok_iff.1 hx
    cases hx
    obtain ⟨m, rfl, hinner⟩ := hw.enter_object henter
    exact ⟨m, seen, rfl, readFields_invariant (hfields m) hinner (hblank m) hread,
      subset_of_demand hdemand⟩
  | array items fault? =>
    obtain ⟨inner, henter, hx⟩ := bind_eq_ok_iff.1 hx
    obtain ⟨v, hread, hx⟩ := bind_eq_ok_iff.1 hx
    obtain ⟨_, _, hx⟩ := bind_eq_ok_iff.1 hx
    obtain ⟨_, _, hx⟩ := bind_eq_ok_iff.1 hx
    obtain ⟨_, hdemand, hx⟩ := bind_eq_ok_iff.1 hx
    cases hx
    obtain ⟨m, rfl, hinner⟩ := hw.enter_array henter
    refine ⟨m, _, rfl, readItems_invariant (hfields m) hinner (hblank m) hread, ?_⟩
    simpa using subset_of_demand hdemand
  | _ => cases hx

/-- A record takes a level of its own. -/
theorem exists_level {r : Record ρ} {blank x : ρ} {t : Tree} (hw : source.Within t n)
    (h : r.decode blank source t = .ok x) : ∃ m, n = m + 1 := by
  obtain ⟨m, _, hm, -⟩ := yields_decode (fun _ _ (_ : ρ) => True) (fun _ => trivial)
    (fun _ _ _ _ _ _ _ _ _ _ _ => trivial) source t n x hw h
  exact ⟨m, hm⟩

end Record

end Wiring.Json
