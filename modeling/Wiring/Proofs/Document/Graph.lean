import Wiring.Document.Graph
import Wiring.Proofs.Document.TypeExpr

/-! Graphs are read back as they have been written, part by part from the selectors up.  A part with
a condition of the program has no written form, so the parts that may hold one come with the form
that they have. -/

namespace Wiring

open Json (Decoder Record)

/-- Every member of a list that has a written form has one, and is read back from it. -/
theorem forall₂_reads_mapM {α : Type} {item : Decoder α} {write? : α → Option Json} {as : List α}
    {js : List Json} (h : ∀ a j, write? a = some j → item.Reads j a)
    (hjs : as.mapM write? = some js) : List.Forall₂ item.Reads js as := by
  induction as generalizing js with
  | nil =>
    cases hjs
    exact .nil
  | cons a as ih =>
    rw [List.mapM_cons] at hjs
    obtain ⟨j, hj, hjs⟩ := Option.bind_eq_some_iff.1 hjs
    obtain ⟨others, hothers, hjs⟩ := Option.bind_eq_some_iff.1 hjs
    cases hjs
    exact .cons (h a j hj) (ih hothers)

/-! ### Selectors and sockets -/

theorem Selector.reads_text (variant field text : String) :
    Decoder.Reads (fun _ t => Selector.decode.text variant field t)
      (.object [(field, .string text)]) text := by
  have h : Decoder.Reads (Record.decode
      { title := "struct variant Selector::" ++ variant
        fields := [(field, Decoder.string.into fun text _ => text)]
        required := [field] } "") (.object [(field, .string text)]) text :=
    Record.reads (.field (Decoder.reads_string text) (.nil _)) (by simp) (by simp)
  exact ⟨h.legible, fun _ _ => h.read .held trivial⟩

theorem Selector.reads {s : Selector} {j : Json} (h : s.toJson? = some j) :
    Selector.decode.Reads j s := by
  cases s with
  | annotated marker =>
    cases h
    exact Decoder.reads_tagged (by simp) (by simp) (Selector.reads_text _ _ marker) rfl rfl
  | nameMatches pattern =>
    cases h
    exact Decoder.reads_tagged (by simp) (by simp) (Selector.reads_text _ _ pattern) rfl rfl
  | custom name accepts => cases h

theorem Mutator.reads (m : Mutator) : Mutator.decode.Reads m.toJson m :=
  Record.reads
    (.field m.input.reads (.field m.output.reads (.field (Decoder.reads_bool m.required) (.nil _))))
    (by simp) (by simp)

theorem Socket.reads {s : Socket} {j : Json} (h : s.toJson? = some j) :
    Socket.decode.Reads j s := by
  obtain ⟨selectors, hselectors, h⟩ := Option.bind_eq_some_iff.1 h
  cases h
  have hread := forall₂_reads_mapM (fun _ _ => Selector.reads) hselectors
  refine Record.reads ?_ (by simp) (by simp)
  rw [List.append_assoc]
  refine .field (Decoder.reads_string s.name) <| .field s.required.reads <|
    .field (Decoder.reads_bool s.optional) <| .list hread rfl ?_
  rw [← List.append_nil (Json.field? ..)]
  exact .option (fun m => m.reads.nullable (by simp [Mutator.toJson, Json.toTree])) rfl (.nil _)

/-! ### Beans -/

theorem Visibility.reads (v : Visibility) : Visibility.decode.Reads (.string v.text) v := by
  cases v with
  | importers => exact ⟨trivial, fun _ _ => rfl⟩
  | module => exact ⟨trivial, fun _ _ => rfl⟩

theorem Strategy.reads (s : Strategy) : Strategy.decode.Reads (.string s.text) s := by
  cases s with
  | singleton => exact ⟨trivial, fun _ _ => rfl⟩
  | prototype => exact ⟨trivial, fun _ _ => rfl⟩

theorem forall₂_reads_strings (texts : List String) :
    List.Forall₂ Decoder.string.Reads (stringsJson texts) texts :=
  Decoder.forall₂_reads_map Decoder.reads_string texts

mutual

theorem NestedBean.reads_decodeWithin : ∀ (b : NestedBean) (height : Nat),
    b.toJson.toTree.height < height → (NestedBean.decodeWithin height).Reads b.toJson b
  | _, 0, h => absurd h (Nat.not_lt_zero _)
  | ⟨name, type, annotations, nested⟩, height + 1, h => by
    rw [NestedBean.toJson, Json.height_object] at h
    have hnested := NestedBean.reads_listJson nested height (by
      have := Json.itemsHeight_le_nonemptyField "nested" (NestedBean.listJson nested)
      rw [Json.fieldTrees_append, Json.fieldsHeight_append] at h
      omega)
    rw [NestedBean.toJson, NestedBean.decodeWithin]
    refine Record.reads ?_ (by simp) (by simp)
    rw [List.append_assoc, ← List.append_nil (Json.nonemptyField "nested" _)]
    exact .field (Decoder.reads_string name) <| .field type.reads <|
      .list (forall₂_reads_strings annotations) rfl <| .list hnested rfl (.nil _)

theorem NestedBean.reads_listJson : ∀ (bs : List NestedBean) (height : Nat),
    Json.itemsHeight (Json.itemTrees (NestedBean.listJson bs)) < height →
    List.Forall₂ (NestedBean.decodeWithin height).Reads (NestedBean.listJson bs) bs
  | [], _, _ => .nil
  | b :: bs, height, h => by
    rw [NestedBean.listJson, Json.itemTrees, Json.itemsHeight, Nat.max_lt] at h
    exact .cons (b.reads_decodeWithin height h.1) (NestedBean.reads_listJson bs height h.2)

end

theorem NestedBean.listJson_eq_map (bs : List NestedBean) :
    NestedBean.listJson bs = bs.map NestedBean.toJson := by
  induction bs with
  | nil => rfl
  | cons b bs ih => rw [NestedBean.listJson, ih, List.map_cons]

theorem NestedBean.reads (b : NestedBean) : NestedBean.decode.Reads b.toJson b := by
  have h := b.reads_decodeWithin (b.toJson.toTree.height + 1) (Nat.lt_succ_self _)
  exact ⟨h.legible, h.read⟩

theorem BeanKind.reads {kind : BeanKind} {fields : List (String × Json)}
    (h : kind.fields? = some fields) : BeanKind.decode.Reads (.object fields) kind := by
  cases kind with
  | module type sockets =>
    obtain ⟨items, hitems, h⟩ := Option.bind_eq_some_iff.1 h
    cases h
    have hread := Decoder.reads_list (forall₂_reads_mapM (fun _ _ => Socket.reads) hitems)
    have hrecord : Decoder.Reads (Record.decode
        { title := "struct variant BeanKind::Module"
          fields :=
            [("exposed_type", TypeExpr.decode.into fun type v => (type, v.2)),
              ("sockets", (Decoder.list Socket.decode).into fun sockets v => (v.1, sockets))]
          required := ["exposed_type"] } (default, []))
        (.object [("exposed_type", type.toJson), ("sockets", .array items)]) (type, sockets) :=
      Record.reads (.field type.reads (.field hread (.nil _))) (by simp) (by simp)
    exact Decoder.reads_tagged (by simp) (by simp) hrecord rfl rfl
  | socket s =>
    obtain ⟨j, hj, h⟩ := Option.bind_eq_some_iff.1 h
    cases h
    have hrecord : Decoder.Reads (Record.decode
        { title := "struct variant BeanKind::Socket"
          fields := [("socket", Socket.decode.into fun socket _ => socket)]
          required := ["socket"] } { name := "", required := default })
        (.object [("socket", j)]) s :=
      Record.reads (.field (Socket.reads hj) (.nil _)) (by simp) (by simp)
    exact Decoder.reads_tagged (by simp) (by simp) hrecord rfl rfl

namespace Bean

/-- The fields of a kind are none of the bean's own. -/
theorem lookup_ownFields_eq_none {kind : BeanKind} {fields : List (String × Json)}
    (h : kind.fields? = some fields) : ∀ field ∈ fields, ownFields.lookup field.1 = none := by
  cases kind with
  | module type sockets =>
    obtain ⟨items, _, h⟩ := Option.bind_eq_some_iff.1 h
    cases h
    simp [ownFields]
  | socket s =>
    obtain ⟨j, _, h⟩ := Option.bind_eq_some_iff.1 h
    cases h
    simp [ownFields]

theorem readFields_foreign {source : Json.Source} {fields : List (String × Json)}
    (h : ∀ field ∈ fields, ownFields.lookup field.1 = none)
    (hs : source.Allows (Json.fieldsHeight (Json.fieldTrees fields))) (b : Bean)
    (seen : List String) :
    readFields source b seen (Json.fieldTrees fields) = .ok (b, seen, Json.fieldTrees fields) := by
  induction fields with
  | nil => rfl
  | cons field fields ih =>
    obtain ⟨key, value⟩ := field
    rw [Json.fieldTrees, Json.fieldsHeight] at hs
    rw [Json.fieldTrees, readFields, h _ List.mem_cons_self,
      Json.hold_toTree value source (hs.mono (Nat.le_max_left _ _)),
      ih (fun field hfield => h field (List.mem_cons_of_mem _ hfield))
        (hs.mono (Nat.le_max_right _ _))]
    rfl

theorem readFields_step {source : Json.Source} {b : Bean} {seen : List String} {key : String}
    {t : Json.Tree} {decode : Decoder (Bean → Bean)} {put : Bean → Bean}
    (hlookup : ownFields.lookup key = some decode) (hnew : key ∉ seen)
    (hput : decode source t = .ok put) (rest : List Json.Field) :
    readFields source b seen ((some key, t) :: rest) =
      readFields source (put b) (key :: seen) rest := by
  rw [readFields, hlookup]
  simp only [if_neg hnew, hput]
  rfl

/-- The fields that do not hang on the kind of the bean, as they are written. -/
def ownJson (b : Bean) : List (String × Json) :=
  [("name", .string b.name), ("visibility", .string b.visibility.text),
    ("strategy", .string b.strategy.text)] ++
    (Json.nonemptyField "annotations" (stringsJson b.annotations) ++
      (Json.nonemptyField "nested" (NestedBean.listJson b.nested) ++
        [("overridable", .bool b.overridable)]))

theorem fills_ownJson (b : Bean) (kind : BeanKind) :
    Record.Fills ownFields b.ownJson { name := "", kind } { b with kind } := by
  have hnested : List.Forall₂ NestedBean.decode.Reads (NestedBean.listJson b.nested) b.nested := by
    rw [NestedBean.listJson_eq_map]
    exact Decoder.forall₂_reads_map NestedBean.reads b.nested
  exact .field (Decoder.reads_string b.name) <| .field b.visibility.reads <|
    .field b.strategy.reads <| .list (forall₂_reads_strings b.annotations) rfl <|
    .list hnested rfl <| .field (Decoder.reads_bool b.overridable) (.nil _)

theorem reads {b : Bean} {j : Json} (h : b.toJson? = some j) : decode.Reads j b := by
  obtain ⟨kind, hkind, h⟩ := Option.bind_eq_some_iff.1 h
  have hj : j = .object (b.ownJson ++ kind) := by
    cases h
    simp [ownJson]
  have hown := b.fills_ownJson (.module default [])
  have hreads := BeanKind.reads hkind
  rw [hj]
  refine ⟨Json.legibleFields_append.2 ⟨hown.legible, hreads.legible⟩, fun source hs => ?_⟩
  rw [Json.height_object, Json.fieldTrees_append, Json.fieldsHeight_append] at hs
  obtain ⟨inner, henter, hinner⟩ := hs.enter
  -- the own fields come first, and what follows them is handed to the reader of the kind
  have hfields : readFields inner { name := "", kind := .module default [] } []
      (Json.fieldTrees b.ownJson ++ Json.fieldTrees kind) =
      .ok ({ b with kind := .module default [] }, (b.ownJson.map (·.1)).reverse,
        Json.fieldTrees kind) := by
    rw [Record.Fills.run [] (f := readFields inner)
      (fun b seen key t decode put rest hlookup hnew hput =>
        readFields_step hlookup hnew hput rest)
      hown (by simp) (List.nil_subset _) (hinner.mono (Nat.le_max_left _ _)),
      readFields_foreign (lookup_ownFields_eq_none hkind) (hinner.mono (Nat.le_max_right _ _)),
      List.append_nil]
  have hname : "name" ∈ (b.ownJson.map (·.1)).reverse := by simp [ownJson]
  have hkindRead := hreads.read .held trivial
  rw [Json.toTree] at hkindRead
  rw [Json.toTree, Json.fieldTrees_append, decode, henter]
  show (readFields inner _ [] _ >>= _) = _
  rw [hfields]
  show (if "name" ∉ (b.ownJson.map (·.1)).reverse then _ else _) = _
  rw [if_neg (not_not_intro hname)]
  show (BeanKind.decode .held _ >>= _) = _
  rw [hkindRead]
  rfl

end Bean

/-! ### Modules and graphs -/

theorem Directive.reads (d : Directive) : Directive.decode.Reads d.toJson d :=
  Record.reads
    (.field (Decoder.reads_list (Decoder.forall₂_reads_map Name.reads d.beans))
      (.field d.into.reads (.nil _)))
    (by simp) (by simp)

theorem Module.reads {m : Module} {j : Json} (h : m.toJson? = some j) :
    Module.decode.Reads j m := by
  obtain ⟨beans, hbeans, h⟩ := Option.bind_eq_some_iff.1 h
  cases h
  have hread := Decoder.reads_list (forall₂_reads_mapM (fun _ _ => Bean.reads) hbeans)
  refine Record.reads ?_ (by simp) (by simp)
  rw [List.append_assoc, ← List.append_nil (Json.nonemptyField "imports" _)]
  exact .field m.name.reads <| .field hread <|
    .list (Decoder.forall₂_reads_map Directive.reads m.directives) rfl <|
    .list (Decoder.forall₂_reads_map Name.reads m.imports) rfl (.nil _)

theorem Graph.reads {g : Graph} {j : Json} (h : g.toJson? = some j) : Graph.decode.Reads j g := by
  obtain ⟨modules, hmodules, h⟩ := Option.bind_eq_some_iff.1 h
  cases h
  have hread := Decoder.reads_list (forall₂_reads_mapM (fun _ _ => Module.reads) hmodules)
  exact Record.reads
    (.field (Decoder.reads_list (Decoder.forall₂_reads_map TypeDeclaration.reads g.types))
      (.field hread (.nil _)))
    (by simp) (by simp)

end Wiring
