import Wiring.Proofs.Document.Graph
import Wiring.Proofs.Json.Depth

/-! What is read is never written deeper: the parts of an accepted graph have a written form, and it
nests no more levels than were entered to read them.  The lists that are always written count for
two levels of a module or a declaration of a type, even where they were not there. -/

namespace Wiring

open Json (Decoder Adjacent Record)

/-! ### Types -/

theorem TypeArg.listJson_eq_map (args : List TypeArg) :
    TypeArg.listJson args = args.map TypeArg.toJson := by
  induction args with
  | nil => rfl
  | cons a as ih => rw [TypeArg.listJson, ih, List.map_cons]

theorem TypeArg.height_unbounded_le (n : Nat) : unbounded.toJson.toTree.height ≤ n + 1 := by
  rw [TypeArg.toJson]
  exact Json.height_object_le_iff.2 (by simp)

theorem TypeArg.yields {type : Decoder TypeExpr}
    (h : type.Yields fun n t => t.toJson.toTree.height ≤ n) :
    (TypeArg.decodeWith type).Yields fun n a => a.toJson.toTree.height ≤ n := by
  have hdecode : (TypeArg.decodeWith type).Yields fun n a =>
      ∃ m, n = m + 1 ∧ a.toJson.toTree.height ≤ m + 1 := by
    refine Adjacent.yields_decode (fun name source u n a hw ha => ?_) fun name n a ha => ?_
    · dsimp only at ha
      split at ha
      case h_1 | h_2 | h_3 =>
        obtain ⟨t, ht, rfl⟩ := exists_of_map_ok ha
        exact Nat.le_trans (Nat.le_of_eq (TypeArg.height_bounded _ t))
          (Nat.succ_le_succ (h source u n t hw ht))
      case h_4 =>
        rw [Decoder.yields_unit _ _ source u n a hw ha]
        exact TypeArg.height_unbounded_le n
    · dsimp only at ha
      split_ifs at ha
      cases ha
      exact TypeArg.height_unbounded_le n
  intro source t n a hw ha
  obtain ⟨m, rfl, hm⟩ := hdecode source t n a hw ha
  exact hm

theorem TypeArg.height_args_le {args : List TypeArg} {n : Nat}
    (h : ∀ a ∈ args, a.toJson.toTree.height ≤ n) :
    ∀ field ∈ Json.nonemptyField "args" (TypeArg.listJson args),
      field.2.toTree.height ≤ n + 1 := by
  rw [TypeArg.listJson_eq_map]
  exact Json.height_nonemptyField_le (List.forall_mem_map.2 h)

theorem TypeExpr.height_named_le (kind name : String) {title : String} {u : Json.Tree} {n : Nat}
    (hu : u.height ≤ n) (h : TypeExpr.decodeWithin.named title u = .ok name) :
    (Json.object [("kind", .string kind), ("name", .string name)]).toTree.height ≤ n := by
  obtain ⟨m, rfl⟩ := Record.exists_level (show Json.Source.held.Within u n from hu) h
  exact Json.height_object_le_iff.2 (by simp)

theorem TypeExpr.yields_decodeWithin (height : Nat) :
    (TypeExpr.decodeWithin height).Yields fun n t => t.toJson.toTree.height ≤ n := by
  induction height with
  | zero => exact fun _ _ _ _ _ h => by cases h
  | succ height ih =>
    rw [TypeExpr.decodeWithin]
    refine Decoder.yields_tagged fun name u n t hu h => ?_
    dsimp only at h
    split at h
    · obtain ⟨⟨name, args⟩, hrecord, h⟩ := bind_eq_ok_iff.1 h
      cases h
      obtain ⟨m, seen, rfl, hargs, -⟩ := Record.yields_decode
        (fun m _ v => ∀ field ∈ Json.nonemptyField "args" (TypeArg.listJson v.2),
          field.2.toTree.height ≤ m)
        (fun _ => by simp [TypeArg.listJson, Json.nonemptyField])
        (fun m => by
          simp only [List.forall_mem_cons]
          refine ⟨?name, ?args, by simp⟩
          case name => exact Record.keeps_into (Decoder.yields_trivial _) fun _ _ _ _ h => h
          case args =>
            refine Record.keeps_into (TypeArg.yields ih).list fun args _ _ hargs _ => ?_
            obtain ⟨k, rfl, hk⟩ := hargs
            exact TypeArg.height_args_le hk)
        .held u n _ hu hrecord
      rw [TypeExpr.toJson, Json.height_object_le_iff]
      simpa using hargs
    · obtain ⟨component, hrecord, h⟩ := bind_eq_ok_iff.1 h
      cases h
      obtain ⟨m, seen, rfl, hcomponent, hseen⟩ := Record.yields_decode
        (fun m seen t => Record.WhenSeen "component" seen (t.toJson.toTree.height ≤ m))
        (fun _ => .blank)
        (fun m => by
          simp only [List.forall_mem_cons]
          exact ⟨Record.keeps_into ih fun _ _ _ h _ => .now h, by simp⟩)
        .held u n _ hu hrecord
      rw [TypeExpr.toJson, Json.height_object_le_iff]
      simpa using hcomponent (hseen (by simp))
    · obtain ⟨name, hname, h⟩ := bind_eq_ok_iff.1 h
      cases h
      exact TypeExpr.height_named_le "variable" name hu hname
    · obtain ⟨name, hname, h⟩ := bind_eq_ok_iff.1 h
      cases h
      exact TypeExpr.height_named_le "unresolved" name hu hname

theorem TypeExpr.yields : TypeExpr.decode.Yields fun n t => t.toJson.toTree.height ≤ n :=
  fun source t => TypeExpr.yields_decodeWithin (t.height + 1) source t

theorem TypeExpr.one_le_height : ∀ t : TypeExpr, 1 ≤ t.toJson.toTree.height
  | .declared _ _ | .array _ | .variable _ | .unresolved _ => Nat.succ_pos _

theorem TypeDeclaration.yields :
    TypeDeclaration.decode.Yields fun n d => d.toJson.toTree.height ≤ max n 2 := by
  intro source t n d hw h
  obtain ⟨m, seen, rfl, hsupertypes, -⟩ := Record.yields_decode
    (fun m _ d => ∀ t ∈ d.supertypes, t.toJson.toTree.height + 1 ≤ m)
    (by simp)
    (fun m => by
      simp only [List.forall_mem_cons]
      refine ⟨?name, ?parameters, ?supertypes, by simp⟩
      case name | parameters =>
        exact Record.keeps_into (Decoder.yields_trivial _) fun _ _ _ _ h => h
      case supertypes =>
        refine Record.keeps_into TypeExpr.yields.list fun _ _ _ hsupertypes _ => ?_
        obtain ⟨k, rfl, hk⟩ := hsupertypes
        exact fun t ht => Nat.succ_le_succ (hk t ht))
    source t n d hw h
  obtain ⟨k, hk⟩ : ∃ k, max (m + 1) 2 = k + 2 := ⟨max (m + 1) 2 - 2, by omega⟩
  rw [hk, TypeDeclaration.toJson]
  refine Json.height_object_le_iff.2 ?_
  simp only [List.forall_mem_cons]
  refine ⟨Nat.zero_le _, Json.height_array_le_iff.2 ?_, Json.height_array_le_iff.2 ?_, by simp⟩
  · rw [List.forall_mem_map]
    exact fun _ _ => Nat.zero_le _
  · rw [List.forall_mem_map]
    intro t ht
    have := hsupertypes t ht
    omega

/-! ### Selectors and sockets -/

/-- A list is written when each of its members is. -/
theorem yields_mapM {α : Type} {item : Decoder α} {write? : α → Option Json} {bound : Nat → Nat}
    (h : item.Yields fun n a => ∃ j, write? a = some j ∧ j.toTree.height ≤ bound n) :
    (Decoder.list item).Yields fun n as =>
      ∃ m js, n = m + 1 ∧ as.mapM write? = some js ∧ ∀ j ∈ js, j.toTree.height ≤ bound m := by
  intro source t n as hw has
  obtain ⟨m, hn, hm⟩ := h.list source t n as hw has
  clear has
  suffices hwritten : ∃ js, as.mapM write? = some js ∧ ∀ j ∈ js, j.toTree.height ≤ bound m from
    hwritten.elim fun js hjs => ⟨m, js, hn, hjs⟩
  induction as with
  | nil => exact ⟨[], rfl, by simp⟩
  | cons a as ih =>
    rw [List.forall_mem_cons] at hm
    obtain ⟨⟨j, hj, hheight⟩, hm⟩ := hm
    obtain ⟨js, hjs, hheights⟩ := ih hm
    refine ⟨j :: js, ?_, List.forall_mem_cons.2 ⟨hheight, hheights⟩⟩
    rw [List.mapM_cons, hj, hjs]
    rfl

theorem Selector.height_le {tag name key text variant field : String} {u : Json.Tree} {n : Nat}
    (hu : u.height ≤ n) (h : Selector.decode.text variant field u = .ok text) :
    (Json.object [(tag, .string name), (key, .string text)]).toTree.height ≤ n := by
  obtain ⟨m, rfl⟩ := Record.exists_level (show Json.Source.held.Within u n from hu) h
  exact Json.height_object_le_iff.2 (by simp)

theorem Selector.yields :
    Selector.decode.Yields fun n s => ∃ j, s.toJson? = some j ∧ j.toTree.height ≤ n := by
  refine Decoder.yields_tagged fun name u n s hu h => ?_
  dsimp only at h
  split at h
  · obtain ⟨marker, hmarker, h⟩ := bind_eq_ok_iff.1 h
    cases h
    exact ⟨_, rfl, Selector.height_le hu hmarker⟩
  · obtain ⟨pattern, hpattern, h⟩ := bind_eq_ok_iff.1 h
    cases h
    exact ⟨_, rfl, Selector.height_le hu hpattern⟩

theorem Mutator.yields : Mutator.decode.Yields fun n m => m.toJson.toTree.height ≤ n := by
  intro source t n m hw h
  obtain ⟨k, seen, rfl, ⟨hinput, houtput⟩, hseen⟩ := Record.yields_decode
    (fun n seen (m : Mutator) =>
      Record.WhenSeen "input" seen (m.input.toJson.toTree.height ≤ n) ∧
      Record.WhenSeen "output" seen (m.output.toJson.toTree.height ≤ n))
    (fun _ => ⟨.blank, .blank⟩)
    (fun n => by
      simp only [List.forall_mem_cons]
      exact ⟨Record.keeps_into TypeExpr.yields fun _ _ _ hn h => ⟨.now hn, h.2.later (by decide)⟩,
        Record.keeps_into TypeExpr.yields fun _ _ _ hn h => ⟨h.1.later (by decide), .now hn⟩,
        Record.keeps_into (Decoder.yields_trivial _) fun _ _ _ _ h =>
          ⟨h.1.later (by decide), h.2.later (by decide)⟩,
        by simp⟩)
    source t n m hw h
  rw [Mutator.toJson, Json.height_object_le_iff]
  simpa using And.intro (hinput (hseen (by simp))) (houtput (hseen (by simp)))

/-- What is known of a socket some of whose fields have been read within `n` levels. -/
structure Socket.Known (n : Nat) (seen : List String) (s : Socket) : Prop where
  required : Record.WhenSeen "required_type" seen (s.required.toJson.toTree.height ≤ n)
  selectors : ∃ js, s.selectors.mapM Selector.toJson? = some js ∧
    ∀ field ∈ Json.nonemptyField "selectors" js, field.2.toTree.height ≤ n
  mutator : ∀ m ∈ s.mutator?, m.toJson.toTree.height ≤ n

theorem Socket.yields :
    Socket.decode.Yields fun n s => ∃ j, s.toJson? = some j ∧ j.toTree.height ≤ n := by
  intro source t n s hw h
  obtain ⟨m, seen, rfl, hs, hseen⟩ := Record.yields_decode Socket.Known
    (fun _ => ⟨.blank, ⟨[], rfl, by simp [Json.nonemptyField]⟩, by simp⟩)
    (fun n => by
      simp only [List.forall_mem_cons]
      refine ⟨?name, ?required_type, ?optional, ?selectors, ?mutator, by simp⟩
      case name | optional =>
        exact Record.keeps_into (Decoder.yields_trivial _) fun _ _ _ _ h =>
          ⟨h.required.later (by decide), h.selectors, h.mutator⟩
      case required_type =>
        exact Record.keeps_into TypeExpr.yields fun _ _ _ hn h => ⟨.now hn, h.selectors, h.mutator⟩
      case selectors =>
        refine Record.keeps_into (yields_mapM Selector.yields) fun _ _ _ hselectors h =>
          ⟨h.required.later (by decide), ?_, h.mutator⟩
        obtain ⟨k, js, rfl, hjs, hk⟩ := hselectors
        exact ⟨js, hjs, Json.height_nonemptyField_le hk⟩
      case mutator =>
        exact Record.keeps_into Mutator.yields.nullable fun _ _ _ hn h =>
          ⟨h.required.later (by decide), h.selectors, hn⟩)
    source t n s hw h
  obtain ⟨js, hjs, hselectors⟩ := hs.selectors
  refine ⟨_, by rw [Socket.toJson?, hjs]; rfl, Json.height_object_le_iff.2 ?_⟩
  simp only [List.forall_mem_append, List.forall_mem_cons]
  refine ⟨⟨⟨Nat.zero_le _, hs.required (hseen (by simp)), Nat.zero_le _, by simp⟩, hselectors⟩, ?_⟩
  cases hmutator : s.mutator? with
  | none => simp [Json.field?]
  | some m => simpa [Json.field?] using hs.mutator m hmutator

/-! ### Beans -/

theorem height_strings_le {key : String} {n : Nat} {texts : List String}
    (h : ∃ m, n = m + 1 ∧ ∀ text ∈ texts, True) :
    ∀ field ∈ Json.nonemptyField key (stringsJson texts), field.2.toTree.height ≤ n := by
  obtain ⟨m, rfl, -⟩ := h
  exact Json.height_nonemptyField_le (List.forall_mem_map.2 fun _ _ => Nat.zero_le _)

theorem NestedBean.height_nested_le {n : Nat} {bs : List NestedBean}
    (h : ∃ m, n = m + 1 ∧ ∀ b ∈ bs, b.toJson.toTree.height ≤ m) :
    ∀ field ∈ Json.nonemptyField "nested" (NestedBean.listJson bs), field.2.toTree.height ≤ n := by
  obtain ⟨m, rfl, h⟩ := h
  rw [NestedBean.listJson_eq_map]
  exact Json.height_nonemptyField_le (List.forall_mem_map.2 h)

/-- What is known of a nested bean some of whose fields have been read within `n` levels. -/
structure NestedBean.Known (n : Nat) (seen : List String) (b : NestedBean) : Prop where
  type : Record.WhenSeen "exposed_type" seen (b.type.toJson.toTree.height ≤ n)
  annotations : ∀ field ∈ Json.nonemptyField "annotations" (stringsJson b.annotations),
    field.2.toTree.height ≤ n
  nested : ∀ field ∈ Json.nonemptyField "nested" (NestedBean.listJson b.nested),
    field.2.toTree.height ≤ n

theorem NestedBean.yields_decodeWithin (height : Nat) :
    (NestedBean.decodeWithin height).Yields fun n b => b.toJson.toTree.height ≤ n := by
  induction height with
  | zero => exact fun _ _ _ _ _ h => by cases h
  | succ height ih =>
    intro source t n b hw h
    obtain ⟨m, seen, rfl, hb, hseen⟩ := Record.yields_decode NestedBean.Known
      (fun _ => ⟨.blank, by simp [stringsJson, Json.nonemptyField],
        by simp [NestedBean.listJson, Json.nonemptyField]⟩)
      (fun n => by
        simp only [List.forall_mem_cons]
        refine ⟨?name, ?exposed_type, ?annotations, ?nested, by simp⟩
        case name =>
          exact Record.keeps_into (Decoder.yields_trivial _) fun _ _ _ _ h =>
            ⟨h.type.later (by decide), h.annotations, h.nested⟩
        case exposed_type =>
          exact Record.keeps_into TypeExpr.yields fun _ _ _ hn h =>
            ⟨.now hn, h.annotations, h.nested⟩
        case annotations =>
          exact Record.keeps_into (Decoder.yields_trivial _).list fun _ _ _ hn h =>
            ⟨h.type.later (by decide), height_strings_le hn, h.nested⟩
        case nested =>
          exact Record.keeps_into ih.list fun _ _ _ hn h =>
            ⟨h.type.later (by decide), h.annotations, NestedBean.height_nested_le hn⟩)
      source t n b hw h
    obtain ⟨name, type, annotations, nested⟩ := b
    rw [NestedBean.toJson, Json.height_object_le_iff]
    simp only [List.forall_mem_append, List.forall_mem_cons]
    exact ⟨⟨⟨Nat.zero_le _, hb.type (hseen (by simp)), by simp⟩, hb.annotations⟩, hb.nested⟩

theorem NestedBean.yields : NestedBean.decode.Yields fun n b => b.toJson.toTree.height ≤ n :=
  fun source t => NestedBean.yields_decodeWithin (t.height + 1) source t

theorem BeanKind.yields : BeanKind.decode.Yields fun n kind =>
    ∃ fields, kind.fields? = some fields ∧ (Json.object fields).toTree.height ≤ n := by
  refine Decoder.yields_tagged fun name u n kind hu h => ?_
  dsimp only at h
  split at h
  · obtain ⟨⟨type, sockets⟩, hrecord, h⟩ := bind_eq_ok_iff.1 h
    cases h
    obtain ⟨m, seen, rfl, ⟨htype, js, hjs, hsockets⟩, hseen⟩ := Record.yields_decode
      (fun n seen (v : TypeExpr × List Socket) =>
        Record.WhenSeen "exposed_type" seen (v.1.toJson.toTree.height ≤ n) ∧
        ∃ js, v.2.mapM Socket.toJson? = some js ∧ ∀ j ∈ js, j.toTree.height + 1 ≤ n)
      (fun _ => ⟨.blank, [], rfl, by simp⟩)
      (fun n => by
        simp only [List.forall_mem_cons]
        refine ⟨?exposed_type, ?sockets, by simp⟩
        case exposed_type =>
          exact Record.keeps_into TypeExpr.yields fun _ _ _ hn h => ⟨.now hn, h.2⟩
        case sockets =>
          refine Record.keeps_into (yields_mapM Socket.yields) fun _ _ _ hsockets h =>
            ⟨h.1.later (by decide), ?_⟩
          obtain ⟨k, js, rfl, hjs, hk⟩ := hsockets
          exact ⟨js, hjs, fun j hj => Nat.succ_le_succ (hk j hj)⟩)
      .held u n _ hu hrecord
    refine ⟨_, by rw [BeanKind.fields?, hjs]; rfl, Json.height_object_le_iff.2 ?_⟩
    -- an empty list of sockets is no higher than the type beside it
    have hlevel := Nat.le_trans type.one_le_height (htype (hseen (by simp)))
    obtain ⟨k, rfl⟩ : ∃ k, m = k + 1 := ⟨m - 1, by omega⟩
    simp only [List.forall_mem_cons]
    exact ⟨Nat.zero_le _, htype (hseen (by simp)),
      Json.height_array_le_iff.2 fun j hj => Nat.le_of_succ_le_succ (hsockets j hj), by simp⟩
  · obtain ⟨s, hrecord, h⟩ := bind_eq_ok_iff.1 h
    cases h
    obtain ⟨m, seen, rfl, hs, hseen⟩ := Record.yields_decode
      (fun n seen (s : Socket) =>
        Record.WhenSeen "socket" seen (∃ j, s.toJson? = some j ∧ j.toTree.height ≤ n))
      (fun _ => .blank)
      (fun n => by
        simp only [List.forall_mem_cons]
        exact ⟨Record.keeps_into Socket.yields fun _ _ _ hn _ => .now hn, by simp⟩)
      .held u n _ hu hrecord
    obtain ⟨j, hj, hheight⟩ := hs (hseen (by simp))
    refine ⟨_, by rw [BeanKind.fields?, hj]; rfl, Json.height_object_le_iff.2 ?_⟩
    simpa using hheight

namespace Bean

/-- What is known of a bean some of whose own fields have been read within `n` levels. -/
structure Known (n : Nat) (b : Bean) : Prop where
  annotations : ∀ field ∈ Json.nonemptyField "annotations" (stringsJson b.annotations),
    field.2.toTree.height ≤ n
  nested : ∀ field ∈ Json.nonemptyField "nested" (NestedBean.listJson b.nested),
    field.2.toTree.height ≤ n

theorem keeps_ownFields (n : Nat) :
    ∀ field ∈ ownFields, Record.Keeps (fun _ => Known n) n field := by
  simp only [ownFields, List.forall_mem_cons]
  refine ⟨?name, ?visibility, ?strategy, ?annotations, ?nested, ?overridable, by simp⟩
  case name | visibility | strategy | overridable =>
    exact Record.keeps_into (Decoder.yields_trivial _) fun _ _ _ _ h => ⟨h.annotations, h.nested⟩
  case annotations =>
    exact Record.keeps_into (Decoder.yields_trivial _).list fun _ _ _ hn h =>
      ⟨height_strings_le hn, h.nested⟩
  case nested =>
    exact Record.keeps_into NestedBean.yields.list fun _ _ _ hn h =>
      ⟨h.annotations, NestedBean.height_nested_le hn⟩

theorem known_readFields {source : Json.Source} {n : Nat} {fields others : List Json.Field}
    (hw : ∀ field ∈ fields, source.Within field.2 n) {b b' : Bean} {seen seen' : List String}
    (hb : b.Known n) (h : readFields source b seen fields = .ok (b', seen', others)) :
    b'.Known n ∧ Json.fieldsHeight others ≤ n := by
  induction fields generalizing b seen others with
  | nil =>
    cases h
    exact ⟨hb, Nat.zero_le _⟩
  | cons field fields ih =>
    obtain ⟨key?, t⟩ := field
    rw [List.forall_mem_cons] at hw
    cases key? with
    | none => cases h
    | some key =>
      rw [readFields] at h
      cases hlookup : ownFields.lookup key with
      | none =>
        rw [hlookup] at h
        obtain ⟨_, hheld, h⟩ := bind_eq_ok_iff.1 h
        obtain ⟨⟨_, _, rest⟩, hrest, h⟩ := bind_eq_ok_iff.1 h
        cases h
        obtain ⟨hb', hothers⟩ := ih hw.2 hb hrest
        exact ⟨hb', Nat.max_le.2 ⟨Json.height_le_of_hold t hw.1 hheld, hothers⟩⟩
      | some decode =>
        rw [hlookup] at h
        split_ifs at h with hseen
        obtain ⟨put, hput, h⟩ := bind_eq_ok_iff.1 h
        have hkeeps := keeps_ownFields n _ (mem_of_lookup hlookup)
        exact ih hw.2 (hkeeps source t put seen b hw.1 hput hb) h

theorem yields : decode.Yields fun n b => ∃ j, b.toJson? = some j ∧ j.toTree.height ≤ n := by
  intro source t n b hw h
  cases t with
  | object fields fault? =>
    obtain ⟨inner, henter, h⟩ := bind_eq_ok_iff.1 h
    obtain ⟨⟨own, seen, others⟩, hread, h⟩ := bind_eq_ok_iff.1 h
    obtain ⟨_, _, h⟩ := bind_eq_ok_iff.1 h
    obtain ⟨m, rfl, hinner⟩ := hw.enter_object henter
    have hblank : Known m { name := "", kind := .module default [] } :=
      ⟨by simp [stringsJson, Json.nonemptyField], by simp [NestedBean.listJson, Json.nonemptyField]⟩
    obtain ⟨hown, hothers⟩ := known_readFields hinner hblank hread
    dsimp only at h
    by_cases hname : "name" ∈ seen
    swap
    · rw [if_pos hname] at h
      cases h
    rw [if_neg (not_not_intro hname)] at h
    obtain ⟨kind, hkind, h⟩ := bind_eq_ok_iff.1 h
    cases h
    obtain ⟨kindFields, hkindFields, hheight⟩ :=
      BeanKind.yields .held (.object others none) (m + 1) kind (Nat.succ_le_succ hothers) hkind
    refine ⟨_, by rw [toJson?, hkindFields]; rfl, Json.height_object_le_iff.2 ?_⟩
    simp only [List.forall_mem_append, List.forall_mem_cons]
    exact ⟨⟨⟨⟨⟨Nat.zero_le _, Nat.zero_le _, Nat.zero_le _, by simp⟩, hown.annotations⟩,
      hown.nested⟩, Nat.zero_le _, by simp⟩, Json.height_object_le_iff.1 hheight⟩
  | _ => cases h

end Bean

/-! ### Modules and graphs -/

theorem Directive.yields : Directive.decode.Yields fun n d => d.toJson.toTree.height ≤ n := by
  intro source t n d hw h
  obtain ⟨m, seen, rfl, hbeans, hseen⟩ := Record.yields_decode
    (fun n seen _ => Record.WhenSeen "beans" seen (1 ≤ n))
    (fun _ => .blank)
    (fun n => by
      simp only [List.forall_mem_cons]
      refine ⟨?beans, ?into, by simp⟩
      case beans =>
        refine Record.keeps_into (Decoder.yields_trivial _).list fun _ _ _ hbeans _ => .now ?_
        obtain ⟨k, rfl, -⟩ := hbeans
        exact Nat.succ_pos k
      case into =>
        exact Record.keeps_into (Decoder.yields_trivial _) fun _ _ _ _ h => h.later (by decide))
    source t n d hw h
  obtain ⟨k, rfl⟩ : ∃ k, m = k + 1 := ⟨m - 1, by have := hbeans (hseen (by simp)); omega⟩
  rw [Directive.toJson, Json.height_object_le_iff]
  simp only [List.forall_mem_cons]
  refine ⟨Json.height_array_le_iff.2 ?_, Nat.zero_le _, by simp⟩
  rw [List.forall_mem_map]
  exact fun _ _ => Nat.zero_le _

/-- What is known of a module some of whose fields have been read within `n` levels. -/
structure Module.Known (n : Nat) (m : Module) : Prop where
  beans : ∃ js, m.beans.mapM Bean.toJson? = some js ∧ ∀ j ∈ js, j.toTree.height + 1 ≤ n
  directives : ∀ field ∈ Json.nonemptyField "directives" (m.directives.map Directive.toJson),
    field.2.toTree.height ≤ n
  imports : ∀ field ∈ Json.nonemptyField "imports" (m.imports.map Name.toJson),
    field.2.toTree.height ≤ n

theorem Module.yields :
    Module.decode.Yields fun n m => ∃ j, m.toJson? = some j ∧ j.toTree.height ≤ max n 2 := by
  intro source t n m hw h
  obtain ⟨k, seen, rfl, hm, -⟩ := Record.yields_decode (fun n _ => Module.Known n)
    (fun _ => ⟨⟨[], rfl, by simp⟩, by simp [Json.nonemptyField], by simp [Json.nonemptyField]⟩)
    (fun n => by
      simp only [List.forall_mem_cons]
      refine ⟨?name, ?beans, ?directives, ?imports, by simp⟩
      case name =>
        exact Record.keeps_into (Decoder.yields_trivial _) fun _ _ _ _ h =>
          ⟨h.beans, h.directives, h.imports⟩
      case beans =>
        refine Record.keeps_into (yields_mapM Bean.yields) fun _ _ _ hbeans h =>
          ⟨?_, h.directives, h.imports⟩
        obtain ⟨k, js, rfl, hjs, hk⟩ := hbeans
        exact ⟨js, hjs, fun j hj => Nat.succ_le_succ (hk j hj)⟩
      case directives =>
        refine Record.keeps_into Directive.yields.list fun _ _ _ hdirectives h =>
          ⟨h.beans, ?_, h.imports⟩
        obtain ⟨k, rfl, hk⟩ := hdirectives
        exact Json.height_nonemptyField_le (List.forall_mem_map.2 hk)
      case imports =>
        refine Record.keeps_into (Decoder.yields_trivial _).list fun _ _ _ himports h =>
          ⟨h.beans, h.directives, ?_⟩
        obtain ⟨k, rfl, -⟩ := himports
        exact Json.height_nonemptyField_le (List.forall_mem_map.2 fun _ _ => Nat.zero_le _))
    source t n m hw h
  obtain ⟨js, hjs, hbeans⟩ := hm.beans
  obtain ⟨l, hl⟩ : ∃ l, max (k + 1) 2 = l + 2 := ⟨max (k + 1) 2 - 2, by omega⟩
  have hkl : k ≤ l + 1 := by omega
  refine ⟨_, by rw [Module.toJson?, hjs]; rfl, ?_⟩
  rw [hl]
  refine Json.height_object_le_iff.2 ?_
  simp only [List.forall_mem_append, List.forall_mem_cons]
  exact ⟨⟨⟨Nat.zero_le _, Json.height_array_le_iff.2 fun j hj => by have := hbeans j hj; omega,
    by simp⟩, fun field hfield => Nat.le_trans (hm.directives field hfield) hkl⟩,
    fun field hfield => Nat.le_trans (hm.imports field hfield) hkl⟩

/-- What is known of a graph some of whose fields have been read within `n` levels. -/
structure Graph.Known (n : Nat) (g : Graph) : Prop where
  types : ∀ d ∈ g.types, d.toJson.toTree.height + 1 ≤ max n 3
  modules : ∃ js, g.modules.mapM Module.toJson? = some js ∧
    ∀ j ∈ js, j.toTree.height + 1 ≤ max n 3

theorem Graph.yields :
    Graph.decode.Yields fun n g => ∃ j, g.toJson? = some j ∧ j.toTree.height ≤ max n 4 := by
  intro source t n g hw h
  obtain ⟨k, seen, rfl, hg, -⟩ := Record.yields_decode (fun n _ => Graph.Known n)
    (fun _ => ⟨by simp, ⟨[], rfl, by simp⟩⟩)
    (fun n => by
      simp only [List.forall_mem_cons]
      refine ⟨?types, ?modules, by simp⟩
      case types =>
        refine Record.keeps_into TypeDeclaration.yields.list fun _ _ _ htypes h =>
          ⟨fun d hd => ?_, h.modules⟩
        obtain ⟨k, hn, hk⟩ := htypes
        have := hk d hd
        omega
      case modules =>
        refine Record.keeps_into (yields_mapM Module.yields) fun _ _ _ hmodules h => ⟨h.types, ?_⟩
        obtain ⟨k, js, hn, hjs, hk⟩ := hmodules
        refine ⟨js, hjs, fun j hj => ?_⟩
        have := hk j hj
        omega)
    source t n g hw h
  obtain ⟨js, hjs, hmodules⟩ := hg.modules
  obtain ⟨l, hl⟩ : ∃ l, max (k + 1) 4 = l + 2 := ⟨max (k + 1) 4 - 2, by omega⟩
  refine ⟨_, by rw [Graph.toJson?, hjs]; rfl, ?_⟩
  rw [hl]
  refine Json.height_object_le_iff.2 ?_
  simp only [List.forall_mem_cons]
  refine ⟨Json.height_array_le_iff.2 ?_, Json.height_array_le_iff.2 fun j hj => ?_, by simp⟩
  · rw [List.forall_mem_map]
    intro d hd
    have := hg.types d hd
    omega
  · have := hmodules j hj
    omega

end Wiring
