import Wiring.Proofs.Name.Building

/-! The ways of building a name agree.  Segments given at once, one after the other or in one text
give the same name, or the same fault; the segments of a name give the name back. -/

namespace Wiring.Name

/-! ### Segments at once and step by step -/

theorem ofBean_eq_steps (module bean : String) :
    ofBean module bean = ofModule module >>= fun n => n.withBean bean := by
  rw [ofBean, ofModule]
  cases readPath module.toList <;> rfl

theorem ofSocket_eq_steps (module bean socket : String) :
    ofSocket module bean socket =
      ofBean module bean >>= fun n => n.withSocket socket := by
  rw [ofSocket, ofBean]
  cases readPath module.toList with
  | error fault => rfl
  | ok p => cases readPath bean.toList <;> rfl

/-- Texts without colons are the segments of the text that has colons between them. -/
theorem pieces_segments (segments : List String) (h : ∀ t ∈ segments, ':' ∉ t.toList)
    (hne : segments ≠ []) :
    Text.pieces ':' (":".intercalate segments).toList = segments.map String.toList := by
  rw [String.toList_intercalate]
  exact Text.pieces_intercalate (List.forall_mem_map.2 h) (by simpa using hne)

section

variable {module bean socket : String} (hm : ':' ∉ module.toList)
include hm

theorem parse_module : parse module = ofModule module := by
  have hpieces := pieces_segments [module] (by simpa using hm) (by simp)
  rw [String.intercalate_singleton] at hpieces
  rw [parse, hpieces]
  rfl

variable (hb : ':' ∉ bean.toList)
include hb

theorem parse_bean : parse (module ++ ":" ++ bean) = ofBean module bean := by
  have hpieces := pieces_segments [module, bean] (by simp [hm, hb]) (by simp)
  rw [String.intercalate_cons_cons, String.intercalate_singleton] at hpieces
  rw [parse, hpieces]
  rfl

theorem parse_socket (hs : ':' ∉ socket.toList) :
    parse (module ++ ":" ++ bean ++ ":" ++ socket) = ofSocket module bean socket := by
  have hpieces := pieces_segments [module, bean, socket] (by simp [hm, hb, hs]) (by simp)
  rw [String.intercalate_cons_cons, String.intercalate_cons_cons, String.intercalate_singleton]
    at hpieces
  simp only [← String.append_assoc] at hpieces
  rw [parse, hpieces]
  rfl

end

/-! ### Segments of names -/

/-- The name of a module, of a bean or of a socket, whichever the segments are for. -/
def ofSegments (m : String) : (b? s? : Option String) → Except Fault Name
  | none, _ => ofModule m
  | some b, none => ofBean m b
  | some b, some s => ofSocket m b s

theorem ofSegments_eq_self (n : Name) :
    ofSegments n.modulePath.text (n.beanPath?.map Path.text) (n.socketPart?.map (·.text)) =
      .ok n := by
  cases n with
  | module p =>
    show ofModule p.text = _
    rw [ofModule, readPath_text]
    rfl
  | bean p q =>
    show ofBean p.text q.text = _
    rw [ofBean, readPath_text, readPath_text]
    rfl
  | socket p q i =>
    show ofSocket p.text q.text i.text = _
    rw [ofSocket, readPath_text, readPath_text, readSocketPart_text]
    rfl

theorem segments_eq (n : Name) :
    n.segments = n.modulePath.text ::
      ((n.beanPath?.map Path.text).toList ++ (n.socketPart?.map (·.text)).toList) := by
  cases n <;> rfl

/-- The segments that are there tell the kind. -/
theorem kind_iff (n : Name) :
    (n.kind = .module ↔ n.beanPath? = none ∧ n.socketPart? = none) ∧
    (n.kind = .bean ↔ n.beanPath? ≠ none ∧ n.socketPart? = none) ∧
    (n.kind = .socket ↔ n.beanPath? ≠ none ∧ n.socketPart? ≠ none) := by
  cases n <;> simp [kind, beanPath?, socketPart?]

/-! ### Nested beans -/

/-- A part behind the last dot of a path is one more of its parts. -/
theorem readPath_snoc {p : Path} {i : Identifier} {written : String}
    (h : Text.trimChars written.toList = i.text.toList) :
    readPath (p.text ++ "." ++ written).toList = .ok (p.snoc i) := by
  have hdot : '.' ∉ written.toList := fun hmem =>
    i.not_mem_text (by decide) (h ▸ Text.mem_trimChars (by decide) hmem)
  have hsplit : (p.text ++ "." ++ written).toList.splitOn '.' =
      p.parts.map (·.text.toList) ++ [written.toList] := by
    have hparts : p.text.toList.splitOn '.' = p.parts.map (·.text.toList) := by
      rw [← Text.pieces_eq_splitOn, p.pieces_text]
    have hchars : (p.text ++ "." ++ written).toList = p.text.toList ++ '.' :: written.toList := by
      simp
    rw [hchars, List.splitOn, List.splitOnP_append_cons _ _ (by simp), ← List.splitOn,
      ← List.splitOn, hparts, List.splitOn_eq_singleton hdot]
  have htrim : (p.parts.map (·.text.toList)).map Text.trimChars =
      p.parts.map (·.text.toList) := by
    rw [List.map_map]
    exact List.map_congr_left fun j _ => Text.trimChars_eq_self j.isBlank_of_mem_text
  have hsnoc : (p.snoc i).parts = p.parts ++ [i] := rfl
  rw [readPath_eq_ok_iff, hsplit, List.map_append, htrim, List.map_singleton, h, hsnoc,
    List.map_append, List.map_singleton]

/-- A nested bean is the bean of the module whose path goes one step further. -/
theorem nested_eq_withBean {p q : Path} {written : String}
    (h : isIdentifier (Text.trimChars written.toList) = true) :
    ∃ k, (Name.bean p q).nested written = .ok k ∧
      (Name.bean p q).moduleName.withBean (q.text ++ "." ++ written) = .ok k := by
  obtain ⟨i, hi⟩ := isPart_iff.1 (isIdentifier_iff.1 h)
  refine ⟨.bean p (q.snoc i), ?_, ?_⟩
  · rw [nested, readIdentifier_eq_ok_iff.2 hi]
    rfl
  · show (Name.module p).withBean _ = _
    rw [withBean, readPath_snoc hi]
    rfl

theorem belongsTo_iff_moduleName {n m : Name} :
    n.belongsTo m = true ↔ n.moduleName = m.moduleName := by
  rw [belongsTo, decide_eq_true_iff, moduleName, moduleName, Name.module.injEq]

theorem buildings_agree :
    (∀ m b, ofBean m b = ofModule m >>= fun n => n.withBean b) ∧
    (∀ m b s, ofSocket m b s =
      ofModule m >>= fun n => n.withBean b >>= fun n => n.withSocket s) ∧
    (∀ m b s, ':' ∉ m.toList → ':' ∉ b.toList → ':' ∉ s.toList →
      parse m = ofModule m ∧ parse (m ++ ":" ++ b) = ofBean m b ∧
        parse (m ++ ":" ++ b ++ ":" ++ s) = ofSocket m b s) ∧
    (∀ n : Name, n.text.toList.splitOn ':' = (n.modulePath.text ::
        ((n.beanPath?.map Path.text).toList ++ (n.socketPart?.map (·.text)).toList)).map
        String.toList ∧
      ofSegments n.modulePath.text (n.beanPath?.map Path.text) (n.socketPart?.map (·.text)) =
        .ok n) ∧
    (∀ n : Name, (n.kind = .module ↔ n.beanPath? = none ∧ n.socketPart? = none) ∧
      (n.kind = .bean ↔ n.beanPath? ≠ none ∧ n.socketPart? = none) ∧
      (n.kind = .socket ↔ n.beanPath? ≠ none ∧ n.socketPart? ≠ none)) ∧
    (∀ p q x, isIdentifier (Text.trimChars x.toList) = true →
      ∃ k, (Name.bean p q).nested x = .ok k ∧
        (Name.bean p q).moduleName.withBean (q.text ++ "." ++ x) = .ok k) ∧
    (∀ n m : Name, n.belongsTo m = true ↔ n.moduleName = m.moduleName) ∧
    ∀ n m : Name, n.text = m.text → n = m := by
  refine ⟨ofBean_eq_steps, fun m b s => ?_,
    fun m b s hm hb hs => ⟨parse_module hm, parse_bean hm hb, parse_socket hm hb hs⟩,
    fun n => ⟨?_, n.ofSegments_eq_self⟩, kind_iff, fun _ _ _ => nested_eq_withBean,
    fun _ _ => belongsTo_iff_moduleName, fun _ _ => text_injective⟩
  · rw [ofSocket_eq_steps, ofBean_eq_steps, bind_assoc]
  · rw [splitOn_text, segments_eq]

theorem buildings_agree_spaced :
    ':' ∉ " harbor . north ".toList ∧ ':' ∉ "quay".toList ∧ ':' ∉ "\tcrane".toList ∧
    parse " harbor . north :quay:\tcrane" = ofSocket " harbor . north " "quay" "\tcrane" ∧
    isIdentifier (Text.trimChars " shed ".toList) = true ∧
    ∃ k, Sample.quay.nested " shed " = .ok k ∧
      Sample.quay.moduleName.withBean "quay. shed " = .ok k := by
  obtain ⟨-, -, hparse, -, -, hnested, -⟩ := buildings_agree
  have hm : ':' ∉ " harbor . north ".toList := by decide
  have hb : ':' ∉ "quay".toList := by decide
  have hs : ':' ∉ "\tcrane".toList := by decide
  have hx : isIdentifier (Text.trimChars " shed ".toList) = true := by decide
  exact ⟨hm, hb, hs, (hparse _ _ _ hm hb hs).2.2, hx,
    hnested Sample.north ⟨⟨"quay", by decide⟩, []⟩ " shed " hx⟩

end Wiring.Name
