import Wiring.Document.TypeExpr
import Wiring.Proofs.Json.Decoding
import Wiring.Proofs.Name.Reading

/-! Names, types and type declarations are read back as they have been written. -/

namespace Wiring

open Json (Decoder Adjacent Record)

/-! ### Names -/

theorem Name.reads (n : Name) : Name.decode.Reads n.toJson n := by
  refine ⟨trivial, fun _ _ => ?_⟩
  show Name.ofText n.text = _
  rw [Name.ofText, Name.parse_text]

/-! ### Types -/

theorem TypeExpr.reads_named (title name : String) :
    Decoder.Reads (fun _ t => TypeExpr.decodeWithin.named title t)
      (.object [("name", .string name)]) name := by
  have h : Decoder.Reads (Record.decode
      { title, fields := [("name", Decoder.string.into fun name _ => name)], required := ["name"] }
      "") (.object [("name", .string name)]) name :=
    Record.reads (.field (Decoder.reads_string name) (.nil _)) (by simp) (by simp)
  exact ⟨h.legible, fun _ _ => h.read .held trivial⟩

theorem TypeArg.height_bounded (bound : String) (t : TypeExpr) :
    (Json.object [("bound", .string bound), ("type", t.toJson)]).toTree.height =
      t.toJson.toTree.height + 1 := by
  simp [Json.toTree, Json.fieldTrees, Json.Tree.height, Json.fieldsHeight]

mutual

/-- A type is read back by a reader for more containers inside one another than it has. -/
theorem TypeExpr.reads_decodeWithin : ∀ (t : TypeExpr) (height : Nat),
    t.toJson.toTree.height < height → (TypeExpr.decodeWithin height).Reads t.toJson t
  | _, 0, h => absurd h (Nat.not_lt_zero _)
  | .declared name args, height + 1, h => by
    rw [TypeExpr.toJson, Json.height_object, Json.fieldTrees_append, Json.fieldsHeight_append] at h
    have hargs := TypeArg.reads_listJson args height (by
      have := Json.itemsHeight_le_nonemptyField "args" (TypeArg.listJson args)
      omega)
    have hfills : Record.Fills
        [("name", Decoder.string.into fun name v => (name, v.2)),
          ("args", (Decoder.list (TypeArg.decodeWith (TypeExpr.decodeWithin height))).into
            fun args v => (v.1, args))]
        (("name", .string name) :: Json.nonemptyField "args" (TypeArg.listJson args))
        ("", []) (name, args) :=
      .field (Decoder.reads_string name)
        (List.append_nil (Json.nonemptyField ..) ▸ .list hargs rfl (.nil _))
    have hrecord : Decoder.Reads (Record.decode
        { title := "struct variant TypeDescriptor::Declared", fields := _, required := ["name"] } _)
        (.object _) (name, args) := Record.reads hfills (by simp) (by simp)
    rw [TypeExpr.toJson, TypeExpr.decodeWithin, List.cons_append, List.singleton_append]
    have hkind : "kind" ∉
        (("name", Json.string name) ::
          Json.nonemptyField "args" (TypeArg.listJson args)).map (·.1) :=
      fun h => by simpa using hfills.keys_sublist.subset h
    exact Decoder.reads_tagged (by simp) hkind hrecord rfl rfl
  | .array component, height + 1, h => by
    rw [TypeExpr.toJson, Json.height_object] at h
    have hcomponent := component.reads_decodeWithin height (by
      simp only [Json.fieldTrees, Json.fieldsHeight] at h
      omega)
    have hrecord : Decoder.Reads (Record.decode
        { title := "struct variant TypeDescriptor::Array"
          fields :=
            [("component", (TypeExpr.decodeWithin height).into fun component _ => component)]
          required := ["component"] } default)
        (.object [("component", component.toJson)]) component :=
      Record.reads (.field hcomponent (.nil _)) (by simp) (by simp)
    rw [TypeExpr.toJson, TypeExpr.decodeWithin]
    exact Decoder.reads_tagged (by simp) (by simp) hrecord rfl rfl
  | .variable name, height + 1, _ => by
    rw [TypeExpr.toJson, TypeExpr.decodeWithin]
    exact Decoder.reads_tagged (by simp) (by simp) (TypeExpr.reads_named _ name) rfl rfl
  | .unresolved name, height + 1, _ => by
    rw [TypeExpr.toJson, TypeExpr.decodeWithin]
    exact Decoder.reads_tagged (by simp) (by simp) (TypeExpr.reads_named _ name) rfl rfl

theorem TypeArg.reads_decodeWith : ∀ (a : TypeArg) (height : Nat),
    a.toJson.toTree.height ≤ height →
    (TypeArg.decodeWith (TypeExpr.decodeWithin height)).Reads a.toJson a
  | .exact t, height, h => by
    have ht := t.reads_decodeWithin height (by
      rw [TypeArg.toJson, TypeArg.height_bounded] at h
      exact h)
    exact Adjacent.reads_content _ (by simp) (by simp) (ht.map TypeArg.exact)
  | .upTo t, height, h => by
    have ht := t.reads_decodeWithin height (by
      rw [TypeArg.toJson, TypeArg.height_bounded] at h
      exact h)
    exact Adjacent.reads_content _ (by simp) (by simp) (ht.map TypeArg.upTo)
  | .downTo t, height, h => by
    have ht := t.reads_decodeWithin height (by
      rw [TypeArg.toJson, TypeArg.height_bounded] at h
      exact h)
    exact Adjacent.reads_content _ (by simp) (by simp) (ht.map TypeArg.downTo)
  | .unbounded, height, h => Adjacent.reads_bare _ (by simp) (by simp)

theorem TypeArg.reads_listJson : ∀ (args : List TypeArg) (height : Nat),
    Json.itemsHeight (Json.itemTrees (TypeArg.listJson args)) ≤ height →
    List.Forall₂ (TypeArg.decodeWith (TypeExpr.decodeWithin height)).Reads
      (TypeArg.listJson args) args
  | [], _, _ => .nil
  | a :: as, height, h => by
    rw [TypeArg.listJson, Json.itemTrees, Json.itemsHeight, Nat.max_le] at h
    exact .cons (TypeArg.reads_decodeWith a height h.1) (TypeArg.reads_listJson as height h.2)

end

theorem TypeExpr.reads (t : TypeExpr) : TypeExpr.decode.Reads t.toJson t := by
  have h := t.reads_decodeWithin (t.toJson.toTree.height + 1) (Nat.lt_succ_self _)
  exact ⟨h.legible, h.read⟩

/-! ### Declarations -/

theorem TypeDeclaration.reads (d : TypeDeclaration) : TypeDeclaration.decode.Reads d.toJson d := by
  have hparameters : List.Forall₂ Decoder.string.Reads (d.parameters.map .string) d.parameters :=
    Decoder.forall₂_reads_map Decoder.reads_string d.parameters
  have hsupertypes := Decoder.forall₂_reads_map TypeExpr.reads d.supertypes
  exact Record.reads
    (.field (Decoder.reads_string d.name)
      (.field (Decoder.reads_list hparameters) (.field (Decoder.reads_list hsupertypes) (.nil _))))
    (by simp) (by simp)

end Wiring
