import Wiring.Hierarchy
import Wiring.Json.Decoding
import Wiring.Name

/-! Names, types and type declarations in JSON documents. -/

namespace Wiring

open Json (Decoder Adjacent Record)

/-! ### Names -/

instance : Inhabited Name := ⟨.module ⟨⟨"_", by decide⟩, []⟩⟩

/-- A name from its text, in any spacing. -/
def Name.ofText (text : String) : Except Json.Error Name :=
  match Name.parse text with
  | .ok name => .ok name
  | .error fault => .error (.data (.rejected fault.message))

def Name.decode : Decoder Name := fun source t => do Name.ofText (← Decoder.string source t)

def Name.toJson (n : Name) : Json := .string n.text

def Name.listJson (names : List Name) : Json := .array (names.map toJson)

/-! ### Types -/

mutual

def TypeExpr.toJson : TypeExpr → Json
  | .declared name args =>
    .object <|
      [("kind", .string "declared"), ("name", .string name)] ++
        Json.nonemptyField "args" (TypeArg.listJson args)
  | .array component => .object [("kind", .string "array"), ("component", component.toJson)]
  | .variable name => .object [("kind", .string "variable"), ("name", .string name)]
  | .unresolved name => .object [("kind", .string "unresolved"), ("name", .string name)]

def TypeArg.toJson : TypeArg → Json
  | .exact t => .object [("bound", .string "exact"), ("type", t.toJson)]
  | .upTo t => .object [("bound", .string "extends"), ("type", t.toJson)]
  | .downTo t => .object [("bound", .string "super"), ("type", t.toJson)]
  | .unbounded => .object [("bound", .string "unbounded")]

def TypeArg.listJson : List TypeArg → List Json
  | [] => []
  | a :: as => a.toJson :: TypeArg.listJson as

end

def TypeArg.decodeWith (type : Decoder TypeExpr) : Decoder TypeArg :=
  Adjacent.decode
    { title := "adjacently tagged enum TypeArgument"
      tag := "bound"
      content := "type"
      variants := ["exact", "extends", "super", "unbounded"]
      read := fun variant source t =>
        match variant with
        | "exact" => .exact <$> type source t
        | "extends" => .upTo <$> type source t
        | "super" => .downTo <$> type source t
        | _ => Decoder.unit "unit variant TypeArgument::Unbounded" .unbounded source t
      bare? := fun variant => if variant = "unbounded" then some .unbounded else none }

namespace TypeExpr

instance : Inhabited TypeExpr := ⟨.unresolved ""⟩

/-- Reads a type of less than `height` containers inside one another. -/
def decodeWithin : (height : Nat) → Decoder TypeExpr
  | 0 => fun _ t => .error (Json.wrongType t "internally tagged enum TypeDescriptor")
  | height + 1 => fun source t => do
    let (variant, fields) ← Decoder.tagged "internally tagged enum TypeDescriptor" "kind"
      ["declared", "array", "variable", "unresolved"] source t
    match variant with
    | "declared" =>
      let (name, args) ← Record.decode
        { title := "struct variant TypeDescriptor::Declared"
          fields :=
            [("name", Decoder.string.into fun name (_, args) => (name, args)),
              ("args", (Decoder.list (TypeArg.decodeWith (decodeWithin height))).into
                fun args (name, _) => (name, args))]
          required := ["name"] }
        ("", []) .held fields
      return .declared name args
    | "array" =>
      let component ← Record.decode
        { title := "struct variant TypeDescriptor::Array"
          fields := [("component", (decodeWithin height).into fun component _ => component)]
          required := ["component"] }
        default .held fields
      return .array component
    | "variable" => return .variable (← named "struct variant TypeDescriptor::Variable" fields)
    | _ => return .unresolved (← named "struct variant TypeDescriptor::Unresolved" fields)
where
  named (title : String) (fields : Json.Tree) : Except Json.Error String :=
    Record.decode
      { title, fields := [("name", Decoder.string.into fun name _ => name)], required := ["name"] }
      "" .held fields

def decode : Decoder TypeExpr := fun source t => decodeWithin (t.height + 1) source t

end TypeExpr

def TypeArg.decode : Decoder TypeArg := TypeArg.decodeWith TypeExpr.decode

/-! ### Declarations -/

namespace TypeDeclaration

def toJson (d : TypeDeclaration) : Json :=
  .object
    [("name", .string d.name), ("parameters", .array (d.parameters.map .string)),
      ("supertypes", .array (d.supertypes.map TypeExpr.toJson))]

def decode : Decoder TypeDeclaration :=
  Record.decode
    { title := "struct TypeDeclaration"
      fields :=
        [("name", Decoder.string.into fun name d => { d with name }),
          ("parameters", (Decoder.list Decoder.string).into fun parameters d =>
            { d with parameters }),
          ("supertypes", (Decoder.list TypeExpr.decode).into fun supertypes d =>
            { d with supertypes })]
      required := ["name"] }
    { name := "", parameters := [], supertypes := [] }

end TypeDeclaration

end Wiring
