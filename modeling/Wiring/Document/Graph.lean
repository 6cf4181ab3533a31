import Wiring.Document.TypeExpr
import Wiring.Graph

/-! Wiring graphs in JSON documents.  `Graph.ofJson` reads any spelling of a graph, `Graph.render?`
writes one: fields with their default are left out where they are lists or optional. -/

namespace Wiring

open Json (Decoder Record)

/-! ### Selectors and sockets -/

/-- Nothing for a condition of the program. -/
def Selector.toJson? : Selector → Option Json
  | .annotated marker =>
    some (.object [("selector", .string "annotated"), ("annotation", .string marker)])
  | .nameMatches pattern =>
    some (.object [("selector", .string "name_matches"), ("pattern", .string pattern)])
  | .custom _ _ => none

def Selector.unwritable : String := "the enum variant Selector::Custom cannot be serialized"

def Selector.decode : Decoder Selector := fun source t => do
  let (variant, fields) ← Decoder.tagged "internally tagged enum Selector" "selector"
    ["annotated", "name_matches"] source t
  match variant with
  | "annotated" => return .annotated (← text "Annotated" "annotation" fields)
  | _ => return .nameMatches (← text "NameMatches" "pattern" fields)
where
  /-- The one field of a selector. -/
  text (variant field : String) (fields : Json.Tree) : Except Json.Error String :=
    Record.decode
      { title := "struct variant Selector::" ++ variant
        fields := [(field, Decoder.string.into fun text _ => text)]
        required := [field] }
      "" .held fields

def Mutator.toJson (m : Mutator) : Json :=
  .object
    [("input", m.input.toJson), ("output", m.output.toJson), ("required", .bool m.required)]

def Mutator.decode : Decoder Mutator :=
  Record.decode
    { title := "struct Mutator"
      fields :=
        [("input", TypeExpr.decode.into fun input m => { m with input }),
          ("output", TypeExpr.decode.into fun output m => { m with output }),
          ("required", Decoder.bool.into fun required m => { m with required })]
      required := ["input", "output"] }
    { input := default, output := default }

def Socket.toJson? (s : Socket) : Option Json := do
  let selectors ← s.selectors.mapM Selector.toJson?
  return .object <|
    [("name", .string s.name), ("required_type", s.required.toJson),
      ("optional", .bool s.optional)] ++
      Json.nonemptyField "selectors" selectors ++
      Json.field? "mutator" (s.mutator?.map Mutator.toJson)

def Socket.decode : Decoder Socket :=
  Record.decode
    { title := "struct Socket"
      fields :=
        [("name", Decoder.string.into fun name s => { s with name }),
          ("required_type", TypeExpr.decode.into fun required s => { s with required }),
          ("optional", Decoder.bool.into fun optional s => { s with optional }),
          ("selectors", (Decoder.list Selector.decode).into fun selectors s =>
            { s with selectors }),
          ("mutator", (Decoder.nullable Mutator.decode).into fun mutator? s =>
            { s with mutator? })]
      required := ["name", "required_type"] }
    { name := "", required := default }

/-! ### Beans -/

def Visibility.decode : Decoder Visibility := fun source t => do
  match ← Decoder.unitVariant ["public", "private"] source t with
  | "public" => return .importers
  | _ => return .module

def Strategy.decode : Decoder Strategy := fun source t => do
  match ← Decoder.unitVariant ["singleton", "prototype"] source t with
  | "singleton" => return .singleton
  | _ => return .prototype

def stringsJson (texts : List String) : List Json := texts.map .string

mutual

def NestedBean.toJson : NestedBean → Json
  | ⟨name, type, annotations, nested⟩ =>
    .object <|
      [("name", .string name), ("exposed_type", type.toJson)] ++
        Json.nonemptyField "annotations" (stringsJson annotations) ++
        Json.nonemptyField "nested" (NestedBean.listJson nested)

def NestedBean.listJson : List NestedBean → List Json
  | [] => []
  | b :: bs => b.toJson :: NestedBean.listJson bs

end

/-- Reads a bean with less than `height` containers inside one another. -/
def NestedBean.decodeWithin : (height : Nat) → Decoder NestedBean
  | 0 => fun _ t => .error (Json.wrongType t "struct NestedBean")
  | height + 1 =>
    Record.decode
      { title := "struct NestedBean"
        fields :=
          [("name", Decoder.string.into fun name b => { b with name }),
            ("exposed_type", TypeExpr.decode.into fun type b => { b with type }),
            ("annotations", (Decoder.list Decoder.string).into fun annotations b =>
              { b with annotations }),
            ("nested", (Decoder.list (decodeWithin height)).into fun nested b =>
              { b with nested })]
        required := ["name", "exposed_type"] }
      { name := "", type := default }

def NestedBean.decode : Decoder NestedBean := fun source t =>
  NestedBean.decodeWithin (t.height + 1) source t

def BeanKind.fields? : BeanKind → Option (List (String × Json))
  | .module type sockets => do
    let sockets ← sockets.mapM Socket.toJson?
    return [("kind", .string "module"), ("exposed_type", type.toJson), ("sockets", .array sockets)]
  | .socket s => do return [("kind", .string "socket"), ("socket", ← s.toJson?)]

def BeanKind.decode : Decoder BeanKind := fun source t => do
  let (variant, fields) ← Decoder.tagged "internally tagged enum BeanKind" "kind"
    ["module", "socket"] source t
  match variant with
  | "module" =>
    let (type, sockets) ← Record.decode
      { title := "struct variant BeanKind::Module"
        fields :=
          [("exposed_type", TypeExpr.decode.into fun type (_, sockets) => (type, sockets)),
            ("sockets", (Decoder.list Socket.decode).into fun sockets (type, _) =>
              (type, sockets))]
        required := ["exposed_type"] }
      (default, []) .held fields
    return .module type sockets
  | _ =>
    let socket ← Record.decode
      { title := "struct variant BeanKind::Socket"
        fields := [("socket", Socket.decode.into fun socket _ => socket)]
        required := ["socket"] }
      { name := "", required := default } .held fields
    return .socket socket

namespace Bean

def toJson? (b : Bean) : Option Json := do
  let kind ← b.kind.fields?
  return .object <|
    [("name", .string b.name), ("visibility", .string b.visibility.text),
      ("strategy", .string b.strategy.text)] ++
      Json.nonemptyField "annotations" (stringsJson b.annotations) ++
      Json.nonemptyField "nested" (NestedBean.listJson b.nested) ++
      [("overridable", .bool b.overridable)] ++ kind

/-- The fields of a bean that do not hang on its kind. -/
def ownFields : List (String × Decoder (Bean → Bean)) :=
  [("name", Decoder.string.into fun name b => { b with name }),
    ("visibility", Visibility.decode.into fun visibility b => { b with visibility }),
    ("strategy", Strategy.decode.into fun strategy b => { b with strategy }),
    ("annotations", (Decoder.list Decoder.string).into fun annotations b => { b with annotations }),
    ("nested", (Decoder.list NestedBean.decode).into fun nested b => { b with nested }),
    ("overridable", Decoder.bool.into fun overridable b => { b with overridable })]

/-- Puts the bean's own fields into it and holds the others. -/
def readFields (source : Json.Source) (value : Bean) (seen : List String) :
    List Json.Field → Except Json.Error (Bean × List String × List Json.Field)
  | [] => .ok (value, seen, [])
  | (none, _) :: _ => .error (.text .malformed)
  | (some key, t) :: fields =>
    match ownFields.lookup key with
    | none => do
      t.hold source
      let (value, seen, others) ← readFields source value seen fields
      return (value, seen, (some key, t) :: others)
    | some decode =>
      if key ∈ seen then .error (.data (.duplicateField key))
      else do
        let put ← decode source t
        readFields source (put value) (key :: seen) fields

/-- Reads a bean, which has the fields of its kind among its own. -/
def decode : Decoder Bean
  | source, .object fields fault? => do
    let inner ← source.enter
    let (value, seen, others) ← readFields inner { name := "", kind := .module default [] } []
      fields
    Json.close fault?
    if "name" ∉ seen then throw (.data (.missingField "name"))
    let kind ← BeanKind.decode .held (.object others none)
    return { value with kind }
  | _, t => .error (Json.wrongType t "struct Bean")

end Bean

/-! ### Modules and graphs -/

def Directive.toJson (d : Directive) : Json :=
  .object [("beans", Name.listJson d.beans), ("into", d.into.toJson)]

def Directive.decode : Decoder Directive :=
  Record.decode
    { title := "struct WiringDirective"
      fields :=
        [("beans", (Decoder.list Name.decode).into fun beans d => { d with beans }),
          ("into", Name.decode.into fun into d => { d with into })]
      required := ["beans", "into"] }
    { beans := [], into := default }

def Module.toJson? (m : Module) : Option Json := do
  let beans ← m.beans.mapM Bean.toJson?
  return .object <|
    [("name", m.name.toJson), ("beans", .array beans)] ++
      Json.nonemptyField "directives" (m.directives.map Directive.toJson) ++
      Json.nonemptyField "imports" (m.imports.map Name.toJson)

def Module.decode : Decoder Module :=
  Record.decode
    { title := "struct Module"
      fields :=
        [("name", Name.decode.into fun name m => { m with name }),
          ("beans", (Decoder.list Bean.decode).into fun beans m => { m with beans }),
          ("directives", (Decoder.list Directive.decode).into fun directives m =>
            { m with directives }),
          ("imports", (Decoder.list Name.decode).into fun imports m => { m with imports })]
      required := ["name"] }
    { name := default }

namespace Graph

def toJson? (g : Graph) : Option Json := do
  let modules ← g.modules.mapM Module.toJson?
  return .object
    [("types", .array (g.types.map TypeDeclaration.toJson)), ("modules", .array modules)]

def decode : Decoder Graph :=
  Record.decode
    { title := "struct WiringGraph"
      fields :=
        [("types", (Decoder.list TypeDeclaration.decode).into fun types g => { g with types }),
          ("modules", (Decoder.list Module.decode).into fun modules g => { g with modules })] }
    {}

def ofJson (text : String) : Except Json.Error Graph := Json.decodeText decode text

/-- The graph as a JSON text with a field a line; nothing when a selector has no JSON form. -/
def render? (g : Graph) : Option String := g.toJson?.map Json.pretty

end Graph

end Wiring
