import Wiring.Document.TypeExpr
import Wiring.Report

/-! Plans, findings and reports in JSON documents, written and read. -/

namespace Wiring

open Json (Decoder Record)

/-! ### Outcomes -/

def Mutation.toJson (m : Mutation) : Json :=
  .object [("input", m.input.toJson), ("output", m.output.toJson)]

def Mutation.decode : Decoder Mutation :=
  Record.decode
    { title := "struct Mutation"
      fields :=
        [("input", TypeExpr.decode.into fun input m => { m with input }),
          ("output", TypeExpr.decode.into fun output m => { m with output })]
      required := ["input", "output"] }
    ⟨default, default⟩

def BeanOrder.text : BeanOrder → String
  | .directive => "directive"
  | .name => "qualified_name"

def BeanOrder.decode : Decoder BeanOrder := fun source t => do
  match ← Decoder.unitVariant ["directive", "qualified_name"] source t with
  | "directive" => return .directive
  | _ => return .name

namespace Outcome

def fields : Outcome → List (String × Json)
  | .unresolved | .missing => []
  | .single bean mutation? =>
    ("bean", bean.toJson) :: Json.field? "mutation" (mutation?.map Mutation.toJson)
  | .multi beans order => [("beans", Name.listJson beans), ("ordering", .string order.text)]
  | .ambiguous candidates => [("candidates", Name.listJson candidates)]

def toJson (o : Outcome) : Json := .object (("outcome", .string o.label) :: o.fields)

def decode : Decoder Outcome := fun source t => do
  let (variant, fields) ← Decoder.tagged "internally tagged enum ResolutionOutcome" "outcome"
    ["unresolved", "resolved_single", "resolved_multi", "ambiguous", "missing_required"] source t
  match variant with
  | "unresolved" => return .unresolved
  | "resolved_single" =>
    let (bean, mutation?) ← Record.decode
      { title := "struct variant ResolutionOutcome::ResolvedSingle"
        fields :=
          [("bean", Name.decode.into fun bean (_, mutation?) => (bean, mutation?)),
            ("mutation", (Decoder.nullable Mutation.decode).into fun mutation? (bean, _) =>
              (bean, mutation?))]
        required := ["bean"] }
      (default, none) .held fields
    return .single bean mutation?
  | "resolved_multi" =>
    let (beans, order) ← Record.decode
      { title := "struct variant ResolutionOutcome::ResolvedMulti"
        fields :=
          [("beans", (Decoder.list Name.decode).into fun beans (_, order) => (beans, order)),
            ("ordering", BeanOrder.decode.into fun order (beans, _) => (beans, order))]
        required := ["beans", "ordering"] }
      ([], .name) .held fields
    return .multi beans order
  | "ambiguous" =>
    let candidates ← Record.decode
      { title := "struct variant ResolutionOutcome::Ambiguous"
        fields := [("candidates", (Decoder.list Name.decode).into fun candidates _ => candidates)]
        required := ["candidates"] }
      [] .held fields
    return .ambiguous candidates
  | _ => return .missing

end Outcome

/-! ### Plans -/

def SocketOrigin.text : SocketOrigin → String
  | .beanSocket => "bean_socket"
  | .socketBean => "socket_bean"
  | .override => "override"

def SocketOrigin.decode : Decoder SocketOrigin := fun source t => do
  match ← Decoder.unitVariant ["bean_socket", "socket_bean", "override"] source t with
  | "bean_socket" => return .beanSocket
  | "socket_bean" => return .socketBean
  | _ => return .override

def Multiplicity.decode : Decoder Multiplicity := fun source t => do
  match ← Decoder.unitVariant ["single", "array", "list", "set", "collection"] source t with
  | "single" => return .single
  | "array" => return .array
  | "list" => return .list
  | "set" => return .set
  | _ => return .collection

namespace PlanEntry

def toJson (e : PlanEntry) : Json :=
  .object
    [("socket", e.socket.toJson), ("owner", e.owner.toJson), ("origin", .string e.origin.text),
      ("multiplicity", .string e.multiplicity.text),
      ("resolved_in", e.resolvedIn?.elim .null Name.toJson), ("outcome", e.outcome.toJson)]

def decode : Decoder PlanEntry :=
  Record.decode
    { title := "struct PlanEntry"
      fields :=
        [("socket", Name.decode.into fun socket e => { e with socket }),
          ("owner", Name.decode.into fun owner e => { e with owner }),
          ("origin", SocketOrigin.decode.into fun origin e => { e with origin }),
          ("multiplicity", Multiplicity.decode.into fun multiplicity e => { e with multiplicity }),
          ("resolved_in", (Decoder.nullable Name.decode).into fun resolvedIn? e =>
            { e with resolvedIn? }),
          ("outcome", Outcome.decode.into fun outcome e => { e with outcome })]
      required := ["socket", "owner", "origin", "multiplicity", "outcome"] }
    ⟨default, default, .beanSocket, .single, none, .unresolved⟩

end PlanEntry

def Plan.toJson (p : Plan) : Json := .object (p.entries.map fun (n, e) => (n.text, e.toJson))

def Plan.decode : Decoder Plan := fun source t => do
  return .ofList (← Decoder.entries Name.ofText PlanEntry.decode source t)

/-! ### Findings -/

namespace Finding

/-- The name of the variant, and the fields beside the element. -/
def parts : Finding → String × List (String × Json)
  | .missingRequired _ type => ("MissingRequiredDependency", [("required_type", .string type)])
  | .ambiguous _ candidates => ("AmbiguousDependency", [("candidates", .string candidates)])
  | .badDirectiveBean _ bean reason =>
    ("UnknownDirectiveBean", [("bean", bean.toJson), ("reason", .string reason)])
  | .badDirectiveSocket _ m => ("UnknownDirectiveSocket", [("module", m.toJson)])
  | .incompatibleDirectiveBean _ bean beanType requiredType =>
    ("IncompatibleDirectiveBean",
      [("bean", bean.toJson), ("bean_type", .string beanType),
        ("required_type", .string requiredType)])
  | .dependencyCycle _ chain => ("DependencyCycle", [("chain", .string chain)])
  | .unresolvedType _ type => ("UnresolvedType", [("type_name", .string type)])
  | .duplicateName _ kind => ("DuplicateName", [("kind", .string kind)])
  | .invalidDeclaration _ reason => ("InvalidDeclaration", [("reason", .string reason)])
  | .repeatedDirectiveBean _ bean => ("DuplicateDirectiveBean", [("bean", bean.toJson)])
  | .unknownImport _ imported => ("UnknownImport", [("import", imported.toJson)])
  | .importCycle _ modules => ("ImportCycle", [("modules", .string modules)])
  | .unsuppliedSocket _ => ("UnsuppliedRootSocket", [])
  | .sharedSocket _ importers => ("SharedModuleSocket", [("importers", .string importers)])

def toJson (f : Finding) : Json :=
  let (variant, fields) := f.parts
  .object [(variant, .object (("element", f.element.toJson) :: fields))]

def variants : List String :=
  ["MissingRequiredDependency", "AmbiguousDependency", "UnknownDirectiveBean",
    "UnknownDirectiveSocket", "IncompatibleDirectiveBean", "DependencyCycle", "UnresolvedType",
    "DuplicateName", "InvalidDeclaration", "DuplicateDirectiveBean", "UnknownImport",
    "ImportCycle", "UnsuppliedRootSocket", "SharedModuleSocket"]

/-- The fields that findings have between them. -/
structure Draft where
  element : Name := default
  /-- The one other name of the finding, a bean or a module. -/
  other : Name := default
  text : String := ""
  /-- The second text, where there are two. -/
  more : String := ""

def Draft.name (field : String) : String × Decoder (Draft → Draft) :=
  (field, Name.decode.into fun other d => { d with other })

def Draft.string (field : String) : String × Decoder (Draft → Draft) :=
  (field, Decoder.string.into fun text d => { d with text })

/-- The fields of a variant beside the element, and how a finding is made of them. -/
def layout : String → List (String × Decoder (Draft → Draft)) × (Draft → Finding)
  | "MissingRequiredDependency" =>
    ([Draft.string "required_type"], fun d => .missingRequired d.element d.text)
  | "AmbiguousDependency" => ([Draft.string "candidates"], fun d => .ambiguous d.element d.text)
  | "UnknownDirectiveBean" =>
    ([Draft.name "bean", Draft.string "reason"],
      fun d => .badDirectiveBean d.element d.other d.text)
  | "UnknownDirectiveSocket" =>
    ([Draft.name "module"], fun d => .badDirectiveSocket d.element d.other)
  | "IncompatibleDirectiveBean" =>
    ([Draft.name "bean", Draft.string "bean_type",
        ("required_type", Decoder.string.into fun more d => { d with more })],
      fun d => .incompatibleDirectiveBean d.element d.other d.text d.more)
  | "DependencyCycle" => ([Draft.string "chain"], fun d => .dependencyCycle d.element d.text)
  | "UnresolvedType" => ([Draft.string "type_name"], fun d => .unresolvedType d.element d.text)
  | "DuplicateName" => ([Draft.string "kind"], fun d => .duplicateName d.element d.text)
  | "InvalidDeclaration" =>
    ([Draft.string "reason"], fun d => .invalidDeclaration d.element d.text)
  | "DuplicateDirectiveBean" =>
    ([Draft.name "bean"], fun d => .repeatedDirectiveBean d.element d.other)
  | "UnknownImport" => ([Draft.name "import"], fun d => .unknownImport d.element d.other)
  | "ImportCycle" => ([Draft.string "modules"], fun d => .importCycle d.element d.text)
  | "UnsuppliedRootSocket" => ([], fun d => .unsuppliedSocket d.element)
  | _ => ([Draft.string "importers"], fun d => .sharedSocket d.element d.text)

def decode : Decoder Finding :=
  Decoder.keyed variants fun variant source t => do
    let (others, make) := layout variant
    let fields :=
      ("element", Name.decode.into fun element (d : Draft) => { d with element }) :: others
    return make (← Record.decode
      { title := "struct variant WiringDiagnostic::" ++ variant
        fields
        required := fields.map (·.1) }
      {} source t)

end Finding

/-! ### Reports -/

namespace Diagnostic

def toJson (d : Diagnostic) : Json :=
  .object <|
    [("id", .string d.id), ("category", .string d.category.text),
      ("severity", .string d.severity.name), ("element", d.element.toJson),
      ("message", .string d.message)] ++
      Json.field? "suggestion" (d.suggestion?.map .string)

def decodeCategory : Decoder Category := fun source t => do
  match ← Decoder.unitVariant ["Resolution", "Directive", "Cycle", "Type", "Declaration"]
      source t with
  | "Resolution" => return .resolution
  | "Directive" => return .directive
  | "Cycle" => return .cycle
  | "Type" => return .type
  | _ => return .declaration

def decodeSeverity : Decoder Severity := fun source t => do
  match ← Decoder.unitVariant ["Error", "Warning"] source t with
  | "Error" => return .error
  | _ => return .warning

def decode : Decoder Diagnostic :=
  Record.decode
    { title := "struct DiagnosticEntry"
      fields :=
        [("id", Decoder.string.into fun id d => { d with id }),
          ("category", decodeCategory.into fun category d => { d with category }),
          ("severity", decodeSeverity.into fun severity d => { d with severity }),
          ("element", Name.decode.into fun element d => { d with element }),
          ("message", Decoder.string.into fun message d => { d with message }),
          ("suggestion", (Decoder.nullable Decoder.string).into fun suggestion? d =>
            { d with suggestion? })]
      required := ["id", "category", "severity", "element", "message"] }
    { id := "", category := .resolution, severity := .error, element := default, message := "" }

end Diagnostic

namespace Summary

def toJson (s : Summary) : Json :=
  .object
    [("total_sockets", .nat s.totalSockets), ("resolved_single", .nat s.resolvedSingle),
      ("resolved_multi", .nat s.resolvedMulti), ("unresolved", .nat s.unresolved),
      ("ambiguous", .nat s.ambiguous), ("missing_required", .nat s.missingRequired),
      ("error_count", .nat s.errorCount), ("warning_count", .nat s.warningCount),
      ("cycle_count", .nat s.cycleCount), ("declaration_count", .nat s.declarationCount),
      ("directive_count", .nat s.directiveCount), ("passed", .bool s.passed)]

def decode : Decoder Summary :=
  let count := Decoder.natural "usize"
  let fields : List (String × Decoder (Summary → Summary)) :=
    [("total_sockets", count.into fun totalSockets s => { s with totalSockets }),
      ("resolved_single", count.into fun resolvedSingle s => { s with resolvedSingle }),
      ("resolved_multi", count.into fun resolvedMulti s => { s with resolvedMulti }),
      ("unresolved", count.into fun unresolved s => { s with unresolved }),
      ("ambiguous", count.into fun ambiguous s => { s with ambiguous }),
      ("missing_required", count.into fun missingRequired s => { s with missingRequired }),
      ("error_count", count.into fun errorCount s => { s with errorCount }),
      ("warning_count", count.into fun warningCount s => { s with warningCount }),
      ("cycle_count", count.into fun cycleCount s => { s with cycleCount }),
      ("declaration_count", count.into fun declarationCount s => { s with declarationCount }),
      ("directive_count", count.into fun directiveCount s => { s with directiveCount }),
      ("passed", Decoder.bool.into fun passed s => { s with passed })]
  Record.decode { title := "struct ResolutionSummary", fields, required := fields.map (·.1) } {}

end Summary

namespace Report

def toJson (r : Report) : Json :=
  .object
    [("generated_at", .string r.generatedAt), ("summary", r.summary.toJson),
      ("plan", r.plan.toJson), ("diagnostics", .array (r.diagnostics.map Diagnostic.toJson))]

def decode : Decoder Report :=
  Record.decode
    { title := "struct ResolutionReport"
      fields :=
        [("generated_at", Decoder.string.into fun generatedAt r => { r with generatedAt }),
          ("summary", Summary.decode.into fun summary r => { r with summary }),
          ("plan", Plan.decode.into fun plan r => { r with plan }),
          ("diagnostics", (Decoder.list Diagnostic.decode).into fun diagnostics r =>
            { r with diagnostics })]
      required := ["generated_at", "summary", "plan", "diagnostics"] }
    ⟨"", {}, {}, []⟩

def json (r : Report) : String := r.toJson.pretty

def ofJson (text : String) : Except Json.Error Report := Json.decodeText decode text

end Report

end Wiring
