import Wiring.Name

/-! What can be found wrong in a wiring graph.  Every finding is about one element, a module, a bean
or a socket.  Findings are collected in any order; their snapshot is sorted and without
repetitions. -/

namespace Wiring

inductive Category
  | resolution
  | directive
  | cycle
  | type
  | declaration
deriving DecidableEq

def Category.text : Category → String
  | .resolution => "Resolution"
  | .directive => "Directive"
  | .cycle => "Cycle"
  | .type => "Type"
  | .declaration => "Declaration"

/-- Only errors keep a plan from being used. -/
inductive Severity
  | error
  | warning
deriving DecidableEq

namespace Severity

def name : Severity → String
  | .error => "Error"
  | .warning => "Warning"

def label : Severity → String
  | .error => "ERROR"
  | .warning => "WARNING"

end Severity

inductive Finding
  | missingRequired (element : Name) (type : String)
  | ambiguous (element : Name) (candidates : String)
  | badDirectiveBean (element bean : Name) (reason : String)
  | badDirectiveSocket (element module : Name)
  | incompatibleDirectiveBean (element bean : Name) (beanType requiredType : String)
  | dependencyCycle (element : Name) (chain : String)
  | unresolvedType (element : Name) (type : String)
  | duplicateName (element : Name) (kind : String)
  | invalidDeclaration (element : Name) (reason : String)
  | repeatedDirectiveBean (element bean : Name)
  | unknownImport (element imported : Name)
  | importCycle (element : Name) (modules : String)
  | unsuppliedSocket (element : Name)
  | sharedSocket (element : Name) (importers : String)
deriving DecidableEq

namespace Finding

def element : Finding → Name
  | .missingRequired element _ => element
  | .ambiguous element _ => element
  | .badDirectiveBean element _ _ => element
  | .badDirectiveSocket element _ => element
  | .incompatibleDirectiveBean element _ _ _ => element
  | .dependencyCycle element _ => element
  | .unresolvedType element _ => element
  | .duplicateName element _ => element
  | .invalidDeclaration element _ => element
  | .repeatedDirectiveBean element _ => element
  | .unknownImport element _ => element
  | .importCycle element _ => element
  | .unsuppliedSocket element => element
  | .sharedSocket element _ => element

def id : Finding → String
  | .missingRequired _ _ => "WIRE001"
  | .ambiguous _ _ => "WIRE002"
  | .badDirectiveBean _ _ _ => "WIRE003"
  | .badDirectiveSocket _ _ => "WIRE004"
  | .incompatibleDirectiveBean _ _ _ _ => "WIRE005"
  | .dependencyCycle _ _ => "WIRE006"
  | .unresolvedType _ _ => "WIRE007"
  | .duplicateName _ _ => "WIRE008"
  | .invalidDeclaration _ _ => "WIRE009"
  | .repeatedDirectiveBean _ _ => "WIRE010"
  | .unknownImport _ _ => "WIRE011"
  | .importCycle _ _ => "WIRE012"
  | .unsuppliedSocket _ => "WIRE013"
  | .sharedSocket _ _ => "WIRE014"

def category : Finding → Category
  | .missingRequired _ _ => .resolution
  | .ambiguous _ _ => .resolution
  | .badDirectiveBean _ _ _ => .directive
  | .badDirectiveSocket _ _ => .directive
  | .incompatibleDirectiveBean _ _ _ _ => .directive
  | .dependencyCycle _ _ => .cycle
  | .unresolvedType _ _ => .type
  | .duplicateName _ _ => .declaration
  | .invalidDeclaration _ _ => .declaration
  | .repeatedDirectiveBean _ _ => .directive
  | .unknownImport _ _ => .declaration
  | .importCycle _ _ => .declaration
  | .unsuppliedSocket _ => .resolution
  | .sharedSocket _ _ => .resolution

def severity : Finding → Severity
  | .unresolvedType _ _ => .warning
  | .repeatedDirectiveBean _ _ => .warning
  | .unsuppliedSocket _ => .warning
  | _ => .error

def isError (f : Finding) : Bool := f.severity = .error

def message : Finding → String
  | .missingRequired element type =>
    "Missing required dependency " ++ element.text ++ ": no visible bean of type " ++ type
  | .ambiguous element candidates =>
    "Ambiguous dependency " ++ element.text ++ ": candidates " ++ candidates
  | .badDirectiveBean element bean reason =>
    "Invalid wiring directive into " ++ element.text ++ ": bean " ++ bean.text ++ " " ++ reason
  | .badDirectiveSocket element module =>
    "Invalid wiring directive in module " ++ module.text ++ ": socket " ++ element.text ++
      " is not resolved in this module"
  | .incompatibleDirectiveBean element bean beanType requiredType =>
    "Invalid wiring directive into " ++ element.text ++ ": bean " ++ bean.text ++ " of type " ++
      beanType ++ " is not assignable to " ++ requiredType
  | .dependencyCycle element chain =>
    "Dependency cycle starting at " ++ element.text ++ ": " ++ chain
  | .unresolvedType element type =>
    "Unresolved type " ++ type ++ " on " ++ element.text ++ "; a dependency may be missing"
  | .duplicateName element kind =>
    "Duplicate " ++ kind ++ " name " ++ element.text ++ "; the first declaration is kept"
  | .invalidDeclaration element reason =>
    "Invalid declaration " ++ element.text ++ ": " ++ reason
  | .repeatedDirectiveBean element bean =>
    "Bean " ++ bean.text ++ " is wired into " ++ element.text ++
      " more than once; later occurrences are ignored"
  | .unknownImport element imported =>
    "Module " ++ element.text ++ " imports unknown module " ++ imported.text
  | .importCycle element modules =>
    "Module " ++ element.text ++ " cannot be resolved: import cycle among " ++ modules
  | .unsuppliedSocket element =>
    "Socket " ++ element.text ++ " of a root module must be supplied at runtime"
  | .sharedSocket element importers =>
    "Socket " ++ element.text ++ " is imported by several modules (" ++ importers ++
      "); only one may supply it"

def suggestion? : Finding → Option String
  | .missingRequired _ _ =>
    some "Declare or import a public bean of the required type, or make the socket optional"
  | .ambiguous _ _ =>
    some ("Add a wiring directive naming the bean to use, or a selector narrowing the " ++
      "candidates")
  | .badDirectiveSocket _ _ =>
    some ("Target a socket of this module's beans, or a socket bean of a directly imported " ++
      "module")
  | .dependencyCycle _ _ =>
    some "Break the cycle by removing one of the injections or restructuring the beans"
  | _ => none

/-! ### Snapshots -/

/-- What findings are sorted by: the element, the kind of finding and the message. -/
def key (f : Finding) : List String := [f.element.text, f.id, f.message]

def ble (a b : Finding) : Bool := Text.lexBle a.key b.key

end Finding

/-- The list without the elements that equal the one before them. -/
def collapse [DecidableEq α] : List α → List α
  | [] => []
  | [a] => [a]
  | a :: b :: rest => if a = b then collapse (b :: rest) else a :: collapse (b :: rest)

namespace Finding

/-- The findings in order of their keys, each once. -/
def snapshot (findings : List Finding) : List Finding := collapse (findings.mergeSort ble)

def errorCount (findings : List Finding) : Nat := findings.countP isError

def warningCount (findings : List Finding) : Nat := findings.countP (!·.isError)

end Finding

end Wiring
