import Wiring.Text

/-! Names of modules, beans and sockets.  A module is named by a dotted path, a bean by its module
and a dotted path whose tail leads through nested beans, a socket by its bean and one identifier.
`Name.text` writes the segments with colons between them, and `Name.parse` reads any spacing of such
a text. -/

namespace Wiring

/-! ### Identifiers -/

def isIdentifierStart (c : Char) : Bool := c.isAlpha || c == '_' || c == '$'

def isIdentifierChar (c : Char) : Bool := isIdentifierStart c || c.isDigit

/-- A letter, underscore or dollar sign, then any number of these and of digits, all of ASCII. -/
def isIdentifier : List Char → Bool
  | [] => false
  | c :: cs => isIdentifierStart c && cs.all isIdentifierChar

structure Identifier where
  text : String
  legal : isIdentifier text.toList = true
deriving DecidableEq

def Identifier.ofChars? (cs : List Char) : Option Identifier :=
  if h : isIdentifier cs = true then some ⟨String.ofList cs, by simpa using h⟩ else none

/-- One or more identifiers, written with dots between them. -/
structure Path where
  first : Identifier
  rest : List Identifier
deriving DecidableEq

namespace Path

def parts (p : Path) : List Identifier := p.first :: p.rest

def text (p : Path) : String := ".".intercalate (p.parts.map (·.text))

def snoc (p : Path) (i : Identifier) : Path := ⟨p.first, p.rest ++ [i]⟩

end Path

/-! ### Names -/

inductive Name
  | module (module : Path)
  | bean (module bean : Path)
  | socket (module bean : Path) (socket : Identifier)
deriving DecidableEq

namespace Name

inductive Kind
  | module
  | bean
  | socket
deriving DecidableEq

def kind : Name → Kind
  | .module _ => .module
  | .bean _ _ => .bean
  | .socket _ _ _ => .socket

/-- The written form: the segments with colons between them. -/
def text : Name → String
  | .module m => m.text
  | .bean m b => m.text ++ ":" ++ b.text
  | .socket m b s => m.text ++ ":" ++ b.text ++ ":" ++ s.text

/-- The path of the module that the name lies in. -/
def modulePath : Name → Path
  | .module m => m
  | .bean m _ => m
  | .socket m _ _ => m

/-- The path of the bean inside its module, for a bean and for a socket. -/
def beanPath? : Name → Option Path
  | .module _ => none
  | .bean _ b => some b
  | .socket _ b _ => some b

def socketPart? : Name → Option Identifier
  | .socket _ _ s => some s
  | _ => none

def moduleName (n : Name) : Name := .module n.modulePath

def beanName? (n : Name) : Option Name := n.beanPath?.map (.bean n.modulePath)

def isNested (n : Name) : Bool := n.beanPath?.any (!·.rest.isEmpty)

def belongsTo (n m : Name) : Bool := n.modulePath = m.modulePath

/-- Names are ordered as their texts, which are of ASCII. -/
instance : LE Name := ⟨fun a b => a.text ≤ b.text⟩

instance (a b : Name) : Decidable (a ≤ b) := inferInstanceAs (Decidable (a.text ≤ b.text))

def ble (a b : Name) : Bool := decide (a ≤ b)

/-! ### What can be wrong with a name -/

inductive Fault
  | tooManySegments (text : String)
  | emptySegment
  /-- A part of a dotted segment, as it was written. -/
  | badPart (segment part : String)
  | badIdentifier (text : String)
  | beanOutsideModule (name : Name)
  | socketOutsideBean (name : Name)
  | nestedOutsideBean (name : Name)
deriving DecidableEq

def Fault.subject : Fault → String
  | .tooManySegments text => text
  | .emptySegment => ""
  | .badPart segment _ => segment
  | .badIdentifier text => text
  | .beanOutsideModule name => name.text
  | .socketOutsideBean name => name.text
  | .nestedOutsideBean name => name.text

def Fault.reason : Fault → String
  | .tooManySegments _ => "at most 3 segments are allowed"
  | .emptySegment => "empty name segment"
  | .badPart _ part => "'" ++ part ++ "' is not an identifier"
  | .badIdentifier _ => "not a legal identifier"
  | .beanOutsideModule _ => "a bean segment can only be appended to a module name"
  | .socketOutsideBean _ => "a socket segment can only be appended to a bean name"
  | .nestedOutsideBean _ => "nested beans can only be declared on a bean name"

def Fault.message (f : Fault) : String := "Invalid name '" ++ f.subject ++ "': " ++ f.reason

/-! ### Reading -/

/-- One part of the dotted segment `segment`; blanks around it do not count. -/
def readPart (segment part : List Char) : Except Fault Identifier :=
  match Identifier.ofChars? (Text.trimChars part) with
  | some i => .ok i
  | none => .error (.badPart (String.ofList segment) (String.ofList part))

def readPath (written : List Char) : Except Fault Path :=
  let segment := Text.trimChars written
  if segment.isEmpty then .error .emptySegment
  else
    match Text.pieces '.' segment with
    | [] => .error .emptySegment
    | part :: parts => do
      let first ← readPart segment part
      let rest ← parts.mapM (readPart segment)
      return ⟨first, rest⟩

/-- A text that is one identifier, blanks around it aside. -/
def readIdentifier (written : List Char) : Except Fault Identifier :=
  let text := Text.trimChars written
  match Identifier.ofChars? text with
  | some i => .ok i
  | none => .error (.badIdentifier (String.ofList text))

def readSocketPart (written : List Char) : Except Fault Identifier :=
  if (Text.trimChars written).isEmpty then .error .emptySegment else readIdentifier written

def ofModule (module : String) : Except Fault Name :=
  return .module (← readPath module.toList)

def ofBean (module bean : String) : Except Fault Name :=
  return .bean (← readPath module.toList) (← readPath bean.toList)

def ofSocket (module bean socket : String) : Except Fault Name :=
  return .socket (← readPath module.toList) (← readPath bean.toList)
    (← readSocketPart socket.toList)

/-- Reads one to three segments; the first segment that is wrong is the one reported. -/
def parse (s : String) : Except Fault Name :=
  match Text.pieces ':' s.toList with
  | [m] => return .module (← readPath m)
  | [m, b] => return .bean (← readPath m) (← readPath b)
  | [m, b, k] => return .socket (← readPath m) (← readPath b) (← readSocketPart k)
  | _ => .error (.tooManySegments s)

/-! ### Longer names from shorter ones -/

def withBean (n : Name) (bean : String) : Except Fault Name :=
  match n with
  | .module m => return .bean m (← readPath bean.toList)
  | _ => .error (.beanOutsideModule n)

def withSocket (n : Name) (socket : String) : Except Fault Name :=
  match n with
  | .bean m b => return .socket m b (← readSocketPart socket.toList)
  | _ => .error (.socketOutsideBean n)

def nested (n : Name) (bean : String) : Except Fault Name :=
  match n with
  | .bean m b => return .bean m (b.snoc (← readIdentifier bean.toList))
  | _ => .error (.nestedOutsideBean n)

def list (names : List Name) : String := Text.bracketed (names.map text)

end Name

end Wiring
