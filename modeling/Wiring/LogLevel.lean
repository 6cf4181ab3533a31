import Wiring.Failure

/-! How much the program tells of its work. -/

namespace Wiring

inductive LogLevel
  | trace
  | debug
  | info
  | warn
  | error
deriving DecidableEq

namespace LogLevel

/-- The level as a filter names it. -/
def text : LogLevel → String
  | .trace => "trace"
  | .debug => "debug"
  | .info => "info"
  | .warn => "warn"
  | .error => "error"

/-- The level as messages name it. -/
def label (l : LogLevel) : String := String.ofList (l.text.toList.map Char.toUpper)

/-- The level of a name in small letters. -/
def ofText? (text : String) : Option LogLevel :=
  match text with
  | "trace" => some .trace
  | "debug" => some .debug
  | "info" => some .info
  | "warn" | "warning" => some .warn
  | "error" => some .error
  | _ => none

/-- Reads a name in any case.  Only ASCII letters have to be lowered, since no other letter becomes
one of those that the names are made of. -/
def parse (text : String) : Except Failure LogLevel :=
  match ofText? (String.ofList (text.toList.map Char.toLower)) with
  | some level => .ok level
  | none =>
    .error (.configuration
      ("Invalid log level: " ++ text ++ ". Use trace, debug, info, warn, or error"))

end LogLevel

end Wiring
