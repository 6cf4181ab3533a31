import Wiring.Document.Graph
import Wiring.Toml.Table
import Wiring.Workspace

/-! Graph documents in the two formats in which they may be written. -/

namespace Wiring

inductive DocumentFormat
  | json
  | toml
deriving DecidableEq

namespace DocumentFormat

/-- The last name on a path, if the path ends in a name. -/
def fileName? (path : String) : Option (List Char) :=
  match ((Text.pieces '/' path.toList).filter fun s => s ≠ [] && s ≠ ['.']).getLast? with
  | some ['.', '.'] => none
  | name? => name?

/-- What follows the last dot of a name that does not begin with it. -/
def extension? (name : List Char) : Option (List Char) :=
  let reversed := (name.reverse.takeWhile (· != '.'))
  if reversed.length + 1 < name.length then some reversed.reverse else none

/-- The format that the extension of a path names in any case; it is JSON when it names none. -/
def ofPath (path : String) : DocumentFormat :=
  match (fileName? path).bind extension? with
  | some extension => if extension.map Char.toLower = ['t', 'o', 'm', 'l'] then .toml else .json
  | none => .json

end DocumentFormat

namespace Graph

def ofToml? (text : String) : Option Graph := do
  let table ← Toml.read text
  (decode .lenient table.toTree).toOption

def parse (format : DocumentFormat) (text : String) : Except Failure Graph :=
  match format with
  | .json =>
    match ofJson text with
    | .ok g => .ok g
    | .error e => .error (.json e)
  | .toml =>
    match ofToml? text with
    | some g => .ok g
    | none => .error (.infrastructure "Failed to parse TOML graph" .unreadable)

def load (w : Workspace) (path : String) : Except Failure Graph :=
  match w.read path with
  | .error fault => .error (.ioDuring ("Failed to read wiring graph " ++ path) fault.message)
  | .ok text =>
    match parse (.ofPath path) text with
    | .ok g => .ok g
    | .error failure =>
      .error (.infrastructure ("Invalid wiring graph " ++ path) (.failure failure))

end Graph

end Wiring
