import Wiring.Document.Settings
import Wiring.Toml.Table
import Wiring.Workspace

/-! Where settings come from: a file, and over it the variables of the environment.  Each of them is
a table, and what no table gives has its default. -/

namespace Wiring.Settings

/-! ### Tables over one another -/

mutual

/-- A value that comes later, over one that was there: tables are merged. -/
def overValue (base : Toml.Value) : (later : Toml.Value) → Toml.Value
  | .table fields =>
    match base with
    | .table baseFields => .table (overTable baseFields fields)
    | _ => .table fields
  | later => later

def overTable (base : Toml.Table) : (later : Toml.Table) → Toml.Table
  | [] => base
  | (key, value) :: rest =>
    match base.lookup key with
    | some old =>
      let merged := overValue old value
      overTable (base.map fun (k, v) => (k, if k = key then merged else v)) rest
    | none => overTable (base ++ [(key, value)]) rest

end

/-! ### The environment -/

/-- The beginning of the names of variables that hold settings, in any case. -/
def variableMark : List Char := "wireplan_".toList

def isSeparator (c : Char) : Bool := c == ',' || c == '\x7b' || c == '\x7d' || c == '[' || c == ']'

/-- A whole number of 64 bits, or a number with a decimal point. -/
def variableNumber? (word : List Char) : Option Toml.Value :=
  let (negative, magnitude) := Toml.splitSign word
  let whole := magnitude.takeWhile Char.isDigit
  match magnitude.drop whole.length with
  | [] =>
    let n : Int := if negative then -(Toml.ofDigits 10 whole) else Toml.ofDigits 10 whole
    if !whole.isEmpty && -(Int.pow 2 63) ≤ n && n < Int.pow 2 64 then some (.integer n) else none
  | '.' :: fraction =>
    if fraction.all Char.isDigit && !(whole ++ fraction).isEmpty then
      let x := Float.ofScientific (Toml.ofDigits 10 (whole ++ fraction)) true fraction.length
      some (.real (if negative then -x else x))
    else none
  | _ => none

def variableValue (text : String) : Toml.Value :=
  let word := Text.trimChars text.toList
  if word = ['t', 'r', 'u', 'e'] then .bool true
  else if word = ['f', 'a', 'l', 's', 'e'] then .bool false
  else if word.any isSeparator then .string text
  else (variableNumber? word).getD (.string (String.ofList word))

/-- The name of a variable, in small letters, with a dot for two underscores. -/
def dotted : List Char → List Char
  | '_' :: '_' :: rest => '.' :: dotted rest
  | c :: rest => c.toLower :: dotted rest
  | [] => []

/-- The keys that lead to the setting that a variable holds, if it holds one. -/
def variablePath? (name : String) : Option (List String) :=
  let cs := Text.trimChars name.toList
  if variableMark.isPrefixOf (cs.map Char.toLower) then
    let keys := Text.pieces '.' (dotted (cs.drop variableMark.length))
    if keys.any List.isEmpty then none else some (keys.map String.ofList)
  else none

def nest (value : Toml.Value) : List String → Toml.Table
  | [] => []
  | [key] => [(key, value)]
  | key :: keys => [(key, .table (nest value keys))]

def ofEnvironment (environment : List (String × String)) : Toml.Table :=
  environment.foldl (fun table (name, text) =>
    match variablePath? name with
    | some keys => overTable table (nest (variableValue text) keys)
    | none => table) []

/-! ### Loading -/

def fileName : String := "wireplan.toml"

def candidates (configHome? : Option String) : List String :=
  [fileName, ".wireplan/" ++ fileName] ++
    (configHome?.map fun home => home ++ "/wireplan/" ++ fileName).toList

def unreadable : Failure := .configurationDuring "Failed to extract configuration" .unreadable

/-- The table at a path; a directory has none. -/
def tableAt (w : Workspace) (path : String) : Except Failure Toml.Table :=
  match w.read path with
  | .error _ => .ok []
  | .ok text =>
    match Toml.read text with
    | some table => .ok table
    | none => .error unreadable

/-- The table of a given file, which must be there, or of the first file that is found. -/
def fileTable (w : Workspace) (path? : Option String) : Except Failure Toml.Table :=
  match path? with
  | some path =>
    if w.contains path then tableAt w path
    else .error (.config ("Configuration file not found: " ++ path))
  | none =>
    match (candidates w.configHome?).find? w.contains with
    | some path => tableAt w path
    | none => .ok []

def ofTable (table : Toml.Table) : Except Failure Settings :=
  match decode .lenient table.toTree with
  | .ok s => .ok s
  | .error _ => .error unreadable

def load (w : Workspace) (path? : Option String) : Except Failure Settings := do
  let file ← fileTable w path?
  let s ← ofTable (overTable file (ofEnvironment w.environment))
  s.checked

end Wiring.Settings
