import Wiring.Toml.Quoted
import Wiring.Toml.Scalar

/-! The lines of a TOML document: headers of tables and of their elements, and entries.  An entry
may go on over several lines of the text.  A line is read on its own; what the lines make together
is for `Wiring.Toml.Table`. -/

namespace Wiring.Toml

/-! ### Keys -/

def isBareKeyChar (c : Char) : Bool := c.isAlphanum || c == '_' || c == '-'

def skipBlanks (cs : List Char) : List Char := cs.dropWhile isBlank

/-- Reads one part of a key, bare or in quotation marks. -/
def readKeyPart (cs : List Char) : Option (String × List Char) :=
  match cs with
  | '"' :: _ | '\'' :: _ => readShort cs
  | cs =>
    let part := cs.takeWhile isBareKeyChar
    if part.isEmpty then none else some (String.ofList part, cs.dropWhile isBareKeyChar)

/-- Reads a key, the parts of which have dots between them, and the blanks around it.  There are no
more parts than `fuel`. -/
def readKeyParts : (fuel : Nat) → List Char → Option (List String × List Char)
  | 0, _ => none
  | fuel + 1, cs => do
    let (part, rest) ← readKeyPart (skipBlanks cs)
    match skipBlanks rest with
    | '.' :: rest => do
      let (parts, rest) ← readKeyParts fuel rest
      return (part :: parts, rest)
    | rest => return ([part], rest)

def readKey (cs : List Char) : Option (List String × List Char) := readKeyParts (cs.length + 1) cs

/-! ### Tables -/

inductive Item
  | value (value : Value)
  /-- A table that is only there because a header leads through it. -/
  | implied (fields : List (String × Item))
  /-- A table that a header defines. -/
  | defined (fields : List (String × Item))
  /-- A table that the keys of entries lead through. -/
  | dotted (fields : List (String × Item))
  /-- The elements of an array of tables. -/
  | elements (elements : List (List (String × Item)))

abbrev Items := List (String × Item)

def Items.alter (key : String) (change : Option Item → Option Item) : Items → Option Items
  | [] => do return [(key, ← change none)]
  | (k, item) :: rest =>
    if k = key then do return (k, ← change (some item)) :: rest
    else do return (k, item) :: (← Items.alter key change rest)

def alterLast (change : α → Option α) : List α → Option (List α)
  | [] => none
  | [a] => do return [← change a]
  | a :: as => do return a :: (← alterLast change as)

/-- Adds an entry to a table.  Its key may lead through tables that other keys lead through or that
headers imply, and end in one of the former or in the table itself; `mayEnd` says that it may end
here. -/
def Items.insert (mayEnd : Bool) (value : Value) : (path : List String) → Items → Option Items
  | [], _ => none
  | [key], items =>
    if mayEnd then
      items.alter key fun item? => if item?.isNone then some (.value value) else none
    else none
  | key :: path, items =>
    items.alter key fun item? =>
      match item? with
      | none => .dotted <$> Items.insert true value path []
      | some (.dotted fields) => .dotted <$> Items.insert true value path fields
      | some (.implied fields) => .implied <$> Items.insert false value path fields
      | some (.elements es) => .elements <$> alterLast (Items.insert false value path) es
      | some (.defined _) | some (.value _) => none

mutual

def Item.toValue : Item → Value
  | .value value => value
  | .implied fields | .defined fields | .dotted fields => .table (Items.toTable fields)
  | .elements es => .array (Items.toTables es)

def Items.toTable : Items → Table
  | [] => []
  | (key, item) :: rest => (key, item.toValue) :: Items.toTable rest

def Items.toTables : List Items → List Value
  | [] => []
  | fields :: rest => .table (Items.toTable fields) :: Items.toTables rest

end

/-! ### Values -/

def skipGap (inComment : Bool) : List Char → Option (List Char)
  | [] => some []
  | c :: rest =>
    if c == '\n' then skipGap false rest
    else if inComment then (if isPlain c then skipGap true rest else none)
    else if isBlank c then skipGap false rest
    else if c == '#' then skipGap true rest
    else some (c :: rest)

/-- Reads the items of an array up to its closing bracket; there are no more than `fuel`. -/
def readItems (item : List Char → Option (Value × List Char)) :
    (fuel : Nat) → List Char → Option (List Value × List Char)
  | 0, _ => none
  | fuel + 1, cs => do
    match ← skipGap false cs with
    | ']' :: rest => return ([], rest)
    | cs =>
      let (value, rest) ← item cs
      match ← skipGap false rest with
      | ',' :: rest =>
        let (values, rest) ← readItems item fuel rest
        return (value :: values, rest)
      | ']' :: rest => return ([value], rest)
      | _ => none

def readEntry (value : List Char → Option (Value × List Char)) (cs : List Char) :
    Option ((List String × Value) × List Char) := do
  match ← readKey cs with
  | (path, '=' :: rest) =>
    let (v, rest) ← value (skipBlanks rest)
    return ((path, v), rest)
  | _ => none

/-- Reads the entries of a table on one line, after `items`, up to its closing brace. -/
def readFields (value : List Char → Option (Value × List Char)) (items : Items) :
    (fuel : Nat) → List Char → Option (Items × List Char)
  | 0, _ => none
  | fuel + 1, cs => do
    match ← skipGap false cs with
    | '\x7d' :: rest => return (items, rest)
    | cs =>
      let ((path, v), rest) ← readEntry value cs
      let items ← items.insert true v path
      match ← skipGap false rest with
      | ',' :: rest => readFields value items fuel rest
      | '\x7d' :: rest => return (items, rest)
      | _ => none

/-- Reads a value with at most `levels` arrays and tables inside one another. -/
def readValue : (levels : Nat) → List Char → Option (Value × List Char)
  | levels, '[' :: rest =>
    match levels with
    | 0 => none
    | levels + 1 => do
      let (items, rest) ← readItems (readValue levels) (rest.length + 1) rest
      return (.array items, rest)
  | levels, '\x7b' :: rest =>
    match levels with
    | 0 => none
    | levels + 1 => do
      let (items, rest) ← readFields (readValue levels) [] (rest.length + 1) rest
      return (.table items.toTable, rest)
  | _, '"' :: rest => do
    let (text, rest) ← readString ('"' :: rest)
    return (.string text, rest)
  | _, '\'' :: rest => do
    let (text, rest) ← readString ('\'' :: rest)
    return (.string text, rest)
  | _, cs =>
    let (word, rest) := splitWord cs
    do return (← scalar? word, rest)

/-- The arrays and tables that a value may have inside one another. -/
def maxLevels : Nat := 80

/-! ### Lines -/

inductive Line
  | table (path : List String)
  /-- The header of a new element in an array of tables. -/
  | element (path : List String)
  | entry (path : List String) (value : Value)

/-- Goes over blanks and a comment to the next line. -/
def closeLine (inComment : Bool) : List Char → Option (List Char)
  | [] => some []
  | c :: rest =>
    if c == '\n' then some rest
    else if inComment then (if isPlain c then closeLine true rest else none)
    else if isBlank c then closeLine false rest
    else if c == '#' then closeLine true rest
    else none

/-- Reads what stands on a line before its end; a line may be empty. -/
def readLine (cs : List Char) : Option (Option Line × List Char) :=
  match skipBlanks cs with
  | [] => some (none, [])
  | '\n' :: rest => some (none, '\n' :: rest)
  | '#' :: rest => some (none, '#' :: rest)
  | '[' :: '[' :: rest => do
    match ← readKey rest with
    | (path, ']' :: ']' :: rest) => return (some (.element path), rest)
    | _ => none
  | '[' :: rest => do
    match ← readKey rest with
    | (path, ']' :: rest) => return (some (.table path), rest)
    | _ => none
  | cs => do
    let ((path, value), rest) ← readEntry (readValue maxLevels) cs
    return (some (.entry path value), rest)

/-- Reads all lines; there are no more than `fuel`. -/
def readLines : (fuel : Nat) → List Char → Option (List Line)
  | _, [] => some []
  | 0, _ => none
  | fuel + 1, cs => do
    let (line?, rest) ← readLine cs
    let lines ← readLines fuel (← closeLine false rest)
    return line?.toList ++ lines

end Wiring.Toml
