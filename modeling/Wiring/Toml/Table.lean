import Wiring.Toml.Line

/-! The table that a TOML document holds.  Each header leads to a table, and the entries up to the
next header go into it.  A table is defined once, and no entry replaces another. -/

namespace Wiring.Toml

/-- Changes the table that a header's path leads to, in a last step that `finish` takes.  The path
may lead through tables of any kind and through the last elements of arrays. -/
def Items.alterAt (finish : Option Item → Option Item) : (path : List String) → Items → Option Items
  | [], _ => none
  | [key], items => items.alter key finish
  | key :: path, items =>
    items.alter key fun item? =>
      match item? with
      | none => .implied <$> Items.alterAt finish path []
      | some (.implied fields) => .implied <$> Items.alterAt finish path fields
      | some (.defined fields) => .defined <$> Items.alterAt finish path fields
      | some (.dotted fields) => .dotted <$> Items.alterAt finish path fields
      | some (.elements es) => .elements <$> alterLast (Items.alterAt finish path) es
      | some (.value _) => none

/-- A header defines a new table, or one that other headers have implied. -/
def define : Option Item → Option Item
  | none => some (.defined [])
  | some (.implied fields) => some (.defined fields)
  | some _ => none

/-- A header adds an element to a new array, or to one that other headers have made. -/
def addElement : Option Item → Option Item
  | none => some (.elements [[]])
  | some (.elements es) => some (.elements (es ++ [[]]))
  | some _ => none

/-- An entry goes into the table that the last header has led to. -/
def enter (path : List String) (value : Value) : Option Item → Option Item
  | some (.defined fields) => .defined <$> Items.insert true value path fields
  | some (.elements es) => .elements <$> alterLast (Items.insert true value path) es
  | _ => none

/-- The items after some more lines, of which the entries go to the table `header`. -/
def Items.addLines (header : List String) (items : Items) : List Line → Option Items
  | [] => some items
  | .table path :: lines => do (← items.alterAt define path).addLines path lines
  | .element path :: lines => do (← items.alterAt addElement path).addLines path lines
  | .entry path value :: lines => do
    let items ←
      if header.isEmpty then items.insert true value path
      else items.alterAt (enter path value) header
    items.addLines header lines

/-- The text with every line end as a line feed, and without a byte order mark. -/
def normalizeLineEnds : List Char → List Char
  | '\r' :: '\n' :: rest => '\n' :: normalizeLineEnds rest
  | c :: rest => c :: normalizeLineEnds rest
  | [] => []

def dropByteOrderMark : List Char → List Char
  | '\ufeff' :: rest => rest
  | cs => cs

/-- The table that a text holds, if it is a document. -/
def read (text : String) : Option Table := do
  let cs := normalizeLineEnds (dropByteOrderMark text.toList)
  let lines ← readLines (cs.length + 1) cs
  return (← Items.addLines [] [] lines).toTable

end Wiring.Toml
