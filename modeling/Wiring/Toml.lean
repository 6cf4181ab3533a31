import Wiring.Json.Document

/-! Values of TOML documents. -/

namespace Wiring.Toml

inductive Value
  | string (text : String)
  | integer (value : Int)
  | real (value : Float)
  | bool (value : Bool)
  /-- A date, a time of day, or both. -/
  | moment (text : String)
  | array (items : List Value)
  | table (fields : List (String × Value))

abbrev Table := List (String × Value)

mutual

/-- The value in the form that records are read from.  A moment is an object with a field that no
record knows. -/
def Value.toTree : Value → Json.Tree
  | .string text => .string text
  | .integer n => .integer n
  | .real x => .real x
  | .bool b => .bool b
  | .moment text => .object [(some "$moment", .string text)] none
  | .array items => .array (itemTrees items) none
  | .table fields => .object (fieldTrees fields) none

def itemTrees : List Value → List Json.Tree
  | [] => []
  | item :: items => item.toTree :: itemTrees items

def fieldTrees : List (String × Value) → List Json.Field
  | [] => []
  | (key, value) :: fields => (some key, value.toTree) :: fieldTrees fields

end

@[inherit_doc Value.toTree]
def Table.toTree (t : Table) : Json.Tree := (Value.table t).toTree

end Wiring.Toml
