import Wiring.Json
import Wiring.Json.Token

/-! A JSON text as a tree, read as far as it goes.  Where the text stops being JSON, the tree has a
fault in place of what is missing, and everything before that place is there.  So a reader that
visits the tree in the order of the text meets what is wrong with the values and what is wrong with
the text in the order in which they stand. -/

namespace Wiring.Json

inductive Tree
  | null
  | bool (value : Bool)
  | integer (value : Int)
  | real (value : Float)
  | string (text : String)
  /-- A string or number of the right form that has no value. -/
  | spoiled
  /-- The items read, and what is wrong before the closing bracket. -/
  | array (items : List Tree) (fault? : Option Fault)
  /-- The fields read, where a spoiled key has no text. -/
  | object (fields : List (Option String × Tree)) (fault? : Option Fault)
  | fault (fault : Fault)

abbrev Field := Option String × Tree

/-- The root of a text, and what is wrong after it. -/
structure Document where
  root : Tree
  trailing? : Option Fault

mutual

def toTree : Json → Tree
  | .null => .null
  | .bool b => .bool b
  | .integer n => .integer n
  | .string s => .string s
  | .array items => .array (itemTrees items) none
  | .object fields => .object (fieldTrees fields) none

def itemTrees : List Json → List Tree
  | [] => []
  | item :: items => item.toTree :: itemTrees items

def fieldTrees : List (String × Json) → List Field
  | [] => []
  | (key, value) :: fields => (some key, value.toTree) :: fieldTrees fields

end

/-! ### Reading -/

/-- A container that is still open, with what precedes the value being read, the last first. -/
inductive Frame
  | array (before : List Tree)
  | object (before : List Field) (key : Option String)

inductive Place
  | value
  /-- A first item, or the end of an array. -/
  | firstItem
  /-- A key, or the end of the object when it has no fields. -/
  | key (before : List Field)
  | colon (before : List Field) (key : Option String)
  /-- A comma or the end of the innermost container, after the value. -/
  | after (value : Tree)

/-- The tree when the text breaks off inside the frames, at or after the given value. -/
def cut (fault : Fault) : Tree → List Frame → Tree
  | t, [] => t
  | t, .array before :: frames => cut fault (.array (t :: before).reverse (some fault)) frames
  | t, .object before key :: frames =>
    cut fault (.object ((key, t) :: before).reverse (some fault)) frames

/-- The document when the text breaks off at a place. -/
def Place.break (fault : Fault) (frames : List Frame) : Place → Document
  | .value => ⟨cut fault (.fault fault) frames, none⟩
  | .firstItem => ⟨cut fault (.array [] (some fault)) frames, none⟩
  | .key before => ⟨cut fault (.object before.reverse (some fault)) frames, none⟩
  | .colon before text =>
    ⟨cut fault (.object ((text, .fault fault) :: before).reverse (some fault)) frames, none⟩
  | .after t => ⟨cut fault t frames, if frames.isEmpty then some fault else none⟩

def Token.scalar? : Token → Option Tree
  | .null => some .null
  | .bool b => some (.bool b)
  | .integer n => some (.integer n)
  | .real x => some (.real x)
  | .string s => some (.string s)
  | .spoiled _ => some .spoiled
  | _ => none

/-- The next place and the open frames after a token, or the fault that the token is there. -/
def Place.next (token : Token) (frames : List Frame) : Place → Except Fault (Place × List Frame)
  | .value => value frames
  | .firstItem =>
    match token with
    | .endArray => .ok (.after (.array [] none), frames)
    | _ => value (.array [] :: frames)
  | .key before =>
    match token with
    | .endObject =>
      if before.isEmpty then .ok (.after (.object [] none), frames) else .error .malformed
    | .string s => .ok (.colon before (some s), frames)
    | .spoiled true => .ok (.colon before none, frames)
    | .broken fault true => .error fault
    | _ => .error .malformed
  | .colon before text =>
    match token with
    | .colon => .ok (.value, .object before text :: frames)
    | _ => .error .malformed
  | .after t =>
    match frames, token with
    | .array before :: frames, .comma => .ok (.value, .array (t :: before) :: frames)
    | .array before :: frames, .endArray =>
      .ok (.after (.array (t :: before).reverse none), frames)
    | .object before text :: frames, .comma => .ok (.key ((text, t) :: before), frames)
    | .object before text :: frames, .endObject =>
      .ok (.after (.object ((text, t) :: before).reverse none), frames)
    | _, _ => .error .malformed
where
  value (frames : List Frame) : Except Fault (Place × List Frame) :=
    match token.scalar?, token with
    | some t, _ => .ok (.after t, frames)
    | none, .beginArray => .ok (.firstItem, frames)
    | none, .beginObject => .ok (.key [], frames)
    | none, .broken fault _ => .error fault
    | none, _ => .error .malformed

/-- Reads tokens from a place inside open frames. -/
def Place.run (frames : List Frame) (place : Place) : List Token → Document
  | [] =>
    match place, frames with
    | .after t, [] => ⟨t, none⟩
    | place, frames => place.break .truncated frames
  | token :: tokens =>
    match place.next token frames with
    | .ok (place, frames) => place.run frames tokens
    | .error fault => place.break fault frames

def Document.read (text : String) : Document := Place.run [] .value (tokens text.toList)

end Wiring.Json
