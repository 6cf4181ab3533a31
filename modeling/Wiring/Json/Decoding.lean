import Wiring.Decimal.Shortest
import Wiring.Json.Document
import Wiring.Text.Quoted

/-! Values of records and enumerations from JSON trees.  Everything is visited in the order of the
text, and the first thing that is wrong is the answer: a fault of the text, or a value that does not
fit.  Fields that a record does not know are passed over. -/

namespace Wiring.Json

/-! ### What can be wrong -/

inductive Mismatch
  | missingField (name : String)
  | duplicateField (name : String)
  | unknownVariant (got : String) (known : List String)
  | type (got wanted : String)
  | value (got wanted : String)
  | length (got : Nat) (wanted : String)
  /-- A text of the right form that its own reader does not accept. -/
  | rejected (reason : String)
deriving DecidableEq

def ticked (s : String) : String := "`" ++ s ++ "`"

/-- The variants that are known, as a message lists them. -/
def variantList : List String → String
  | [] => "there are no variants"
  | [a] => "expected " ++ ticked a
  | [a, b] => "expected " ++ ticked a ++ " or " ++ ticked b
  | all => "expected one of " ++ ", ".intercalate (all.map ticked)

def Mismatch.message : Mismatch → String
  | .missingField name => "missing field " ++ ticked name
  | .duplicateField name => "duplicate field " ++ ticked name
  | .unknownVariant got known => "unknown variant " ++ ticked got ++ ", " ++ variantList known
  | .type got wanted => "invalid type: " ++ got ++ ", expected " ++ wanted
  | .value got wanted => "invalid value: " ++ got ++ ", expected " ++ wanted
  | .length got wanted => "invalid length " ++ toString got ++ ", expected " ++ wanted
  | .rejected reason => reason

inductive Error
  | text (fault : Fault)
  | data (mismatch : Mismatch)
deriving DecidableEq

/-! ### Where a tree is visited -/

/-- A tree is visited while the text is read, with a number of levels of nesting that are left, or
among the fields that were held back until the tag beside them was known, or as a whole value. -/
inductive Source
  | text (levels : Nat)
  | held
  | value
  /-- A whole value where surplus items count for nothing, and an empty container stands for no
  content. -/
  | lenient

/-- The levels of brackets that a text may nest, and one more. -/
def maxLevels : Nat := 128

def Source.enter : Source → Except Error Source
  | .text levels => if levels ≤ 1 then .error (.text .malformed) else .ok (.text (levels - 1))
  | s => .ok s

abbrev Decoder (α : Type) := Source → Tree → Except Error α

def close (fault? : Option Fault) : Except Error Unit :=
  match fault? with
  | some fault => .error (.text fault)
  | none => .ok ()

/-- The error that a tree is not what was wanted. -/
def wrongType (t : Tree) (wanted : String) : Error :=
  let type (got : String) : Error := .data (.type got wanted)
  match t with
  | .null => type "null"
  | .bool b => type ("boolean " ++ ticked (if b then "true" else "false"))
  | .integer n => type ("integer " ++ ticked (toString n))
  | .real x => type ("floating point " ++ ticked (Decimal.text x))
  | .string s => type ("string " ++ Text.quoted s)
  | .spoiled => .text .malformed
  | .array _ _ => type "sequence"
  | .object _ _ => type "map"
  | .fault fault => .text fault

mutual

/-- Passes over a value, of which only the form has to be right. -/
def Tree.skip : Tree → Except Error Unit
  | .array items fault? => do
    skipItems items
    close fault?
  | .object fields fault? => do
    skipFields fields
    close fault?
  | .fault fault => .error (.text fault)
  | _ => .ok ()

def skipItems : List Tree → Except Error Unit
  | [] => .ok ()
  | t :: ts => do
    t.skip
    skipItems ts

def skipFields : List Field → Except Error Unit
  | [] => .ok ()
  | (_, t) :: fields => do
    t.skip
    skipFields fields

end

mutual

def Tree.hold (source : Source) : Tree → Except Error Unit
  | .array items fault? => do
    let inner ← source.enter
    holdItems inner items
    close fault?
  | .object fields fault? => do
    let inner ← source.enter
    holdFields inner fields
    close fault?
  | .fault fault => .error (.text fault)
  | .spoiled => .error (.text .malformed)
  | _ => .ok ()

def holdItems (source : Source) : List Tree → Except Error Unit
  | [] => .ok ()
  | t :: ts => do
    t.hold source
    holdItems source ts

def holdFields (source : Source) : List Field → Except Error Unit
  | [] => .ok ()
  | (none, _) :: _ => .error (.text .malformed)
  | (some _, t) :: fields => do
    t.hold source
    holdFields source fields

end

/-! ### Plain values -/

def Decoder.string : Decoder String
  | _, .string s => .ok s
  | _, t => .error (wrongType t "a string")

def Decoder.bool : Decoder Bool
  | _, .bool b => .ok b
  | _, t => .error (wrongType t "a boolean")

def Decoder.natural (wanted : String) : Decoder Nat
  | _, .integer n =>
    if n < 0 then .error (.data (.value ("integer " ++ ticked (toString n)) wanted))
    else .ok n.toNat
  | _, t => .error (wrongType t wanted)

def Decoder.nullable (decode : Decoder α) : Decoder (Option α)
  | _, .null => .ok none
  | source, t => return some (← decode source t)

def Decoder.list (item : Decoder α) : Decoder (List α)
  | source, .array items fault? => do
    let inner ← source.enter
    let values ← items.mapM (item inner)
    close fault?
    return values
  | _, t => .error (wrongType t "a sequence")

/-- The entries of an object, with keys that their own reader accepts. -/
def Decoder.entries (key : String → Except Error κ) (item : Decoder α) : Decoder (List (κ × α))
  | source, .object fields fault? => do
    let inner ← source.enter
    let values ← fields.mapM fun (text?, t) => do
      match text? with
      | none => throw (.text .malformed)
      | some text =>
        let k ← key text
        return (k, ← item inner t)
    close fault?
    return values
  | _, t => .error (wrongType t "a map")

/-! ### Records -/

def Decoder.into (put : α → ρ → ρ) (decode : Decoder α) : Decoder (ρ → ρ) :=
  fun source t => put <$> decode source t

/-- What a record is read from: its fields in order, and those of them that have to be there. -/
structure Record (ρ : Type) where
  title : String
  fields : List (String × Decoder (ρ → ρ))
  required : List String := []

namespace Record

/-- Puts the fields of an object into a record, after those in `seen`, and returns all their
names. -/
def readFields (r : Record ρ) (source : Source) (value : ρ) (seen : List String) :
    List Field → Except Error (ρ × List String)
  | [] => .ok (value, seen)
  | (none, _) :: _ => .error (.text .malformed)
  | (some key, t) :: fields =>
    match r.fields.lookup key with
    | none => do
      t.skip
      r.readFields source value seen fields
    | some decode =>
      if key ∈ seen then .error (.data (.duplicateField key))
      else do
        let put ← decode source t
        r.readFields source (put value) (key :: seen) fields

/-- Puts the items of an array into a record, as the fields at their places. -/
def readItems (source : Source) (value : ρ) :
    List (String × Decoder (ρ → ρ)) → List Tree → Except Error ρ
  | (_, decode) :: known, t :: ts => do
    let put ← decode source t
    readItems source (put value) known ts
  | _, _ => .ok value

def countText (n : Nat) : String := toString n ++ (if n == 1 then " element" else " elements")

def noSurplus (source : Source) (items known : Nat) : Except Error Unit :=
  if items ≤ known then .ok ()
  else
    match source with
    | .text _ => .error (.text .malformed)
    | .held => .error (.data (.length items (countText known ++ " in sequence")))
    | .value => .error (.data (.length items "fewer elements in array"))
    | .lenient => .ok ()

/-- Asks for the required fields, the first of which that is missing is the fault. -/
def demand (r : Record ρ) (seen : List String) (absent : String → Mismatch) :
    Except Error Unit :=
  match r.required.find? (· ∉ seen) with
  | some name => .error (.data (absent name))
  | none => .ok ()

/-- Reads a record into a blank one.  It is written as an object, or as an array of its fields in
order, of which the last may be left out. -/
def decode (r : Record ρ) (blank : ρ) : Decoder ρ
  | source, .object fields fault? => do
    let inner ← source.enter
    let (value, seen) ← r.readFields inner blank [] fields
    close fault?
    r.demand seen .missingField
    return value
  | source, .array items fault? => do
    let inner ← source.enter
    let value ← readItems inner blank r.fields items
    noSurplus source items.length r.fields.length
    close fault?
    r.demand ((r.fields.take items.length).map (·.1)) fun _ =>
      .length items.length (r.title ++ " with " ++ countText r.fields.length)
    return value
  | _, t => .error (wrongType t r.title)

end Record

/-! ### Enumerations -/

def oneOf (variants : List String) (name : String) : Except Error String :=
  if name ∈ variants then .ok name else .error (.data (.unknownVariant name variants))

/-- A tag; one that was held back may also be the number of its variant. -/
def Decoder.variantName (variants : List String) : Decoder String
  | _, .string s => oneOf variants s
  | .held, .integer n =>
    if n < 0 then .error (wrongType (.integer n) "variant identifier")
    else
      match variants[n.toNat]? with
      | some name => .ok name
      | none =>
        .error (.data (.value ("integer " ++ ticked (toString n))
          ("variant index 0 <= i < " ++ toString variants.length)))
  | _, t => .error (wrongType t "variant identifier")

/-- A variant without fields: its name, or an object that gives null to the name. -/
def Decoder.unitVariant (variants : List String) : Decoder String
  | _, .string s => oneOf variants s
  | .text levels, .object fields fault? => do
    let _ ← Source.enter (.text levels)
    match fields with
    | [] =>
      close fault?
      throw (.text .malformed)
    | (none, _) :: _ => throw (.text .malformed)
    | (some key, t) :: others =>
      let name ← oneOf variants key
      match t with
      | .null => pure ()
      | t => throw (wrongType t "unit")
      if !others.isEmpty then throw (.text .malformed)
      close fault?
      return name
  | .text _, .fault fault => .error (.text fault)
  | .text _, _ => .error (.text .malformed)
  | source, .object [(some key, t)] _ => do
    let name ← oneOf variants key
    match source, t with
    | _, .null => return name
    | .lenient, .array [] _ => return name
    | .lenient, .object [] _ => return name
    | _, t => throw (wrongType t "unit")
  | _, .object _ _ => .error (.data (.value "map" "map with a single key"))
  | _, t => .error (wrongType t "string or map")

/-- The fields of an object whose tag names the variant, and the fields beside the tag. -/
def splitTag (tag : String) (variants : List String) (source : Source) (variant? : Option String) :
    List Field → Except Error (Option String × List Field)
  | [] => .ok (variant?, [])
  | (none, _) :: _ => .error (.text .malformed)
  | (some key, t) :: fields =>
    if key = tag then
      if variant?.isSome then .error (.data (.duplicateField tag))
      else do
        let name ← Decoder.variantName variants source t
        splitTag tag variants source (some name) fields
    else do
      t.hold source
      let (variant?, others) ← splitTag tag variants source variant? fields
      return (variant?, (some key, t) :: others)

/-- A value with a tag among its own fields: the variant and the held fields beside the tag.  In an
array the tag comes first. -/
def Decoder.tagged (title tag : String) (variants : List String) : Decoder (String × Tree)
  | source, .object fields fault? => do
    let inner ← source.enter
    let (variant?, others) ← splitTag tag variants inner none fields
    close fault?
    match variant? with
    | some name => return (name, .object others none)
    | none => throw (.data (.missingField tag))
  | source, .array items fault? => do
    let inner ← source.enter
    match items with
    | [] =>
      close fault?
      throw (.data (.missingField tag))
    | t :: others =>
      let name ← Decoder.variantName variants inner t
      holdItems inner others
      close fault?
      return (name, .array others none)
  | _, t => .error (wrongType t title)

/-- A tagged value whose variants are told apart by one field and filled from another. -/
structure Adjacent (α : Type) where
  title : String
  tag : String
  content : String
  variants : List String
  read : String → Decoder α
  /-- A variant that needs no content. -/
  bare? : String → Option α

namespace Adjacent

structure Progress (α : Type) where
  variant? : Option String := none
  held? : Option Tree := none
  result? : Option α := none

def readFields (a : Adjacent α) (source : Source) (p : Progress α) :
    List Field → Except Error (Progress α)
  | [] => .ok p
  | (none, _) :: _ => .error (.text .malformed)
  | (some key, t) :: fields =>
    if key = a.tag then
      if p.variant?.isSome then .error (.data (.duplicateField a.tag))
      else do
        let name ← Decoder.variantName a.variants source t
        let result? ← p.held?.mapM (a.read name .held)
        a.readFields source ⟨some name, none, result?⟩ fields
    else if key = a.content then
      if p.held?.isSome || p.result?.isSome then .error (.data (.duplicateField a.content))
      else
        match p.variant? with
        | some name => do
          let result ← a.read name source t
          a.readFields source ⟨some name, none, some result⟩ fields
        | none => do
          t.hold source
          a.readFields source ⟨none, some t, none⟩ fields
    else do
      t.skip
      a.readFields source p fields

def decode (a : Adjacent α) : Decoder α
  | source, .object fields fault? => do
    let inner ← source.enter
    let p ← a.readFields inner {} fields
    close fault?
    match p.variant?, p.result? with
    | none, _ => throw (.data (.missingField a.tag))
    | some _, some result => return result
    | some name, none =>
      match a.bare? name with
      | some result => return result
      | none => throw (.data (.missingField a.content))
  | source, .array items fault? => do
    let inner ← source.enter
    match items with
    | [] =>
      close fault?
      throw (.data (.length 0 a.title))
    | [t] =>
      let _ ← Decoder.variantName a.variants inner t
      close fault?
      throw (.data (.length 1 a.title))
    | t :: content :: _ =>
      let name ← Decoder.variantName a.variants inner t
      let result ← a.read name inner content
      Record.noSurplus source items.length 2
      close fault?
      return result
  | _, t => .error (wrongType t a.title)

end Adjacent

/-- A variant without content where content may stand: null. -/
def Decoder.unit (title : String) (value : α) : Decoder α
  | _, .null => .ok value
  | _, t => .error (wrongType t title)

/-- A variant with fields: an object whose one key is the name of the variant. -/
def Decoder.keyed (variants : List String) (read : String → Decoder α) : Decoder α
  | _, .string s => do
    let _ ← oneOf variants s
    throw (.data (.type "unit variant" "struct variant"))
  | source, .object [(some key, t)] fault? => do
    let inner ← source.enter
    let name ← oneOf variants key
    let value ← match t with
      | .object fields fault? => read name inner (.object fields fault?)
      | t => throw (wrongType t "struct variant")
    close fault?
    return value
  | _, .object _ _ => .error (.data (.value "map" "map with a single key"))
  | _, t => .error (wrongType t "string or map")

/-! ### Whole texts -/

def decodeText (decode : Decoder α) (text : String) : Except Error α := do
  let document := Document.read text
  let value ← decode (.text maxLevels) document.root
  close document.trailing?
  return value

/-! ### Depth -/

mutual

def Tree.height : Tree → Nat
  | .array items _ => itemsHeight items + 1
  | .object fields _ => fieldsHeight fields + 1
  | _ => 0

def itemsHeight : List Tree → Nat
  | [] => 0
  | t :: ts => max t.height (itemsHeight ts)

def fieldsHeight : List Field → Nat
  | [] => 0
  | (_, t) :: fields => max t.height (fieldsHeight fields)

end

end Wiring.Json
