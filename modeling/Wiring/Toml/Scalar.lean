import Wiring.Text
import Wiring.Toml

/-! Values of TOML documents that are written as one word: truth values, numbers and moments. -/

namespace Wiring.Toml

/-! ### Numbers -/

/-- The digits of a number, between which single underscores may stand. -/
def digits? (isDigit : Char → Bool) (cs : List Char) : Option (List Char) :=
  let parts := Text.pieces '_' cs
  if parts.all fun part => !part.isEmpty && part.all isDigit then some parts.flatten else none

def wholeDigits? (cs : List Char) : Option (List Char) := do
  let ds ← digits? Char.isDigit cs
  if ds.length > 1 && ds.head? == some '0' then none else some ds

def digitValue (c : Char) : Nat := (Json.hexDigit? c).getD 0

def ofDigits (base : Nat) (ds : List Char) : Nat := ds.foldl (fun n c => n * base + digitValue c) 0

def splitSign : List Char → Bool × List Char
  | '-' :: rest => (true, rest)
  | '+' :: rest => (false, rest)
  | cs => (false, cs)

/-- Integers have 64 bits, one of which is for the sign. -/
def inRange (n : Int) : Bool := -(Int.pow 2 63) ≤ n && n < Int.pow 2 63

def isBaseDigit (base : Nat) (c : Char) : Bool := (Json.hexDigit? c).any (· < base)

def based? (base : Nat) (cs : List Char) : Option Int :=
  (ofDigits base ·) <$> digits? (isBaseDigit base) cs

def integer? (cs : List Char) : Option Int := do
  let n ←
    match cs with
    | '0' :: 'x' :: ds => based? 16 ds
    | '0' :: 'o' :: ds => based? 8 ds
    | '0' :: 'b' :: ds => based? 2 ds
    | cs =>
      let (negative, ds) := splitSign cs
      let n : Int := ofDigits 10 (← wholeDigits? ds)
      pure (if negative then -n else n)
  if inRange n then some n else none

/-- An exponent, which is a hundred thousand at most in size: a greater one makes no other
number. -/
def exponent? (cs : List Char) : Option Int := do
  let (negative, ds) := splitSign cs
  let n : Int := min (ofDigits 10 (← digits? Char.isDigit ds)) 100000
  return if negative then -n else n

def real? (cs : List Char) : Option Float := do
  let (negative, ds) := splitSign cs
  let magnitude ←
    match ds with
    | ['i', 'n', 'f'] => pure (1.0 / 0.0)
    | ['n', 'a', 'n'] => pure (0.0 / 0.0)
    | ds =>
      if !ds.any (fun c => c == '.' || c == 'e' || c == 'E') then none
      let mantissa := ds.takeWhile fun c => c != 'e' && c != 'E'
      let exponent ←
        match ds.dropWhile fun c => c != 'e' && c != 'E' with
        | [] => pure 0
        | _ :: e => exponent? e
      let whole ← wholeDigits? (mantissa.takeWhile (· != '.'))
      let fraction ←
        match mantissa.dropWhile (· != '.') with
        | [] => pure []
        | _ :: f => digits? Char.isDigit f
      let shift := exponent - fraction.length
      let x := Float.ofScientific (ofDigits 10 (whole ++ fraction)) (shift < 0) shift.natAbs
      if x.isInf then none else pure x
  return if negative then -magnitude else magnitude

/-! ### Moments -/

def field? (width low high : Nat) (cs : List Char) : Option Nat :=
  if cs.length == width && cs.all Char.isDigit then
    let n := ofDigits 10 cs
    if low ≤ n && n ≤ high then some n else none
  else none

def isLeapYear (y : Nat) : Bool := y % 4 == 0 && (y % 100 != 0 || y % 400 == 0)

def daysInMonth (year month : Nat) : Nat :=
  if month == 2 then (if isLeapYear year then 29 else 28)
  else if month == 4 || month == 6 || month == 9 || month == 11 then 30
  else 31

/-- A date such as `1979-05-27`. -/
def isDate (cs : List Char) : Bool :=
  match Text.pieces '-' cs with
  | [y, m, d] =>
    match field? 4 0 9999 y, field? 2 1 12 m with
    | some year, some month => (field? 2 1 (daysInMonth year month) d).isSome
    | _, _ => false
  | _ => false

/-- A time of day such as `07:32:00.5`, with or without the seconds. -/
def isTime (cs : List Char) : Bool :=
  match Text.pieces ':' cs with
  | [h, m] => (field? 2 0 23 h).isSome && (field? 2 0 59 m).isSome
  | [h, m, s] =>
    (field? 2 0 23 h).isSome && (field? 2 0 59 m).isSome &&
      match Text.pieces '.' s with
      | [s] => (field? 2 0 60 s).isSome
      | [s, fraction] =>
        (field? 2 0 60 s).isSome && !fraction.isEmpty && fraction.all Char.isDigit
      | _ => false
  | _ => false

/-- The distance from universal time, such as `Z` or `-07:00`. -/
def isOffset (cs : List Char) : Bool :=
  match cs with
  | [] => true
  | ['Z'] | ['z'] => true
  | '+' :: rest | '-' :: rest =>
    match Text.pieces ':' rest with
    | [h, m] => (field? 2 0 23 h).isSome && (field? 2 0 59 m).isSome
    | _ => false
  | _ => false

def isOffsetStart (c : Char) : Bool := c == 'Z' || c == 'z' || c == '+' || c == '-'

/-- A date, a time of day, or a date and a time with a letter or a blank between them. -/
def isMoment (cs : List Char) : Bool :=
  if isTime cs then true
  else if isDate (cs.take 10) then
    match cs.drop 10 with
    | [] => true
    | c :: rest =>
      (c == 'T' || c == 't' || c == ' ') && isTime (rest.takeWhile (!isOffsetStart ·)) &&
        isOffset (rest.dropWhile (!isOffsetStart ·))
  else false

/-! ### Words -/

def isWordChar (c : Char) : Bool :=
  c.isAlphanum || c == '_' || c == '+' || c == '-' || c == '.' || c == ':'

/-- Splits off the word at the beginning; a date and a time are one word. -/
def splitWord (cs : List Char) : List Char × List Char :=
  let word := cs.takeWhile isWordChar
  let rest := cs.dropWhile isWordChar
  match rest with
  | ' ' :: c :: more =>
    if isDate word && c.isDigit then
      (word ++ ' ' :: (c :: more).takeWhile isWordChar, (c :: more).dropWhile isWordChar)
    else (word, rest)
  | _ => (word, rest)

def scalar? (word : List Char) : Option Value :=
  if word = ['t', 'r', 'u', 'e'] then some (.bool true)
  else if word = ['f', 'a', 'l', 's', 'e'] then some (.bool false)
  else if isMoment word then some (.moment (String.ofList word))
  else
    match integer? word with
    | some n => some (.integer n)
    | none => .real <$> real? word

end Wiring.Toml
