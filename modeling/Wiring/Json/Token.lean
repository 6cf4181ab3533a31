/-! The tokens of a JSON text.  Reading stops at the first character that cannot belong to any
token; that place is marked by a token of its own, so that whoever reads the tokens in order meets
it only when everything before it has been understood. -/

namespace Wiring.Json

/-- Why a text is not JSON: it holds what it must not, or ends too early. -/
inductive Fault
  | malformed
  | truncated
deriving DecidableEq

inductive Token
  | beginObject
  | endObject
  | beginArray
  | endArray
  | colon
  | comma
  | null
  | bool (value : Bool)
  | integer (value : Int)
  | real (value : Float)
  | string (text : String)
  /-- A string with half a surrogate pair, or a number beyond the doubles: of the right form, but
  without a value. -/
  | spoiled (quoted : Bool)
  /-- Where the tokens end early, in a string or elsewhere. -/
  | broken (fault : Fault) (quoted : Bool)

def isSpace (c : Char) : Bool := c == ' ' || c == '\n' || c == '\t' || c == '\r'

/-! ### Strings -/

def hexDigit? (c : Char) : Option Nat :=
  if '0' ≤ c && c ≤ '9' then some (c.toNat - '0'.toNat)
  else if 'a' ≤ c && c ≤ 'f' then some (c.toNat - 'a'.toNat + 10)
  else if 'A' ≤ c && c ≤ 'F' then some (c.toNat - 'A'.toNat + 10)
  else none

def hexValue? (a b c d : Char) : Option Nat := do
  return (((← hexDigit? a) * 16 + (← hexDigit? b)) * 16 + (← hexDigit? c)) * 16 + (← hexDigit? d)

def isHighSurrogate (n : Nat) : Bool := 0xD800 ≤ n && n < 0xDC00

def isLowSurrogate (n : Nat) : Bool := 0xDC00 ≤ n && n < 0xE000

/-- What follows `\u` cannot be four digits; it has ended too early when it is shorter than four
bytes. -/
def hexFault (cs : List Char) : Fault :=
  if (cs.take 4).foldr (fun c n => c.utf8Size + n) 0 < 4 then .truncated else .malformed

/-- What an escape has been read as, and what follows it. -/
structure Escape (cs : List Char) where
  /-- Nothing for half a surrogate pair. -/
  char? : Option Char
  rest : List Char
  shorter : rest.length < cs.length

def readEscape : (cs : List Char) → Except Fault (Escape cs)
  | [] => .error .truncated
  | '"' :: rest => .ok ⟨some '"', rest, by simp⟩
  | '\\' :: rest => .ok ⟨some '\\', rest, by simp⟩
  | '/' :: rest => .ok ⟨some '/', rest, by simp⟩
  | 'b' :: rest => .ok ⟨some '\x08', rest, by simp⟩
  | 'f' :: rest => .ok ⟨some '\x0c', rest, by simp⟩
  | 'n' :: rest => .ok ⟨some '\n', rest, by simp⟩
  | 'r' :: rest => .ok ⟨some '\r', rest, by simp⟩
  | 't' :: rest => .ok ⟨some '\t', rest, by simp⟩
  | 'u' :: a :: b :: c :: d :: rest =>
    match hexValue? a b c d with
    | none => .error (hexFault [a, b, c, d])
    | some high =>
      if isLowSurrogate high then .ok ⟨none, rest, by simp; omega⟩
      else if !isHighSurrogate high then .ok ⟨some (Char.ofNat high), rest, by simp; omega⟩
      else
        match rest with
        | [] => .error .truncated
        | ['\\'] => .error .truncated
        | '\\' :: 'u' :: a :: b :: c :: d :: rest =>
          match hexValue? a b c d with
          | none => .error (hexFault [a, b, c, d])
          | some low =>
            .ok ⟨if isLowSurrogate low then
                some (Char.ofNat (0x10000 + (high - 0xD800) * 0x400 + (low - 0xDC00)))
              else none, rest, by simp; omega⟩
        | '\\' :: 'u' :: rest => .error (hexFault rest)
        | rest => .ok ⟨none, rest, by simp; omega⟩
  | 'u' :: rest => .error (hexFault rest)
  | _ :: _ => .error .malformed

/-- Reads a string after its opening quote.  `read?` holds the characters so far, the last first,
or nothing once the string is spoiled. -/
def readString (read? : Option (List Char)) (cs : List Char) : Token × List Char :=
  match cs with
  | [] => (.broken (if read?.isSome then .truncated else .malformed) true, [])
  | '"' :: rest =>
    (match read? with
      | some read => .string (String.ofList read.reverse)
      | none => .spoiled true,
     rest)
  | '\\' :: rest =>
    match readEscape rest with
    | .error fault => (.broken (if read?.isSome then fault else .malformed) true, [])
    | .ok escape =>
      readString (do return (← escape.char?) :: (← read?)) escape.rest
  | c :: rest =>
    if c < ' ' then (.broken .malformed true, []) else readString (read?.map (c :: ·)) rest
termination_by cs.length
decreasing_by
  all_goals simp
  have := escape.shorter
  omega

/-! ### Numbers -/

/-- The digits before, behind and above: a number's sign, whole part, fraction and exponent. -/
structure NumberText where
  negative : Bool
  whole : List Char
  fraction? : Option (List Char)
  exponent? : Option (Bool × List Char)

def digitValue (c : Char) : Nat := c.toNat - '0'.toNat

def maxWord : Nat := Nat.pow 2 64 - 1

/-- Appends the digits of the whole part as far as 64 bits hold them and counts the others. -/
def takeWhole (digits : List Char) : Nat × Int :=
  digits.foldl
    (fun (n, dropped) c =>
      if dropped > 0 || n * 10 + digitValue c > maxWord then (n, dropped + 1)
      else (n * 10 + digitValue c, dropped))
    (0, 0)

/-- Appends the digits of the fraction as far as 64 bits hold them. -/
def takeFraction : Nat × Int → List Char → Nat × Int
  | (n, e), [] => (n, e)
  | (n, e), c :: cs =>
    if n * 10 + digitValue c > maxWord then (n, e)
    else takeFraction (n * 10 + digitValue c, e - 1) cs

/-- The double next to `n * 10 ^ e`, or nothing when there is none. -/
def scale? (n : Nat) (e : Int) : Option Float :=
  let x := n.toUInt64.toFloat
  if e ≥ 0 then
    if e ≤ 308 then
      let y := x * Float.ofScientific 1 false e.toNat
      if y.isInf then none else some y
    else if n == 0 then some 0 else none
  else if e ≥ -308 then some (x / Float.ofScientific 1 false (-e).toNat)
  else if e ≥ -616 then some (x / 1e308 / Float.ofScientific 1 false (-e - 308).toNat)
  else some 0

def maxExponent : Int := Int.pow 2 31 - 1

/-- The value of a number.  It is an integer when it is written as one and fits 64 bits, and `-0` is
not. -/
def NumberText.token (t : NumberText) : Token :=
  let (n, dropped) := takeWhole t.whole
  let real (e : Int) (n : Nat) : Token :=
    match scale? n e with
    | some x => .real (if t.negative then -x else x)
    | none => .spoiled false
  match t.fraction?, t.exponent? with
  | none, none =>
    if dropped > 0 then real dropped n
    else if !t.negative then .integer n
    else if n == 0 || n > Nat.pow 2 63 then .real (-n.toUInt64.toFloat)
    else .integer (-n)
  | fraction?, exponent? =>
    let (n, e) := takeFraction (n, dropped) (fraction?.getD [])
    match exponent? with
    | none => real e n
    | some (negative, digits) =>
      let shift : Int := (digits.foldl (fun k c => k * 10 + digitValue c) 0 : Nat)
      if shift > maxExponent then
        if n != 0 && !negative then .spoiled false
        else .real (if t.negative then -0.0 else 0.0)
      else real (if negative then e - shift else e + shift) n

def splitDigits (cs : List Char) : List Char × List Char :=
  (cs.takeWhile Char.isDigit, cs.dropWhile Char.isDigit)

def digitFault (rest : List Char) : Fault := if rest.isEmpty then .truncated else .malformed

def readExponent (negative : Bool) (whole : List Char) (fraction? : Option (List Char))
    (cs : List Char) : Token × List Char :=
  let finish (exponentNegative : Bool) (cs : List Char) : Token × List Char :=
    match splitDigits cs with
    | ([], rest) => (.broken (digitFault rest) false, [])
    | (digits, rest) =>
      (NumberText.token ⟨negative, whole, fraction?, some (exponentNegative, digits)⟩, rest)
  match cs with
  | 'e' :: '+' :: rest | 'E' :: '+' :: rest => finish false rest
  | 'e' :: '-' :: rest | 'E' :: '-' :: rest => finish true rest
  | 'e' :: rest | 'E' :: rest => finish false rest
  | rest => (NumberText.token ⟨negative, whole, fraction?, none⟩, rest)

def readNumber (negative : Bool) (cs : List Char) : Token × List Char :=
  match splitDigits cs with
  | ([], rest) => (.broken (digitFault rest) false, [])
  | ('0' :: _ :: _, _) => (.broken .malformed false, [])
  | (whole, '.' :: rest) =>
    match splitDigits rest with
    | ([], rest) => (.broken (digitFault rest) false, [])
    | (fraction, rest) => readExponent negative whole (some fraction) rest
  | (whole, rest) => readExponent negative whole none rest

/-! ### The tokens of a text -/

/-- Reads the rest of a word, such as `rue` of `true`. -/
def readWord (token : Token) : (word cs : List Char) → Token × List Char
  | [], rest => (token, rest)
  | _ :: _, [] => (.broken .truncated false, [])
  | w :: ws, c :: cs => if w = c then readWord token ws cs else (.broken .malformed false, [])

def readToken (c : Char) (rest : List Char) : Token × List Char :=
  match c with
  | '\x7b' => (.beginObject, rest)
  | '\x7d' => (.endObject, rest)
  | '[' => (.beginArray, rest)
  | ']' => (.endArray, rest)
  | ':' => (.colon, rest)
  | ',' => (.comma, rest)
  | '"' => readString (some []) rest
  | 'n' => readWord .null ['u', 'l', 'l'] rest
  | 't' => readWord (.bool true) ['r', 'u', 'e'] rest
  | 'f' => readWord (.bool false) ['a', 'l', 's', 'e'] rest
  | '-' => readNumber true rest
  | c => if c.isDigit then readNumber false (c :: rest) else (.broken .malformed false, [])

theorem readString_length (read? : Option (List Char)) (cs : List Char) :
    (readString read? cs).2.length ≤ cs.length := by
  fun_induction readString read? cs with
  | case1 => simp
  | case2 => simp
  | case3 => simp
  | case4 _ rest escape _ ih =>
    have := escape.shorter
    simp only [List.length_cons]
    omega
  | case5 => simp
  | case6 => simp only [List.length_cons]; omega

theorem splitDigits_length (cs : List Char) :
    (splitDigits cs).1.length + (splitDigits cs).2.length = cs.length := by
  rw [splitDigits, ← List.length_append, List.takeWhile_append_dropWhile]

theorem readExponent_length (negative : Bool) (whole : List Char) (fraction? : Option (List Char))
    (cs : List Char) : (readExponent negative whole fraction? cs).2.length ≤ cs.length := by
  have finish (b : Bool) (cs : List Char) :
      ((match splitDigits cs with
        | ([], rest) => (Token.broken (digitFault rest) false, [])
        | (digits, rest) =>
          (NumberText.token ⟨negative, whole, fraction?, some (b, digits)⟩, rest) :
        Token × List Char)).2.length ≤ cs.length := by
    have h := splitDigits_length cs
    split
    · simp
    · next hs => rw [hs] at h; simp only at h ⊢; omega
  unfold readExponent
  split
  all_goals first | exact Nat.le_refl _ | (refine Nat.le_trans (finish _ _) ?_; simp; try omega)

theorem readNumber_length (negative : Bool) (cs : List Char) :
    (readNumber negative cs).2.length < cs.length ∨ (readNumber negative cs).2 = [] := by
  have h := splitDigits_length cs
  unfold readNumber
  split
  · exact .inr rfl
  · exact .inr rfl
  · next whole rest _ _ hs =>
    rw [hs] at h
    simp only [List.length_cons] at h
    have h' := splitDigits_length rest
    split
    · exact .inr rfl
    · next fraction rest' _ hs' =>
      rw [hs'] at h'
      have := readExponent_length negative whole (some fraction) rest'
      simp only at h'
      left
      omega
  · next whole rest hne _ _ hs =>
    rw [hs] at h
    have := readExponent_length negative whole none rest
    have hpos : 0 < whole.length := List.length_pos_iff.2 hne
    simp only at h
    left
    omega

theorem readWord_length (token : Token) (word cs : List Char) :
    (readWord token word cs).2.length ≤ cs.length := by
  fun_induction readWord token word cs with
  | case1 => simp
  | case2 => simp
  | case3 => simp only [List.length_cons]; omega
  | case4 => simp

theorem readToken_length (c : Char) (rest : List Char) :
    (readToken c rest).2.length ≤ rest.length := by
  unfold readToken
  split
  all_goals try exact Nat.le_refl _
  · exact readString_length _ _
  · exact readWord_length _ _ _
  · exact readWord_length _ _ _
  · exact readWord_length _ _ _
  · rcases readNumber_length true rest with h | h
    · exact Nat.le_of_lt h
    · simp [h]
  · split
    · rcases readNumber_length false (c :: rest) with h | h
      · exact Nat.le_of_lt_succ h
      · simp [h]
    · simp

def tokens (cs : List Char) : List Token :=
  match cs with
  | [] => []
  | c :: rest =>
    if isSpace c then tokens rest
    else
      let read := readToken c rest
      read.1 :: tokens read.2
termination_by cs.length
decreasing_by
  · simp
  · have := readToken_length c rest
    simp only [List.length_cons]
    omega

end Wiring.Json
