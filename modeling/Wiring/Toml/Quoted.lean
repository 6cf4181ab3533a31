import Wiring.Json.Token

/-! Strings in TOML documents, written and read.  Of the four forms the writer takes the plainest
one that can hold the text: a literal string rather than escapes, and one line rather than several.
-/

namespace Wiring.Toml

/-! ### Writing -/

/-- Characters that only an escape can write.  A tab and a line feed are none, although a line feed
needs a form of several lines. -/
def needsEscape (c : Char) : Bool := (c < ' ' && c != '\t' && c != '\n') || c == '\x7f'

/-- The number of times that `c` follows itself in the longest such run. -/
def longestRun (c : Char) (cs : List Char) : Nat := (go 0 0 cs).2
where
  /-- The length of the run that ends here and the longest one. -/
  go (here longest : Nat) : List Char → Nat × Nat
    | [] => (here, longest)
    | d :: ds => if d = c then go (here + 1) (max longest (here + 1)) ds else go 0 longest ds

def upperHexDigit (n : Nat) : Char := (Nat.digitChar n).toUpper

/-- A character other than a quotation mark in a basic string; one of several lines has line feeds
as they are. -/
def escapeChar (severalLines : Bool) (c : Char) : List Char :=
  if c == '\\' then ['\\', '\\']
  else if c == '\x08' then ['\\', 'b']
  else if c == '\t' then ['\\', 't']
  else if c == '\n' then (if severalLines then ['\n'] else ['\\', 'n'])
  else if c == '\x0c' then ['\\', 'f']
  else if c == '\r' then ['\\', 'r']
  else if needsEscape c then
    ['\\', 'u', '0', '0', upperHexDigit (c.toNat / 16), upperHexDigit (c.toNat % 16)]
  else [c]

/-- The body of a basic string after `run` quotation marks.  In one of several lines two of them may
follow one another as they are, in one of one line none may stand so. -/
def escaped (severalLines : Bool) (run : Nat) : List Char → List Char
  | [] => []
  | c :: cs =>
    if c = '"' then
      if severalLines && run < 2 then '"' :: escaped severalLines (run + 1) cs
      else '\\' :: '"' :: escaped severalLines 0 cs
    else escapeChar severalLines c ++ escaped severalLines 0 cs

def threeQuotes : List Char := ['"', '"', '"']

def threeTicks : List Char := ['\'', '\'', '\'']

/-- A string of several lines begins on a line of its own. -/
def margin (cs : List Char) : List Char := if '\n' ∈ cs then ['\n'] else []

def basic (cs : List Char) : List Char := '"' :: escaped false 0 cs ++ ['"']

def basicLines (cs : List Char) : List Char :=
  threeQuotes ++ margin cs ++ escaped true 0 cs ++ threeQuotes

def literal (cs : List Char) : List Char := '\'' :: cs ++ ['\'']

def literalLines (cs : List Char) : List Char := threeTicks ++ margin cs ++ cs ++ threeTicks

/-- The text in the plainest form that can hold it. -/
def quotedChars (cs : List Char) : List Char :=
  let escapes := cs.any needsEscape
  let lines := '\n' ∈ cs
  if !escapes && '\\' ∉ cs && '"' ∉ cs && !lines then basic cs
  else if !escapes && '\'' ∉ cs && !lines then literal cs
  else if !escapes && '\\' ∉ cs && longestRun '"' cs ≤ 2 then basicLines cs
  else if !escapes && longestRun '\'' cs ≤ 2 then literalLines cs
  else if lines then basicLines cs
  else basic cs

@[inherit_doc quotedChars]
def quoted (s : String) : String := String.ofList (quotedChars s.toList)

/-! ### Reading -/

/-- The characters that may stand in strings of one line and in comments. -/
def isPlain (c : Char) : Bool := !needsEscape c && c != '\n'

def splitBasic : List Char → Option (List Char × List Char)
  | [] => none
  | '"' :: rest => some ([], rest)
  | ['\\'] => none
  | '\\' :: c :: rest =>
    if isPlain c then do
      let (body, rest) ← splitBasic rest
      return ('\\' :: c :: body, rest)
    else none
  | c :: rest =>
    if isPlain c then do
      let (body, rest) ← splitBasic rest
      return (c :: body, rest)
    else none

def splitLiteral : List Char → Option (List Char × List Char)
  | [] => none
  | '\'' :: rest => some ([], rest)
  | c :: rest =>
    if isPlain c then do
      let (body, rest) ← splitLiteral rest
      return (c :: body, rest)
    else none

/-- Up to two quotation marks before the three that end a string belong to it. -/
def marksBefore (mark : Char) (rest : List Char) : List Char :=
  (rest.takeWhile (· == mark)).take 2

/-- Splits a text behind the marks that end a basic string of several lines. -/
def splitBasicLines : List Char → Option (List Char × List Char)
  | [] => none
  | '"' :: '"' :: '"' :: rest =>
    let marks := marksBefore '"' rest
    some (marks, rest.drop marks.length)
  | ['\\'] => none
  | '\\' :: c :: rest =>
    if needsEscape c then none
    else do
      let (body, rest) ← splitBasicLines rest
      return ('\\' :: c :: body, rest)
  | c :: rest =>
    if needsEscape c then none
    else do
      let (body, rest) ← splitBasicLines rest
      return (c :: body, rest)

/-- Splits a text behind the marks that end a literal string of several lines. -/
def splitLiteralLines : List Char → Option (List Char × List Char)
  | [] => none
  | '\'' :: '\'' :: '\'' :: rest =>
    let marks := marksBefore '\'' rest
    some (marks, rest.drop marks.length)
  | c :: rest =>
    if needsEscape c then none
    else do
      let (body, rest) ← splitLiteralLines rest
      return (c :: body, rest)

def charOfHex? (digits : List Char) : Option Char := do
  let n ← digits.foldlM (fun n c => do return n * 16 + (← Json.hexDigit? c)) 0
  if n.isValidChar then some (Char.ofNat n) else none

def letterEscape? (c : Char) : Option Char :=
  match c with
  | '"' => some '"'
  | '\\' => some '\\'
  | 'b' => some '\x08'
  | 't' => some '\t'
  | 'n' => some '\n'
  | 'f' => some '\x0c'
  | 'r' => some '\r'
  | 'e' => some '\x1b'
  | _ => none

def isBlank (c : Char) : Bool := c == ' ' || c == '\t'

/-- The text of a basic string.  A backslash before the end of a line takes away the blanks and line
feeds up to the next other character; `skipping` says that this is going on. -/
def unescape (skipping : Bool) : List Char → Option (List Char)
  | [] => some []
  | c :: rest =>
    if skipping && (isBlank c || c == '\n') then unescape true rest
    else if c != '\\' then (c :: ·) <$> unescape false rest
    else
      match rest with
      | 'u' :: a :: b :: c :: d :: rest => do
        let x ← charOfHex? [a, b, c, d]
        (x :: ·) <$> unescape false rest
      | 'U' :: a :: b :: c :: d :: e :: f :: g :: h :: rest => do
        let x ← charOfHex? [a, b, c, d, e, f, g, h]
        (x :: ·) <$> unescape false rest
      | 'x' :: a :: b :: rest => do
        let x ← charOfHex? [a, b]
        (x :: ·) <$> unescape false rest
      | e :: rest =>
        match letterEscape? e with
        | some x => (x :: ·) <$> unescape false rest
        | none =>
          if ((e :: rest).dropWhile isBlank).head? == some '\n' then unescape true rest else none
      | [] => none

def dropMargin : List Char → List Char
  | '\n' :: rest => rest
  | cs => cs

def readShort : List Char → Option (String × List Char)
  | '"' :: rest => do
    let (body, rest) ← splitBasic rest
    return (String.ofList (← unescape false body), rest)
  | '\'' :: rest => do
    let (body, rest) ← splitLiteral rest
    return (String.ofList body, rest)
  | _ => none

def readString : List Char → Option (String × List Char)
  | '"' :: '"' :: '"' :: rest => do
    let (body, rest) ← splitBasicLines (dropMargin rest)
    return (String.ofList (← unescape false body), rest)
  | '\'' :: '\'' :: '\'' :: rest => do
    let (body, rest) ← splitLiteralLines (dropMargin rest)
    return (String.ofList body, rest)
  | cs => readShort cs

end Wiring.Toml
