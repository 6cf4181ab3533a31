import Wiring.Pattern
import Wiring.Pattern.Fault
import Wiring.Pattern.Property
import Wiring.Text

/-! Patterns from their texts.  The reader goes through the text once; a class that is called by a
name that nobody knows, or that has no meaning on bytes, is reported only when the rest of the text
is in order.  How large a pattern gets and how deep it is nested is not limited. -/

namespace Wiring.Pattern

/-- The flags that are in force at a place. -/
structure Flags where
  ignoreCase : Bool := false
  /-- The dot matches line breaks too. -/
  dotAll : Bool := false
  /-- Blanks and comments are passed over. -/
  spaced : Bool := false
  /-- Characters are matched, not bytes. -/
  unicode : Bool := true

structure Cursor where
  rest : List Char
  place : Nat := 0
  flags : Flags := {}
  names : List (List Char × Span) := []
  /-- The first fault that is reported when the rest is in order. -/
  late? : Option Fault := none

abbrev Reader := StateT Cursor (Except Fault)

namespace Reader

/-! ### Moving on -/

def peek? : Reader (Option Char) := return (← get).rest.head?

def sees (c : Char) : Reader Bool := return (← get).rest.head? == some c

def atEnd : Reader Bool := return (← get).rest.isEmpty

def place : Reader Nat := return (← get).place

def skip (n : Nat) : Reader Unit :=
  modify fun s => { s with rest := s.rest.drop n, place := s.place + min n s.rest.length }

/-- The number of characters of blanks and of comments up to their line breaks. -/
def spaceLength (inComment : Bool) : List Char → Nat
  | [] => 0
  | c :: cs =>
    if inComment then spaceLength (c != '\n') cs + 1
    else if c == '#' then spaceLength true cs + 1
    else if Text.isBlank c then spaceLength false cs + 1
    else 0

def skipSpace : Reader Unit := do
  let s ← get
  if s.flags.spaced then skip (spaceLength false s.rest)

/-- Goes on by one character, and over the space after it. -/
def advance : Reader Unit := do
  skip 1
  skipSpace

def passes (text : List Char) : Reader Bool := do
  if text.isPrefixOf (← get).rest then
    skip text.length
    return true
  else return false

def failFrom (kind : FaultKind) (start : Nat) : Reader α := do
  throw ⟨kind, ⟨start, ← place⟩, none⟩

def failHere (kind : FaultKind) : Reader α := do
  failFrom kind (← place)

def failNext (kind : FaultKind) : Reader α := do
  let here ← place
  throw ⟨kind, ⟨here, here + 1⟩, none⟩

/-- Notes a fault that is reported when the rest is in order, if it is the first. -/
def noteLate (kind : FaultKind) (span : Span) : Reader Unit :=
  modify fun s => { s with late? := s.late?.or (some ⟨kind, span, none⟩) }

/-- Notes a fault that there is where bytes are matched, from a place on. -/
def noteBytes (kind : FaultKind) (start : Nat) : Reader Unit := do
  if !(← get).flags.unicode then noteLate kind ⟨start, ← place⟩

/-! ### Numbers -/

/-- A decimal, with any blanks around it; what is wrong with it may not matter. -/
def decimal : Reader (Except Fault Nat) := do
  skip ((← get).rest.takeWhile Text.isBlank).length
  let start ← place
  let digits := (← get).rest.takeWhile Char.isDigit
  skip digits.length
  let span : Span := ⟨start, ← place⟩
  skip ((← get).rest.takeWhile Text.isBlank).length
  let value := digits.foldl (fun n c => n * 10 + (c.toNat - '0'.toNat)) 0
  return if digits.isEmpty then .error ⟨.countEmpty, span, none⟩
    else if value ≥ Nat.pow 2 32 then .error ⟨.countTooLarge, span, none⟩
    else .ok value

/-- The least and the greatest count of a repetition in braces, from the opening brace on. -/
def counts : Reader (Nat × Option Nat) := do
  let start ← place
  advance
  if ← atEnd then failFrom .countUnclosed start
  let first ← decimal
  if ← atEnd then failFrom .countUnclosed start
  let range ←
    if ← sees ',' then do
      advance
      if ← atEnd then failFrom .countUnclosed start
      if ← sees '\x7d' then do
        pure (← first, none)
      else do
        let least ← match first with
          | .error ⟨.countEmpty, _, _⟩ => pure 0
          | first => first
        pure (least, some (← (← decimal)))
    else do
      let n ← first
      pure (n, some n)
  if !(← sees '\x7d') then failFrom .countUnclosed start
  advance
  if ← sees '?' then skip 1
  if range.2.any (· < range.1) then failFrom .countInvalid start
  return range

/-! ### Escapes -/

/-- What an escape or a single character stands for. -/
inductive Primitive
  | char (c : Char)
  | charClass (c : CharClass)
  | anchor (a : Anchor)

def isMeta (c : Char) : Bool :=
  c ∈ ['\\', '.', '+', '*', '?', '(', ')', '|', '[', ']', '\x7b', '\x7d', '^', '$', '#', '&', '-',
    '~']

/-- Characters that stand for themselves after a backslash: all of ASCII that is no letter or digit
and may not get a meaning of its own. -/
def isEscapable (c : Char) : Bool :=
  isMeta c || (c.toNat < 0x80 && !c.isAlphanum && c != '<' && c != '>')

def hexValue? (c : Char) : Option Nat :=
  if c.isDigit then some (c.toNat - '0'.toNat)
  else if 'a' ≤ c && c ≤ 'f' then some (c.toNat - 'a'.toNat + 10)
  else if 'A' ≤ c && c ≤ 'F' then some (c.toNat - 'A'.toNat + 10)
  else none

def charOfHex (digits : List Nat) (span : Span) : Reader Primitive :=
  let n := digits.foldl (fun n d => n * 16 + d) 0
  if h : n.isValidChar then return .char (Char.ofNatAux n h)
  else throw ⟨.hexInvalid, span, none⟩

def hexDigits : Nat → Reader (List Nat)
  | 0 => return []
  | n + 1 => do
    match ← peek? with
    | none => failHere .escapeEnd
    | some c =>
      match hexValue? c with
      | none => failNext .hexDigitInvalid
      | some d =>
        advance
        return d :: (← hexDigits n)

def hexInBraces (opening : Nat) : (fuel : Nat) → Reader (List Nat)
  | 0 => failFrom .escapeEnd opening
  | fuel + 1 => do
    match ← peek? with
    | none => failFrom .escapeEnd opening
    | some '\x7d' => return []
    | some c =>
      match hexValue? c with
      | none => failNext .hexDigitInvalid
      | some d =>
        advance
        return d :: (← hexInBraces opening fuel)

/-- A character by its code point, after the letter that tells how many digits it has.  With two
digits it is a byte where bytes are matched. -/
def hex (width : Nat) : Reader Primitive := do
  let letter ← place
  advance
  if ← atEnd then failHere .escapeEnd
  if ← sees '\x7b' then
    let brace ← place
    advance
    let digits ← hexInBraces brace ((← get).rest.length + 1)
    let stop ← place
    advance
    if digits.isEmpty then failFrom .hexEmpty brace
    charOfHex digits ⟨brace + 1, stop⟩
  else
    let start ← place
    let digits ← hexDigits width
    if width == 2 && digits.head?.any (· ≥ 8) then noteBytes .notUtf8 (letter - 1)
    charOfHex digits ⟨start, ← place⟩

def cutAt? (separator : List Char) : List Char → Option (List Char × List Char)
  | [] => none
  | c :: cs =>
    if separator.isPrefixOf (c :: cs) then some ([], (c :: cs).drop separator.length)
    else (cutAt? separator cs).map fun (a, b) => (c :: a, b)

/-- A class with letters of both cases, where case does not count. -/
def withCase (c : CharClass) : Reader CharClass := do
  return if (← get).flags.ignoreCase then .folded c else c

/-- A class that has a name, or all that is not in it; case is settled before it is negated. -/
def ofCondition (negated : Bool) (condition : Char → Bool) : Reader CharClass := do
  let c ← withCase (.named condition)
  return if negated then .complement c else c

def namedClass (start : Nat) (negated : Bool) (name : List Char) : Reader Primitive := do
  let span : Span := ⟨start, ← place⟩
  let ofValue (n v : List Char) (negated : Bool) : Reader Primitive := do
    match propertyValue? n v with
    | .ok condition => return .charClass (← ofCondition negated condition)
    | .error .unknownProperty => noteLate .propertyNotFound span
    | .error .unknownValue => noteLate .propertyValueNotFound span
    return .charClass (.union [])
  noteBytes .unicodeNotAllowed start
  match cutAt? ['!', '='] name, cutAt? [':'] name, cutAt? ['='] name with
  | some (n, v), _, _ => ofValue n v (!negated)
  | _, some (n, v), _ => ofValue n v negated
  | _, _, some (n, v) => ofValue n v negated
  | _, _, _ =>
    match property? name with
    | some condition => return .charClass (← ofCondition negated condition)
    | none =>
      noteLate .propertyNotFound span
      return .charClass (.union [])

/-- A class by its name, from the letter after the backslash on. -/
def property (start : Nat) (negated : Bool) : Reader Primitive := do
  advance
  match ← peek? with
  | none => failHere .escapeEnd
  | some '\x7b' =>
    skip 1
    let spaced := (← get).flags.spaced
    let name := (← get).rest.takeWhile (· != '\x7d')
    skip name.length
    if ← atEnd then failHere .escapeEnd
    skip 1
    namedClass start negated (if spaced then name.filter fun c => !Text.isBlank c else name)
  | some '\\' => failNext .propertyInvalid
  | some c =>
    advance
    namedClass start negated [c]

/-- A word boundary in braces after an escaped `b`, if there is one. -/
def boundaryInBraces? (start : Nat) : Reader (Option Anchor) := do
  let brace ← place
  let before ← get
  advance
  let isLetter (c : Char) : Bool := c.isAlpha || c == '-'
  match ← peek? with
  | none => failFrom .wordBoundaryEnd start
  | some c =>
    if !isLetter c then
      set before
      return none
    let contents ← place
    let name := (← get).rest.takeWhile isLetter
    skip name.length
    skipSpace
    if !(← sees '\x7d') then failFrom .wordBoundaryUnclosed brace
    match String.ofList name with
    | "start" => skip 1; return some .wordStart
    | "end" => skip 1; return some .wordEnd
    | "start-half" => skip 1; return some .wordStartHalf
    | "end-half" => skip 1; return some .wordEndHalf
    | _ => failFrom .wordBoundaryUnknown contents

def digitClass : CharClass := .named Char.isDigit

def spaceClass : CharClass := .named Text.isBlank

def wordClass : CharClass := .named fun c => Place.isWordChar c || c ∈ farLetters

/-- All that is not in a class; where bytes are matched, these are no characters. -/
def outside (start : Nat) (c : CharClass) : Reader Primitive := do
  noteBytes .notUtf8 start
  return .charClass (.complement c)

def escape : Reader Primitive := do
  let start ← place
  skip 1
  match ← peek? with
  | none => failFrom .escapeEnd start
  | some c =>
    if c.isDigit then
      skip 1
      failFrom .backreference start
    match c with
    | 'x' => hex 2
    | 'u' => hex 4
    | 'U' => hex 8
    | 'p' => property start false
    | 'P' => property start true
    | c =>
      skip 1
      match c with
      | 'd' => return .charClass digitClass
      | 's' => return .charClass spaceClass
      | 'w' => return .charClass wordClass
      | 'D' => outside start digitClass
      | 'S' => outside start spaceClass
      | 'W' => outside start wordClass
      | 'a' => return .char '\x07'
      | 'f' => return .char '\x0c'
      | 't' => return .char '\t'
      | 'n' => return .char '\n'
      | 'r' => return .char '\r'
      | 'v' => return .char '\x0b'
      | 'A' => return .anchor .textStart
      | 'z' => return .anchor .textEnd
      | 'B' => return .anchor .noWordBoundary
      | '<' => return .anchor .wordStart
      | '>' => return .anchor .wordEnd
      | 'b' =>
        if ← sees '\x7b' then
          return .anchor ((← boundaryInBraces? start).getD .wordBoundary)
        else return .anchor .wordBoundary
      | c => if isEscapable c then return .char c else failFrom .escapeUnknown start

/-! ### Classes in brackets -/

inductive ClassOp
  | intersection
  | difference
  | symmetricDifference

def ClassOp.apply : ClassOp → CharClass → CharClass → CharClass
  | .intersection => .intersection
  | .difference => .difference
  | .symmetricDifference => .symmetricDifference

/-- Joins what stands before an operation with what has been read after it. -/
def joined (before? : Option (ClassOp × CharClass)) (items : List CharClass) :
    Reader CharClass := do
  let last := CharClass.union items.reverse
  match before? with
  | none => return last
  | some (op, before) => return op.apply (← withCase before) (← withCase last)

/-- A class in colons inside brackets, if there is one. -/
def colonClass? : Reader (Option CharClass) := do
  let before ← get
  if !(← passes ['[', ':']) then
    set before
    return none
  let start := before.place
  let negated ← passes ['^']
  let name := (← get).rest.takeWhile (· != ':')
  skip name.length
  if ← passes [':', ']'] then
    match asciiClass? (String.ofList name) with
    | some condition =>
      if negated then noteBytes .notUtf8 start
      return some (← ofCondition negated condition)
    | none =>
      set before
      return none
  else
    set before
    return none

/-- One character or escape of a class, with its span. -/
def classItem : Reader (Primitive × Span) := do
  let start ← place
  match ← peek? with
  | some '\\' =>
    let item ← escape
    return (item, ⟨start, ← place⟩)
  | some c =>
    skip 1
    return (.char c, ⟨start, ← place⟩)
  | none => failHere .classUnclosed

def asChar : Primitive × Span → Reader Char
  | (.char c, span) => do
    if c.toNat ≥ 0x80 && !(← get).flags.unicode then noteLate .unicodeNotAllowed span
    return c
  | (_, span) => throw ⟨.classRangeLiteral, span, none⟩

def asClass : Primitive × Span → Reader CharClass
  | (.char c, span) => do
    let c ← asChar (.char c, span)
    return .range c c
  | (.charClass c, _) => return c
  | (.anchor _, span) => throw ⟨.classEscapeInvalid, span, none⟩

def peekSecond? : Reader (Option Char) := do
  let before ← get
  advance
  let c ← peek?
  set before
  return c

/-- A character, an escape or a range of a class whose opening has the given span. -/
def classRange (opening : Span) : Reader CharClass := do
  let first ← classItem
  skipSpace
  if ← atEnd then throw ⟨.classUnclosed, opening, none⟩
  let second? ← peekSecond?
  if !(← sees '-') || second? == some ']' || second? == some '-' then asClass first
  else
    advance
    if ← atEnd then throw ⟨.classUnclosed, opening, none⟩
    let last ← classItem
    let low ← asChar first
    let high ← asChar last
    if high < low then throw ⟨.classRangeInvalid, ⟨first.2.start, last.2.stop⟩, none⟩
    return .range low high

def leadingHyphens (start : Nat) : (fuel : Nat) → Reader (List CharClass)
  | 0 => return []
  | fuel + 1 => do
    if ← sees '-' then
      advance
      if ← atEnd then throw ⟨.classUnclosed, ⟨start, start⟩, none⟩
      return .range '-' '-' :: (← leadingHyphens start fuel)
    else return []

/-- The opening of a class: its span, whether the class is negated, and the characters that stand
for themselves at its beginning. -/
def classOpening : Reader (Span × Bool × List CharClass) := do
  let start ← place
  advance
  if ← atEnd then failFrom .classUnclosed start
  let negated ← sees '^'
  if negated then
    advance
    if ← atEnd then failFrom .classUnclosed start
  let hyphens ← leadingHyphens start ((← get).rest.length + 1)
  if hyphens.isEmpty && (← sees ']') then
    advance
    if ← atEnd then failFrom .classUnclosed start
    return (⟨start, ← place⟩, negated, [.range ']' ']'])
  return (⟨start, ← place⟩, negated, hyphens)

/-- The rest of a class after its opening: `items` are the classes read since the last operation,
the last first, and `before?` is that operation with all before it. -/
def classRest (opening : Span) (negated : Bool) :
    (fuel : Nat) → List CharClass → Option (ClassOp × CharClass) → Reader CharClass
  | 0, _, _ => throw ⟨.classUnclosed, opening, none⟩
  | fuel + 1, items, before? => do
    skipSpace
    let operation (op : ClassOp) : Reader CharClass := do
      skip 2
      classRest opening negated fuel [] (some (op, ← joined before? items))
    match (← get).rest with
    | [] => throw ⟨.classUnclosed, opening, none⟩
    | '[' :: _ =>
      match ← colonClass? with
      | some c => classRest opening negated fuel (c :: items) before?
      | none =>
        let (inner, innerNegated, first) ← classOpening
        let c ← classRest inner innerNegated fuel first none
        classRest opening negated fuel (c :: items) before?
    | ']' :: _ =>
      skip 1
      let all ← withCase (← joined before? items)
      if negated then noteBytes .notUtf8 opening.start
      return if negated then .complement all else all
    | '&' :: '&' :: _ => operation .intersection
    | '-' :: '-' :: _ => operation .difference
    | '~' :: '~' :: _ => operation .symmetricDifference
    | _ =>
      let c ← classRange opening
      classRest opening negated fuel (c :: items) before?

def bracketClass : Reader CharClass := do
  let (opening, negated, first) ← classOpening
  classRest opening negated ((← get).rest.length + 1) first none

/-! ### Groups -/

/-- The flags that a group sets and clears, the last first. -/
structure FlagItems where
  items : List (Char × Bool) := []
  spans : List (Char × Span) := []
  negation? : Option Span := none

def flagItems (dangling? : Option Span) : (fuel : Nat) → FlagItems → Reader FlagItems
  | 0, _ => failHere .flagEnd
  | fuel + 1, f => do
    let here ← place
    let span : Span := ⟨here, here + 1⟩
    let goOn (dangling? : Option Span) (f : FlagItems) : Reader FlagItems := do
      skip 1
      if ← atEnd then failHere .flagEnd
      flagItems dangling? fuel f
    match ← peek? with
    | none => failHere .flagEnd
    | some c =>
      if c == ':' || c == ')' then
        match dangling? with
        | some span => throw ⟨.flagNegationDangling, span, none⟩
        | none => return f
      else if c == '-' then
        match f.negation? with
        | some earlier => throw ⟨.flagNegationRepeated, span, some earlier⟩
        | none => goOn (some span) { f with negation? := some span }
      else if c ∈ ['i', 'm', 's', 'U', 'u', 'R', 'x'] then
        match f.spans.lookup c with
        | some earlier => throw ⟨.flagRepeated, span, some earlier⟩
        | none =>
          goOn none
            { f with items := (c, f.negation?.isNone) :: f.items, spans := (c, span) :: f.spans }
      else throw ⟨.flagUnknown, span, none⟩

def setFlag (f : Flags) : Char × Bool → Flags
  | ('i', b) => { f with ignoreCase := b }
  | ('s', b) => { f with dotAll := b }
  | ('x', b) => { f with spaced := b }
  | ('u', b) => { f with unicode := b }
  | _ => f

def isNameStart (c : Char) : Bool := c == '_' || c.isAlpha || c.toNat ≥ 0xAA

def isNameChar (c : Char) : Bool :=
  isNameStart c || c.isDigit || c == '.' || c == '[' || c == ']'

/-- The name of a group, from after its opening bracket on. -/
def groupName : Reader Unit := do
  if ← atEnd then failHere .groupNameEnd
  let start ← place
  let text := (← get).rest
  let name := text.takeWhile (· != '>')
  let bad? := (name.zipIdx.find? fun (c, i) => !(if i == 0 then isNameStart c else isNameChar c))
  match bad? with
  | some (_, i) => throw ⟨.groupNameInvalid, ⟨start + i, start + i + 1⟩, none⟩
  | none => pure ()
  skip name.length
  if ← atEnd then failHere .groupNameEnd
  skip 1
  if name.isEmpty then throw ⟨.groupNameEmpty, ⟨start, start⟩, none⟩
  let span : Span := ⟨start, start + name.length⟩
  match (← get).names.lookup name with
  | some earlier => throw ⟨.groupNameRepeated, span, some earlier⟩
  | none => modify fun s => { s with names := (name, span) :: s.names }

/-- What a parenthesis opens: a group with its flags, or flags for what follows. -/
inductive Opening
  | group (flags : Flags)
  | flags (flags : Flags)

def groupOpening : Reader Opening := do
  let start ← place
  skip 1
  skipSpace
  for text in [['?', '='], ['?', '!'], ['?', '<', '='], ['?', '<', '!']] do
    if ← passes text then failFrom .lookAround start
  let inner ← place
  let flags := (← get).flags
  if (← passes ['?', 'P', '<']) || (← passes ['?', '<']) then
    groupName
    return .group flags
  else if ← passes ['?'] then
    if ← atEnd then throw ⟨.groupUnclosed, ⟨start, start + 1⟩, none⟩
    let f ← flagItems none ((← get).rest.length + 1) {}
    let flags := f.items.foldr (fun item flags => setFlag flags item) flags
    if ← sees ')' then
      skip 1
      if f.items.isEmpty && f.negation?.isNone then
        throw ⟨.repetitionMissing, ⟨inner, inner⟩, none⟩
      return .flags flags
    else
      skip 1
      return .group flags
  else return .group flags

/-! ### Whole patterns -/

/-- A member of a sequence; flags are one that cannot be repeated. -/
inductive Member
  | expr (p : Pattern)
  | flags

/-- The sequence of some members, the last first. -/
def sequence (members : List Member) : Pattern :=
  members.foldl (fun p m =>
    match m, p with
    | .flags, p => p
    | .expr q, .empty => q
    | .expr q, p => .seq q p) .empty

/-- The choice between some sequences, the last first. -/
def choice (last : Pattern) (before : List Pattern) : Pattern :=
  before.foldl (fun p q => .alt q p) last

/-- The member that a repetition applies to, and those before it. -/
def repeatable : List Member → Reader (Pattern × List Member)
  | .expr p :: members => return (p, members)
  | _ => failHere .repetitionMissing

/-- The pattern of a single character or an escape that starts at a place.  Case does not count for
characters alone: a class has it settled already, and the short ones are the same in both cases. -/
def ofPrimitive (start : Nat) : Primitive → Reader Pattern
  | .char c => do
    if c.toNat ≥ 0x80 && (← get).flags.ignoreCase then noteBytes .unicodeNotAllowed start
    return .char (← withCase (.range c c))
  | .charClass c => return .char c
  | .anchor a => return .anchor a

/-- Reads a pattern to the end of the text or of the group whose parenthesis has the given span.
`before` are the sequences that precede the last bar, `members` is what follows it, the last
first. -/
def alternatives (group? : Option Span) :
    (fuel : Nat) → (before : List Pattern) → (members : List Member) → Reader Pattern
  | 0, _, _ => failHere .groupUnclosed
  | fuel + 1, before, members => do
    skipSpace
    let more (m : Member) : Reader Pattern := alternatives group? fuel before (m :: members)
    let repeated (least : Nat) (most? : Option Nat) : Reader Pattern := do
      let (p, members) ← repeatable members
      skip 1
      if ← sees '?' then skip 1
      alternatives group? fuel before (.expr (.repeated p least most?) :: members)
    match ← peek? with
    | none =>
      match group? with
      | some span => throw ⟨.groupUnclosed, span, none⟩
      | none => return choice (sequence members) before
    | some '(' =>
      let start ← place
      let outer := (← get).flags
      match ← groupOpening with
      | .flags flags =>
        modify fun s => { s with flags }
        more .flags
      | .group flags =>
        modify fun s => { s with flags }
        let p ← alternatives (some ⟨start, start + 1⟩) fuel [] []
        modify fun s => { s with flags := outer }
        more (.expr p)
    | some ')' =>
      match group? with
      | some _ =>
        skip 1
        return choice (sequence members) before
      | none => failNext .groupUnopened
    | some '|' =>
      skip 1
      alternatives group? fuel (sequence members :: before) []
    | some '[' => more (.expr (.char (← bracketClass)))
    | some '?' => repeated 0 (some 1)
    | some '*' => repeated 0 none
    | some '+' => repeated 1 none
    | some '\x7b' =>
      let (p, members) ← repeatable members
      let (least, most?) ← counts
      alternatives group? fuel before (.expr (.repeated p least most?) :: members)
    | some '\\' =>
      let start ← place
      more (.expr (← ofPrimitive start (← escape)))
    | some '.' =>
      let start ← place
      skip 1
      noteBytes .notUtf8 start
      let dotAll := (← get).flags.dotAll
      more (.expr (.char (.named fun c => dotAll || c != '\n')))
    | some '^' =>
      skip 1
      more (.expr (.anchor .textStart))
    | some '$' =>
      skip 1
      more (.expr (.anchor .textEnd))
    | some c =>
      let start ← place
      skip 1
      more (.expr (← ofPrimitive start (.char c)))

end Reader

def read (text : String) : Except Fault Pattern := do
  let chars := text.toList
  let (p, s) ← (Reader.alternatives none (chars.length + 1) [] []).run { rest := chars }
  match s.late? with
  | some fault => throw fault
  | none => return p

end Wiring.Pattern
