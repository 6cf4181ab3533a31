/-! Patterns over the names of beans, and what they match.  A pattern is matched from a place of the
text to all the places where a match may end, so greedy and lazy repetition are the same here.
Names are of ASCII and have no line breaks: classes and word boundaries are those of ASCII, and the
start and end of a line are those of the text. -/

namespace Wiring

/-- A set of characters. -/
inductive CharClass
  | range (first last : Char)
  /-- A class that has a name, as the condition it stands for. -/
  | named (condition : Char → Bool)
  | union (classes : List CharClass)
  | complement (c : CharClass)
  | intersection (a b : CharClass)
  | difference (a b : CharClass)
  | symmetricDifference (a b : CharClass)
  /-- The class with every letter in both cases. -/
  | folded (c : CharClass)

/-- The long s and the sign for kelvin: the letters beyond ASCII that differ from one of ASCII in
case alone. -/
def farLetters : List Char := ['ſ', '\u212a']

/-- The characters that differ from a character in case alone, and itself, as far as they matter to
texts of ASCII. -/
def caseVariants (c : Char) : List Char :=
  if c.toLower == 's' || c == 'ſ' then ['s', 'S', 'ſ']
  else if c.toLower == 'k' || c == '\u212a' then ['k', 'K', '\u212a']
  else if c.isAlpha then [c.toLower, c.toUpper]
  else [c]

mutual

def CharClass.contains : CharClass → Char → Bool
  | .range first last, x => first ≤ x && x ≤ last
  | .named condition, x => condition x
  | .union classes, x => CharClass.anyContains classes x
  | .complement c, x => !c.contains x
  | .intersection a b, x => a.contains x && b.contains x
  | .difference a b, x => a.contains x && !b.contains x
  | .symmetricDifference a b, x => a.contains x != b.contains x
  | .folded c, x => (caseVariants x).any fun y => c.contains y

def CharClass.anyContains : List CharClass → Char → Bool
  | [], _ => false
  | c :: cs, x => c.contains x || CharClass.anyContains cs x

end

/-- A condition on a place of the text. -/
inductive Anchor
  | textStart
  | textEnd
  | wordBoundary
  | noWordBoundary
  | wordStart
  | wordEnd
  | wordStartHalf
  | wordEndHalf
deriving DecidableEq

inductive Pattern
  | empty
  | char (c : CharClass)
  | anchor (a : Anchor)
  | seq (p q : Pattern)
  | alt (p q : Pattern)
  /-- From `least` to `most` times, without a bound when there is none. -/
  | repeated (p : Pattern) (least : Nat) (most? : Option Nat)

/-! ### Places of a text -/

/-- A place of a text: the character before it, and what follows it. -/
structure Place where
  before? : Option Char
  rest : List Char
deriving DecidableEq

namespace Place

/-- All places from one on. -/
def onwards (before? : Option Char) : List Char → List Place
  | [] => [⟨before?, []⟩]
  | c :: cs => ⟨before?, c :: cs⟩ :: onwards (some c) cs

/-- Some places of one text, each once. -/
def distinct (places : List Place) : List Place :=
  places.eraseDupsBy fun a b => a.rest.length == b.rest.length

def isWordChar (c : Char) : Bool := c.isAlphanum || c == '_'

def satisfies (p : Place) (a : Anchor) : Bool :=
  let before := p.before?.any isWordChar
  let after := p.rest.head?.any isWordChar
  match a with
  | .textStart => p.before?.isNone
  | .textEnd => p.rest.isEmpty
  | .wordBoundary => before != after
  | .noWordBoundary => before == after
  | .wordStart => !before && after
  | .wordEnd => before && !after
  | .wordStartHalf => !before
  | .wordEndHalf => !after

end Place

/-! ### Matching -/

/-- Applies a function `n` times. -/
def iterate (f : α → α) : Nat → α → α
  | 0, x => x
  | n + 1, x => iterate f n (f x)

/-- What zero to `n` steps lead to. -/
def reach (step : List Place → List Place) : Nat → List Place → List Place
  | 0, places => places
  | n + 1, places => Place.distinct (places ++ reach step n (step places))

namespace Pattern

/-- The places where a match from a place on may end.  A place with `n` characters after it is gone
from, or passed by an empty match, after `n + 1` repetitions, so more of them lead nowhere else. -/
def ends : Pattern → Place → List Place
  | .empty, here => [here]
  | .char c, here =>
    match here.rest with
    | [] => []
    | x :: xs => if c.contains x then [⟨some x, xs⟩] else []
  | .anchor a, here => if here.satisfies a then [here] else []
  | .seq p q, here => Place.distinct ((p.ends here).flatMap q.ends)
  | .alt p q, here => Place.distinct (p.ends here ++ q.ends here)
  | .repeated p least most?, here =>
    let step := fun places => Place.distinct (places.flatMap p.ends)
    let bound := here.rest.length + 1
    let first := iterate step (min least bound) [here]
    match most? with
    | none => reach step bound first
    | some most => reach step (min (most - least) bound) first

/-- Whether some part of the text matches. -/
def isMatch (p : Pattern) (text : String) : Bool :=
  (Place.onwards none text.toList).any fun here => !(p.ends here).isEmpty

end Pattern

end Wiring
