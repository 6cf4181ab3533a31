import Wiring.Text

/-! What can be wrong with the text of a pattern, and how a message shows the place. -/

namespace Wiring.Pattern

/-- The characters of a text from one number to before another. -/
structure Span where
  start : Nat
  stop : Nat
deriving DecidableEq

inductive FaultKind
  | groupUnclosed
  | groupUnopened
  | lookAround
  | flagUnknown
  | flagRepeated
  | flagNegationRepeated
  | flagNegationDangling
  | flagEnd
  | groupNameEnd
  | groupNameEmpty
  | groupNameInvalid
  | groupNameRepeated
  | repetitionMissing
  | countInvalid
  | countUnclosed
  | countEmpty
  | countTooLarge
  | escapeEnd
  | escapeUnknown
  | backreference
  | hexEmpty
  | hexInvalid
  | hexDigitInvalid
  | propertyInvalid
  | propertyNotFound
  | propertyValueNotFound
  | classUnclosed
  | classEscapeInvalid
  | classRangeInvalid
  | classRangeLiteral
  | wordBoundaryUnclosed
  | wordBoundaryUnknown
  | wordBoundaryEnd
  | notUtf8
  | unicodeNotAllowed
deriving DecidableEq

def FaultKind.text : FaultKind → String
  | .groupUnclosed => "unclosed group"
  | .groupUnopened => "unopened group"
  | .lookAround => "look-around, including look-ahead and look-behind, is not supported"
  | .flagUnknown => "unrecognized flag"
  | .flagRepeated => "duplicate flag"
  | .flagNegationRepeated => "flag negation operator repeated"
  | .flagNegationDangling => "dangling flag negation operator"
  | .flagEnd => "expected flag but got end of regex"
  | .groupNameEnd => "unclosed capture group name"
  | .groupNameEmpty => "empty capture group name"
  | .groupNameInvalid => "invalid capture group character"
  | .groupNameRepeated => "duplicate capture group name"
  | .repetitionMissing => "repetition operator missing expression"
  | .countInvalid => "invalid repetition count range, the start must be <= the end"
  | .countUnclosed => "unclosed counted repetition"
  | .countEmpty => "repetition quantifier expects a valid decimal"
  | .countTooLarge => "decimal literal invalid"
  | .escapeEnd => "incomplete escape sequence, reached end of pattern prematurely"
  | .escapeUnknown => "unrecognized escape sequence"
  | .backreference => "backreferences are not supported"
  | .hexEmpty => "hexadecimal literal empty"
  | .hexInvalid => "hexadecimal literal is not a Unicode scalar value"
  | .hexDigitInvalid => "invalid hexadecimal digit"
  | .propertyInvalid => "invalid Unicode character class"
  | .propertyNotFound => "Unicode property not found"
  | .propertyValueNotFound => "Unicode property value not found"
  | .classUnclosed => "unclosed character class"
  | .classEscapeInvalid => "invalid escape sequence found in character class"
  | .classRangeInvalid => "invalid character class range, the start must be <= the end"
  | .classRangeLiteral => "invalid range boundary, must be a literal"
  | .wordBoundaryUnclosed =>
    "special word boundary assertion is either unclosed or contains an invalid character"
  | .wordBoundaryUnknown =>
    "unrecognized special word boundary assertion, valid choices are: start, end, start-half " ++
      "or end-half"
  | .wordBoundaryEnd =>
    "found either the beginning of a special word boundary or a bounded repetition on a \\b " ++
      "with an opening brace, but no closing brace"
  | .notUtf8 => "pattern can match invalid UTF-8"
  | .unicodeNotAllowed => "Unicode not allowed here"

structure Fault where
  kind : FaultKind
  span : Span
  /-- The earlier place that the fault is a repetition of. -/
  earlier? : Option Span := none
deriving DecidableEq

/-! ### Showing the place -/

/-- A span by lines and columns, both counted from one. -/
structure Region where
  startLine : Nat
  startColumn : Nat
  endLine : Nat
  endColumn : Nat

def position (text : List Char) (n : Nat) : Nat × Nat :=
  (text.take n).foldl
    (fun (line, column) c => if c == '\n' then (line + 1, 1) else (line, column + 1))
    (1, 1)

def Span.region (s : Span) (text : List Char) : Region :=
  let (startLine, startColumn) := position text s.start
  let (endLine, endColumn) := position text s.stop
  ⟨startLine, startColumn, endLine, endColumn⟩

def withoutReturn (line : List Char) : List Char :=
  if line.getLast? == some '\r' then line.dropLast else line

/-- Marks under the regions of one line, which are in order and do not overlap. -/
def marks (column : Nat) : List Region → List Char
  | [] => []
  | r :: rs =>
    let width := max 1 (r.endColumn - r.startColumn)
    List.replicate (r.startColumn - 1 - column) ' ' ++ List.replicate width '^' ++
      marks (max column (r.startColumn - 1) + width) rs

/-- The text with marks under the fault.  With several lines, each has its number. -/
def annotated (text : List Char) (regions : List Region) : List Char :=
  let all := Text.lines text
  let count := all.length + (if text.getLast? == some '\n' then 1 else 0)
  let width := if count ≤ 1 then 0 else (toString count).length
  let padding := if width == 0 then 4 else width + 2
  (all.zipIdx 1).flatMap fun (line, number) =>
    let label := (toString number).toList
    let head :=
      if width == 0 then List.replicate 4 ' '
      else List.replicate (width - label.length) ' ' ++ label ++ [':', ' ']
    let here := regions.filter fun r => r.startLine == number && r.endLine == number
    head ++ withoutReturn line ++ ['\n'] ++
      (if here.isEmpty then [] else List.replicate padding ' ' ++ marks 0 here ++ ['\n'])

def Region.note (r : Region) : String :=
  "on line " ++ toString r.startLine ++ " (column " ++ toString r.startColumn ++
    ") through line " ++
    toString r.endLine ++ " (column " ++ toString (r.endColumn - 1) ++ ")\n"

def Region.ble (a b : Region) : Bool :=
  Text.lexBle [a.startLine, a.startColumn, a.endLine, a.endColumn]
    [b.startLine, b.startColumn, b.endLine, b.endColumn]

def Fault.message (f : Fault) (pattern : String) : String :=
  let text := pattern.toList
  let regions := ((f.span :: f.earlier?.toList).map (·.region text)).mergeSort Region.ble
  let body := String.ofList (annotated text regions)
  let bar := String.ofList (List.replicate 79 '~') ++ "\n"
  let notes := (regions.filter fun r => r.startLine != r.endLine).map Region.note
  "regex parse error:\n" ++
    (if text.contains '\n' then bar ++ body ++ bar ++ String.join notes else body) ++
    "error: " ++ f.kind.text

end Wiring.Pattern
