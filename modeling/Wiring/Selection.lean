import Wiring.Socket

/-! Which beans pass the selectors of a socket.  What the patterns of selectors mean is left to a
pattern engine: it refuses a pattern with a message, or tells which texts the pattern matches. -/

namespace Wiring

/-- A pattern that is refused, by what is said of it. -/
structure BadPattern where
  message : String
deriving DecidableEq

/-- The condition on texts that a pattern stands for. -/
class PatternEngine where
  read (pattern : String) : Except BadPattern (String → Bool)

namespace Selector

/-- The condition that a selector puts on a bean. -/
def compile [PatternEngine] : Selector → Except BadPattern (Candidate → Bool)
  | .annotated marker => .ok fun c => marker ∈ c.annotations
  | .nameMatches pattern => do
    let condition ← PatternEngine.read pattern
    return fun c => condition c.name.text
  | .custom _ accepts => .ok accepts

/-- The conditions of some selectors, or the first of them that has none and why. -/
def compileAll [PatternEngine] :
    List Selector → Except (Selector × BadPattern) (List (Candidate → Bool))
  | [] => .ok []
  | s :: ss =>
    match s.compile with
    | .error bad => .error (s, bad)
    | .ok condition => (condition :: ·) <$> compileAll ss

end Selector

end Wiring
