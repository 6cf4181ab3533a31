import Wiring.Pattern.Reader
import Wiring.Selection

/-! The pattern engine of the program. -/

namespace Wiring.Pattern

instance : PatternEngine where
  read pattern :=
    match read pattern with
    | .ok p => .ok p.isMatch
    | .error fault => .error ⟨fault.message pattern⟩

end Wiring.Pattern
