import Wiring.Json.Decoding

/-! Why an operation of the program fails.  What is wrong in a graph is a finding and no failure. -/

namespace Wiring

mutual

inductive Failure
  | invalidName (subject reason : String)
  /-- The file system refuses, for the reason it gives. -/
  | io (cause : String)
  | ioDuring (activity cause : String)
  | json (error : Json.Error)
  /-- Settings that do not go together, or that are not there. -/
  | config (message : String)
  /-- A setting that has no meaning. -/
  | configuration (message : String)
  | configurationDuring (activity : String) (cause : Cause)
  | infrastructure (activity : String) (cause : Cause)

/-- What brought an activity to its end. -/
inductive Cause
  | given (reason : String)
  | failure (failure : Failure)
  /-- A document that cannot be read, of which no more is told. -/
  | unreadable

end

def Cause.suffix : Cause → String
  | .given reason => ": " ++ reason
  | .failure _ | .unreadable => ""

namespace Failure

def message : Failure → String
  | .invalidName subject reason => "Invalid name '" ++ subject ++ "': " ++ reason
  | .io cause => "I/O error: " ++ cause
  | .ioDuring activity cause => "I/O error: " ++ activity ++ ": " ++ cause
  | .json (.text _) => "JSON parsing error"
  | .json (.data mismatch) => "JSON parsing error: " ++ mismatch.message
  | .config message => "Configuration error: " ++ message
  | .configuration message => "Configuration error: " ++ message
  | .configurationDuring activity cause => "Configuration error: " ++ activity ++ cause.suffix
  | .infrastructure activity cause => "Infrastructure error: " ++ activity ++ cause.suffix

def reason? : Failure → Option String
  | .io cause => some cause
  | .ioDuring _ cause => some cause
  | .configurationDuring _ (.given reason) => some reason
  | .infrastructure _ (.given reason) => some reason
  | _ => none

end Failure

end Wiring
