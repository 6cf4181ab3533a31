import Wiring.LogLevel
import Wiring.Resolution
import Wiring.Text

/-! The settings of the program: how graphs are resolved, and how much is told of it. -/

namespace Wiring

structure LoggingSettings where
  level : String := "info"
  jsonFormat : Bool := false
deriving DecidableEq

structure Settings where
  resolver : ResolverSettings := {}
  logging : LoggingSettings := {}
deriving DecidableEq

namespace KnownTypes

/-- The containers by their keys. -/
def containers (k : KnownTypes) : List (String × String) :=
  [("list", k.list), ("set", k.set), ("collection", k.collection)]

/-- All the names by their keys. -/
def names (k : KnownTypes) : List (String × String) := k.containers ++ [("top_type", k.top)]

/-- The first container that has the name of an earlier one. -/
def repeated? : List (String × String) → List String → Option (String × String)
  | [], _ => none
  | (key, name) :: rest, earlier =>
    if name ∈ earlier then some (key, name) else repeated? rest (name :: earlier)

/-- All names must be there, and the containers must be told apart. -/
def validate (k : KnownTypes) : Except Failure Unit :=
  match k.names.find? fun (_, name) => (Text.trimChars name.toList).isEmpty with
  | some (key, _) => .error (.config ("Known type '" ++ key ++ "' cannot be empty"))
  | none =>
    match repeated? k.containers [] with
    | some (key, name) =>
      .error (.config ("Known type '" ++ key ++ "' reuses container name '" ++ name ++
        "'; list, set and collection must differ"))
    | none => .ok ()

end KnownTypes

namespace Settings

def validate (s : Settings) : Except Failure Unit := do
  s.resolver.knownTypes.validate
  let _ ← LogLevel.parse s.logging.level

/-- The settings themselves, if they are valid. -/
def checked (s : Settings) : Except Failure Settings := do
  s.validate
  return s

/-! ### Changes -/

def withResolver (s : Settings) (resolver : ResolverSettings) : Settings := { s with resolver }

def withLogging (s : Settings) (logging : LoggingSettings) : Settings := { s with logging }

def withKnownTypes (s : Settings) (knownTypes : KnownTypes) : Settings :=
  s.withResolver { s.resolver with knownTypes }

/-- The settings for a resolution on one thread. -/
def sequential (s : Settings) : Settings := s.withResolver { s.resolver with parallel := false }

def withMemoizedCycleSearch (s : Settings) (enabled : Bool) : Settings :=
  s.withResolver { s.resolver with memoizeCycleSearch := enabled }

end Settings

end Wiring
