import Wiring.Settings.Layers

/-! Settings as the text of a file from which they can be loaded again. -/

namespace Wiring.Settings

def assignment (key value : String) : String := key ++ " = " ++ value ++ "\n"

def truth (b : Bool) : String := if b then "true" else "false"

/-- All the settings, with a table each for the resolver, its known types and the logging. -/
def text (s : Settings) : String :=
  let known := s.resolver.knownTypes
  "[resolver]\n" ++
    assignment "parallel" (truth s.resolver.parallel) ++
    assignment "memoize_cycle_search" (truth s.resolver.memoizeCycleSearch) ++
    assignment "warn_on_unresolved_root_sockets" (truth s.resolver.warnOnUnresolvedRootSockets) ++
    "\n[resolver.known_types]\n" ++
    assignment "list" (Toml.quoted known.list) ++
    assignment "set" (Toml.quoted known.set) ++
    assignment "collection" (Toml.quoted known.collection) ++
    assignment "top_type" (Toml.quoted known.top) ++
    "\n[logging]\n" ++
    assignment "level" (Toml.quoted s.logging.level) ++
    assignment "json_format" (truth s.logging.jsonFormat)

/-- Writes the settings to a file. -/
def save (s : Settings) (w : Workspace) (path : String) : Except Failure Workspace :=
  match w.write path s.text with
  | .ok w => .ok w
  | .error fault => .error (.ioDuring ("Failed to write config file " ++ path) fault.message)

end Wiring.Settings
