import Wiring.CommandLine
import Wiring.Document.Format
import Wiring.Document.Report
import Wiring.Pattern.Engine
import Wiring.Settings.Layers

/-! A run of the program: a graph is loaded and resolved, and the report on it is written.  The exit
code tells whether the plan may be used. -/

namespace Wiring

def Report.render (r : Report) : ReportFormat → String
  | .human => r.human
  | .json => r.json
  | .ci => r.ci

namespace CommandLine

def settings (c : CommandLine) (w : Workspace) : Except Failure Settings := do
  let s ← Settings.load w c.config?
  let s := if c.sequential then s.sequential else s
  return if c.memoizeCycles then s.withMemoizedCycleSearch true else s

def resolve (c : CommandLine) (w : Workspace) (s : Settings) (time : String) :
    Except Failure Report := do
  return (← Graph.load w c.graph).resolve s.resolver time

/-- The report, which has been written if it goes to a file, and its text. -/
def execute (c : CommandLine) (w : Workspace) (time : String) :
    Except Failure (Report × String) := do
  let report ← c.resolve w (← c.settings w) time
  let text := report.render c.format
  match c.output? with
  | none => return (report, text)
  | some path =>
    match w.write path text with
    | .ok _ => return (report, text)
    | .error fault => throw (.ioDuring ("Failed to write report " ++ path) fault.message)

end CommandLine

def Report.exitCode (r : Report) : Nat := if r.hasErrors then 1 else 0

/-- What a run leaves behind. -/
structure Result where
  exit : Nat
  printed : String := ""
  /-- What the user is told when a run comes to nothing. -/
  complaint : String := ""
  /-- The path and the text of the file that is written. -/
  written? : Option (String × String) := none
deriving DecidableEq

def versionText : String := "wireplan 0.1.0\n"

def usageText : String := "Usage: wireplan [OPTIONS] <GRAPH>\n"

def helpText : String :=
  "Wireplan - compile-time dependency-injection wiring resolver\n\n" ++ usageText ++ "\n" ++
    "Arguments:\n" ++
    "  <GRAPH>  Wiring graph document (`.json` or `.toml`)\n\n" ++
    "Options:\n" ++
    "  -c, --config <CONFIG>  Path to configuration file\n" ++
    "  -f, --format <FORMAT>  Report format [default: human] [possible values: human, json, ci]\n" ++
    "  -o, --output <PATH>    Write the report to a file instead of stdout\n" ++
    "      --sequential       Resolve on a single thread\n" ++
    "      --memoize-cycles   Skip edges already explored from earlier roots during cycle search\n" ++
    "  -h, --help             Print help (see more with '--help')\n" ++
    "  -V, --version          Print version\n"

def Usage.result : Usage → Result
  | .help => { exit := 0, printed := helpText }
  | .version => { exit := 0, printed := versionText }
  | _ => { exit := 2, complaint := usageText }

def Failure.result (f : Failure) : Result :=
  { exit := 1, complaint := "Error: " ++ f.message ++ "\n" }

/-- The result of a resolution: its text goes to the file that is wanted, or is printed as a line of
its own. -/
def CommandLine.result (c : CommandLine) (r : Report) (text : String) : Result :=
  match c.output? with
  | some path => { exit := r.exitCode, written? := some (path, text) }
  | none => { exit := r.exitCode, printed := text ++ "\n" }

def run (args : List String) (w : Workspace) (time : String) : Result :=
  match CommandLine.parse args with
  | .error usage => usage.result
  | .ok c =>
    match c.execute w time with
    | .error failure => failure.result
    | .ok (report, text) => c.result report text

def CommandLine.paths (c : CommandLine) (configHome? : Option String) : List String :=
  (match c.config? with
    | some path => [path]
    | none => Settings.candidates configHome?) ++ [c.graph]

end Wiring
