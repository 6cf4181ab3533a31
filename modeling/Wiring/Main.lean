import Std.Time.Format
import Wiring.Run

/-! The program: it takes in the files and variables that a run may look at, and carries out what
the run leaves behind. -/

namespace Wiring

/-- The present moment in universal time. -/
def currentTime : IO String := do
  let now := Std.Time.DateTime.ofTimestamp (← Std.Time.Timestamp.now) .UTC
  return now.format "uuuu-MM-dd'T'HH:mm:ss.SSSSSSSSSxxx"

def faultOf : IO.Error → FileFault
  | .noFileOrDirectory _ _ _ => .missing
  | .inappropriateType _ _ _ => .throughFile
  | e => .other e.toString

/-- What stands at a path. -/
def lookAt (path : String) : IO (Except FileFault FileEntry) := do
  try
    return .ok (.file (← IO.FS.readFile path))
  catch
    | .inappropriateType _ 21 _ => return .ok .directory
    | e => return .error (faultOf e)

/-- The pieces of some bytes between zeros, where they are text. -/
def piecesBetweenZeros (bytes : ByteArray) : List String :=
  let (last, pieces) := bytes.foldl
    (fun (piece, pieces) b =>
      if b == 0 then (ByteArray.empty, piece :: pieces) else (piece.push b, pieces))
    (ByteArray.empty, [])
  (last :: pieces).reverse.filterMap String.fromUTF8?

/-- The variables of the environment, where the system lists them. -/
def readEnvironment : IO (List (String × String)) := do
  try
    let pieces := piecesBetweenZeros (← IO.FS.readBinFile "/proc/self/environ")
    return pieces.filterMap fun piece =>
      match piece.toList.span (· != '=') with
      | (name, _ :: value) => some (String.ofList name, String.ofList value)
      | _ => none
  catch _ => return []

/-- The directory with the settings of all programs. -/
def configHome? : IO (Option String) := do
  match ← IO.getEnv "XDG_CONFIG_HOME" with
  | some home => if home.startsWith "/" then return some home
  | none => pure ()
  match ← IO.getEnv "HOME" with
  | some home => return if home.isEmpty then none else some (home ++ "/.config")
  | none => return none

/-- The workspace with what stands at some paths. -/
def workspaceOf (paths : List String) (home? : Option String) : IO Workspace := do
  let found ← paths.mapM fun path => return (path, ← lookAt path)
  return {
    look := fun path => (found.lookup path).getD (.error .missing)
    admits := fun _ => .ok ()
    environment := ← readEnvironment
    configHome? := home? }

end Wiring

open Wiring

def main (args : List String) : IO UInt32 := do
  let home? ← configHome?
  let paths := ((CommandLine.parse args).toOption.map (·.paths home?)).getD []
  let result := run args (← workspaceOf paths home?) (← currentTime)
  if let some (path, text) := result.written? then
    try
      IO.FS.writeFile path text
    catch e =>
      IO.eprintln ("Error: I/O error: Failed to write report " ++ path ++ ": " ++ e.toString)
      return 1
  IO.print result.printed
  IO.eprint result.complaint
  return result.exit.toUInt32
