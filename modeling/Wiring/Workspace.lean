import Wiring.Failure
import Wiring.Text

/-! What a run of the program finds around it: files, and the variables of its environment. -/

namespace Wiring

/-- Why a file cannot be read or written. -/
inductive FileFault
  | missing
  /-- A path leads through something that is no directory. -/
  | throughFile
  | isDirectory
  | other (reason : String)
deriving DecidableEq

def FileFault.message : FileFault → String
  | .missing => "No such file or directory (os error 2)"
  | .throughFile => "Not a directory (os error 20)"
  | .isDirectory => "Is a directory (os error 21)"
  | .other reason => reason

inductive FileEntry
  | file (text : String)
  | directory
deriving DecidableEq

structure Workspace where
  /-- What stands at a path. -/
  look : String → Except FileFault FileEntry
  /-- Whether a file can be written at a path. -/
  admits : String → Except FileFault Unit
  /-- The variables by their names. -/
  environment : List (String × String)
  /-- The directory with the settings of all programs of the user. -/
  configHome? : Option String

namespace Workspace

def contains (w : Workspace) (path : String) : Bool := (w.look path).toBool

def read (w : Workspace) (path : String) : Except FileFault String :=
  match w.look path with
  | .ok (.file text) => .ok text
  | .ok .directory => .error .isDirectory
  | .error fault => .error fault

/-- Writes a file, which is then found at the path. -/
def write (w : Workspace) (path text : String) : Except FileFault Workspace := do
  w.admits path
  return { w with look := fun p => if p = path then .ok (.file text) else w.look p }

end Workspace

/-! ### Files held in memory -/

/-- A directory with all that is below it: the texts of files by the names that lead to them. -/
abbrev FileTree := List (List String × String)

namespace FileTree

def file? (t : FileTree) (names : List String) : Option String := t.lookup names

/-- A directory is there when files are below it. -/
def isDirectory (t : FileTree) (names : List String) : Bool :=
  names.isEmpty || t.any fun (file, _) => names.isPrefixOf file && file.length > names.length

def entry (t : FileTree) (names : List String) : Except FileFault FileEntry :=
  match t.file? names with
  | some text => .ok (.file text)
  | none => if t.isDirectory names then .ok .directory else .error .missing

/-- The steps of a path.  An empty step stands for the directory it is taken in, like a dot. -/
def steps (path : String) : List String := (Text.pieces '/' path.toList).map String.ofList

/-- The names that a path leads to from a directory, with the last step left open.  Nothing is known
above the directory of the tree. -/
def walk (t : FileTree) (here : List String) : List String → Except FileFault (List String)
  | [] => .ok here
  | step :: rest =>
    match t.entry here with
    | .error fault => .error fault
    | .ok (.file _) => .error .throughFile
    | .ok .directory =>
      if step = "" || step = "." then t.walk here rest
      else if step = ".." then
        if here.isEmpty then .error .missing else t.walk here.dropLast rest
      else t.walk (here ++ [step]) rest

/-- What stands at a path; a path that begins with a slash leads out of the tree. -/
def look (t : FileTree) (path : String) : Except FileFault FileEntry :=
  if path.isEmpty || path.startsWith "/" then .error .missing
  else do t.entry (← t.walk [] (steps path))

/-- A new file needs a directory to be in, and cannot take the place of one. -/
def admits (t : FileTree) (path : String) : Except FileFault Unit := do
  if path.isEmpty || path.startsWith "/" then throw .missing
  let steps := steps path
  let directory ← t.walk [] steps.dropLast
  match t.entry directory with
  | .error fault => throw fault
  | .ok (.file _) => throw .throughFile
  | .ok .directory =>
    let last := steps.getLastD ""
    if last = "" || last = "." || last = ".." then throw .isDirectory
    if t.isDirectory (directory ++ [last]) then throw .isDirectory

end FileTree

/-- The workspace of some files by their paths, in which `xdg` holds the settings of all programs.
-/
def Workspace.ofFiles (files : List (String × String)) (environment : List (String × String)) :
    Workspace :=
  let names (path : String) : List String := (FileTree.steps path).filter fun s => s ≠ "" && s ≠ "."
  let tree : FileTree := files.map fun (path, text) => (names path, text)
  { look := tree.look
    admits := tree.admits
    environment
    configHome? := some "xdg" }

end Wiring
