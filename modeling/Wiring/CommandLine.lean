/-! The command line.  Arguments are taken from left to right; an option without a value attached to
it waits for the next argument, and its value is looked at only when it is known that nothing
strange follows. -/

namespace Wiring

/-- The written form of a report. -/
inductive ReportFormat
  | human
  | json
  | ci
deriving DecidableEq

def ReportFormat.ofText? (text : String) : Option ReportFormat :=
  match text with
  | "human" => some .human
  | "json" => some .json
  | "ci" => some .ci
  | _ => none

structure CommandLine where
  graph : String
  config? : Option String := none
  format : ReportFormat := .human
  /-- Where the report goes, if not to the terminal. -/
  output? : Option String := none
  sequential : Bool := false
  memoizeCycles : Bool := false
deriving DecidableEq

/-- Why there is nothing to run. -/
inductive Usage
  | unknownArgument
  | invalidValue
  | tooManyValues
  | argumentConflict
  | missingRequiredArgument
  | help
  | version
deriving DecidableEq

namespace CommandLine

/-! ### Options -/

inductive Slot
  | graph
  | config
  | format
  | output
deriving DecidableEq

inductive Switch
  | sequential
  | memoizeCycles
  | help
  | version
deriving DecidableEq

inductive OptionKind
  | slot (slot : Slot)
  | switch (switch : Switch)

def longOption? (name : List Char) : Option OptionKind :=
  match String.ofList name with
  | "config" => some (.slot .config)
  | "format" => some (.slot .format)
  | "output" => some (.slot .output)
  | "sequential" => some (.switch .sequential)
  | "memoize-cycles" => some (.switch .memoizeCycles)
  | "help" => some (.switch .help)
  | "version" => some (.switch .version)
  | _ => none

def shortOption? (letter : Char) : Option OptionKind :=
  match letter with
  | 'c' => some (.slot .config)
  | 'f' => some (.slot .format)
  | 'o' => some (.slot .output)
  | 'h' => some (.switch .help)
  | 'V' => some (.switch .version)
  | _ => none

/-! ### Reading -/

structure Draft where
  graph? : Option String := none
  config? : Option String := none
  format? : Option ReportFormat := none
  output? : Option String := none
  sequential : Bool := false
  memoizeCycles : Bool := false
  /-- The slot that is being filled, and its value once it is there. -/
  pending? : Option (Slot × Option String) := none
  /-- Whether the one place for an argument that is no option has been taken. -/
  placed : Bool := false
  /-- Whether all that follows is no option. -/
  trailing : Bool := false

namespace Draft

/-- A slot is filled once, and with a value that it can hold: a path that is not empty, or the name
of a format. -/
def fill (d : Draft) (slot : Slot) (value : String) : Except Usage Draft :=
  let path (isFree : Bool) (filled : Draft) : Except Usage Draft :=
    if !isFree then .error .argumentConflict
    else if value.isEmpty then .error .invalidValue
    else .ok filled
  match slot with
  | .graph => path d.graph?.isNone { d with graph? := some value }
  | .config => path d.config?.isNone { d with config? := some value }
  | .output => path d.output?.isNone { d with output? := some value }
  | .format =>
    if d.format?.isSome then .error .argumentConflict
    else
      match ReportFormat.ofText? value with
      | some format => .ok { d with format? := some format }
      | none => .error .invalidValue

def settle (d : Draft) : Except Usage Draft :=
  match d.pending? with
  | none => .ok d
  | some (_, none) => .error .invalidValue
  | some (slot, some value) => ({ d with pending? := none }).fill slot value

def turnOn (d : Draft) (switch : Switch) : Except Usage Draft := do
  let d ← d.settle
  match switch with
  | .help => throw .help
  | .version => throw .version
  | .sequential =>
    if d.sequential then throw .argumentConflict else return { d with sequential := true }
  | .memoizeCycles =>
    if d.memoizeCycles then throw .argumentConflict else return { d with memoizeCycles := true }

def takeOption (d : Draft) (option? : Option OptionKind) (attached? : Option (List Char)) :
    Except Usage Draft :=
  match option?, attached? with
  | none, _ => .error .unknownArgument
  | some (.slot slot), some value => do (← d.settle).fill slot (String.ofList value)
  | some (.slot slot), none => do return { ← d.settle with pending? := some (slot, none) }
  | some (.switch switch), none => d.turnOn switch
  | some (.switch _), some _ => .error .tooManyValues

def takePlain (d : Draft) (arg : String) : Except Usage Draft :=
  if d.placed then .error .unknownArgument
  else do return { ← d.settle with pending? := some (.graph, some arg), placed := true }

def attachedToLong? (text : List Char) : Option (List Char) :=
  match text.dropWhile (· != '=') with
  | _ :: value => some value
  | [] => none

/-- What follows the letter of an option in the same argument, where an equals sign may stand
between them. -/
def attachedToShort? : List Char → Option (List Char)
  | [] => none
  | '=' :: value => some value
  | value => some value

/-- Takes an option by its letter.  What follows the letter of a switch can only be more letters,
but none of them is reached. -/
def takeShort (d : Draft) (letter : Char) (rest : List Char) : Except Usage Draft :=
  match shortOption? letter with
  | some (.switch switch) => d.turnOn switch
  | option? => d.takeOption option? (attachedToShort? rest)

def take (d : Draft) (arg : String) : Except Usage Draft :=
  if d.trailing then d.takePlain arg
  else
    match arg.toList with
    | ['-', '-'] => .ok { d with trailing := true }
    | '-' :: '-' :: text =>
      d.takeOption (longOption? (text.takeWhile (· != '='))) (attachedToLong? text)
    | '-' :: letter :: rest => d.takeShort letter rest
    | _ =>
      match d.pending? with
      | some (slot, none) => .ok { d with pending? := some (slot, some arg) }
      | _ => d.takePlain arg

def finish (d : Draft) : Except Usage CommandLine := do
  let d ← d.settle
  match d.graph? with
  | none => throw .missingRequiredArgument
  | some graph =>
    return {
      graph
      config? := d.config?
      format := d.format?.getD .human
      output? := d.output?
      sequential := d.sequential
      memoizeCycles := d.memoizeCycles }

end Draft

def parse (args : List String) : Except Usage CommandLine := do
  (← args.foldlM Draft.take {}).finish

end CommandLine

end Wiring
