import Wiring.Resolution

/-! Reports of resolutions: the plan, everything that has been found wrong, and the numbers that sum
them up.  A report has three written forms: for people, for a workflow's annotations, and as JSON
(in `Wiring.Document.Report`). -/

namespace Wiring

/-- A finding in the form that reports hold. -/
structure Diagnostic where
  id : String
  category : Category
  severity : Severity
  element : Name
  message : String
  suggestion? : Option String := none
deriving DecidableEq

def Diagnostic.ofFinding (f : Finding) : Diagnostic :=
  ⟨f.id, f.category, f.severity, f.element, f.message, f.suggestion?⟩

structure Summary where
  totalSockets : Nat := 0
  resolvedSingle : Nat := 0
  resolvedMulti : Nat := 0
  unresolved : Nat := 0
  ambiguous : Nat := 0
  missingRequired : Nat := 0
  errorCount : Nat := 0
  warningCount : Nat := 0
  cycleCount : Nat := 0
  declarationCount : Nat := 0
  directiveCount : Nat := 0
  /-- Whether the plan may be used: nothing found is an error. -/
  passed : Bool := false
deriving DecidableEq

def Summary.of (p : Plan) (findings : List Finding) : Summary :=
  let outcomes (label : String) : Nat := p.toList.countP fun e => e.outcome.label == label
  let found (c : Category) : Nat := findings.countP fun f => f.category = c
  { totalSockets := p.size
    resolvedSingle := outcomes "resolved_single"
    resolvedMulti := outcomes "resolved_multi"
    unresolved := outcomes "unresolved"
    ambiguous := outcomes "ambiguous"
    missingRequired := outcomes "missing_required"
    errorCount := Finding.errorCount findings
    warningCount := Finding.warningCount findings
    cycleCount := found .cycle
    declarationCount := found .declaration
    directiveCount := found .directive
    passed := Finding.errorCount findings == 0 }

structure Report where
  generatedAt : String
  summary : Summary
  plan : Plan
  diagnostics : List Diagnostic
deriving DecidableEq

namespace Report

/-- The report on a plan and on findings in the order in which they are to stand. -/
def of (generatedAt : String) (p : Plan) (findings : List Finding) : Report :=
  ⟨generatedAt, .of p findings, p, findings.map .ofFinding⟩

def hasErrors (r : Report) : Bool := !r.summary.passed

def diagnosticsFor (r : Report) (element : Name) : List Diagnostic :=
  r.diagnostics.filter (·.element = element)

def diagnosticsWithId (r : Report) (id : String) : List Diagnostic :=
  r.diagnostics.filter (·.id = id)

def errors (r : Report) : List Diagnostic := r.diagnostics.filter (·.severity = .error)

def warnings (r : Report) : List Diagnostic := r.diagnostics.filter (·.severity = .warning)

end Report

def Graph.resolve [PatternEngine] (g : Graph) (settings : ResolverSettings)
    (generatedAt : String) : Report :=
  let r := Resolution.ofGraph settings g
  .of generatedAt r.plan (Finding.snapshot r.findings)

/-! ### For people -/

namespace Report

def summaryLine (label : String) (n : Nat) : String := label ++ toString n ++ "\n"

def planLine (e : PlanEntry) : String :=
  "  " ++ e.socket.text ++ " (" ++ e.multiplicity.text ++ ") <- " ++ e.outcome.text ++ "\n"

def diagnosticLines (d : Diagnostic) : String :=
  "  [" ++ d.severity.label ++ "] " ++ d.id ++ " " ++ d.message ++ "\n" ++
    d.suggestion?.elim "" fun s => "      help: " ++ s ++ "\n"

/-- Lines under a heading, with an empty line after them; nothing when there are no lines. -/
def block (heading : String) (lines : List String) : String :=
  if lines.isEmpty then "" else heading ++ "\n" ++ String.join lines ++ "\n"

def human (r : Report) : String :=
  let s := r.summary
  "=== Wiring Resolution Report ===\n\n" ++ "Generated: " ++ r.generatedAt ++ "\n\n" ++
    block "--- Summary ---"
      [summaryLine "Sockets:           " s.totalSockets,
        summaryLine "  Single:          " s.resolvedSingle,
        summaryLine "  Multi:           " s.resolvedMulti,
        summaryLine "  Unresolved:      " s.unresolved,
        summaryLine "  Ambiguous:       " s.ambiguous,
        summaryLine "  Missing:         " s.missingRequired,
        summaryLine "Errors:            " s.errorCount,
        summaryLine "Warnings:          " s.warningCount,
        summaryLine "Cycles:            " s.cycleCount] ++
    "Status: " ++ (if s.passed then "PASSED" else "FAILED") ++ "\n\n" ++
    block "--- Wiring Plan ---" (r.plan.toList.map planLine) ++
    block "--- Diagnostics ---" (r.diagnostics.map diagnosticLines)

/-! ### For workflows -/

def tableRow (label : String) (n : Nat) : String := "| " ++ label ++ " | " ++ toString n ++ " |\n"

def workflowLine (d : Diagnostic) : String :=
  "::" ++ (match d.severity with | .error => "error" | .warning => "warning") ++ " title=" ++
    d.id ++
    "::" ++ d.message ++ "\n"

def ciHead (s : Summary) : String :=
  "## Wiring Resolution\n\n" ++
    (if s.passed then "**Status:** :white_check_mark: PASSED\n\n"
      else "**Status:** :x: FAILED\n\n") ++
    "| Outcome | Count |\n" ++ "|---------|-------|\n" ++
    tableRow "Resolved (single)" s.resolvedSingle ++ tableRow "Resolved (multi)" s.resolvedMulti ++
    tableRow "Unresolved" s.unresolved ++ tableRow "Ambiguous" s.ambiguous ++
    tableRow "Missing" s.missingRequired ++ tableRow "Cycles" s.cycleCount ++ "\n"

def ci (r : Report) : String := ciHead r.summary ++ String.join (r.diagnostics.map workflowLine)

end Report

end Wiring
