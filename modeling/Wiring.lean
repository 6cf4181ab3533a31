import Wiring.Main
import Wiring.Proofs.Cycle.Dependency
import Wiring.Proofs.Cycle.Complete
import Wiring.Proofs.Cycle.Grounded
import Wiring.Proofs.Cycle.Memory
import Wiring.Proofs.Name.Text
import Wiring.Proofs.Plan
import Wiring.Proofs.Directives
import Wiring.Proofs.Inventory.Entries
import Wiring.Proofs.Inventory.Survey
import Wiring.Proofs.Pass.Outcome
import Wiring.Proofs.Resolution.Coverage
import Wiring.Proofs.Resolution.Lawful
import Wiring.Proofs.Resolution.Matched
import Wiring.Proofs.Resolution.Passed
import Wiring.Proofs.Resolution.Directed
import Wiring.Proofs.Finding
import Wiring.Proofs.Inventory.Items
import Wiring.Proofs.Resolution.Collected
import Wiring.Proofs.Inventory.Local
import Wiring.Proofs.Pass.Agreement
import Wiring.Proofs.Resolution.Encapsulated
import Wiring.Proofs.Inventory.Reordered
import Wiring.Proofs.Schedule.Alike
import Wiring.Proofs.Subtyping
import Wiring.Proofs.Cycle.Canonical
import Wiring.Proofs.Resolution.Alike
import Wiring.Proofs.Resolution.Reordered
import Wiring.Proofs.Inventory.Consistent
import Wiring.Proofs.Cycle.Chain
import Wiring.Proofs.Inventory.Kept
import Wiring.Proofs.Resolution.Counted
import Wiring.Proofs.Json.Decoding
import Wiring.Proofs.Name.Reading
import Wiring.Proofs.Document.TypeExpr
import Wiring.Proofs.Document.Depth
import Wiring.Proofs.Document.RoundTrip
import Wiring.Proofs.Subtyping.Derivation
import Wiring.Proofs.Subtyping.Complete
import Wiring.Proofs.Subtyping.Nominal
import Wiring.Proofs.Subtyping.Relisted
import Wiring.Proofs.Substitution
import Wiring.Proofs.Substitution.Composition
import Wiring.Proofs.Subtyping.Erased
import Wiring.Proofs.Subtyping.Reflexive
import Wiring.Proofs.Schedule.Order
import Wiring.Proofs.Schedule.Blocked
import Wiring.Proofs.Schedule.Supplied
import Wiring.Proofs.Inventory.Overview
import Wiring.Proofs.Resolution.Mutators
import Wiring.Proofs.Directives.Grouped
import Wiring.Proofs.Name.Grammar
import Wiring.Proofs.Name.Building
import Wiring.Proofs.Name.Agreement
import Wiring.Proofs.Document.Report
import Wiring.Proofs.Cycle.Trace
import Wiring.Proofs.Finding.Canonical
import Wiring.Proofs.Resolution.Annotated
import Wiring.Proofs.Settings.Saved
import Wiring.Proofs.Schedule.Rounds
