import FormulaLedger.Aggregate
import FormulaLedger.Calculation
import FormulaLedger.Calculator
import FormulaLedger.CommandLine.Arguments
import FormulaLedger.CommandLine.Help
import FormulaLedger.CommandLine.Run
import FormulaLedger.CommandLine.Usage
import FormulaLedger.Constant
import FormulaLedger.Date
import FormulaLedger.Decimal.Basic
import FormulaLedger.Decimal.Number
import FormulaLedger.Decimal.Shortest
import FormulaLedger.Document.Entry
import FormulaLedger.Document.Result
import FormulaLedger.Error
import FormulaLedger.Evaluation
import FormulaLedger.Formula.Basic
import FormulaLedger.Formula.Evaluation
import FormulaLedger.Formula.Parser
import FormulaLedger.Formula.Token
import FormulaLedger.Json.Basic
import FormulaLedger.Json.Reader
import FormulaLedger.Json.Record
import FormulaLedger.Json.Writer
import FormulaLedger.Label
import FormulaLedger.Main
import FormulaLedger.Period
import FormulaLedger.Pointer.Basic
import FormulaLedger.Pointer.Record
import FormulaLedger.Procedure
import FormulaLedger.Proofs.Decimal.Reading
import FormulaLedger.Proofs.Decimal.Shortest
import FormulaLedger.Proofs.Document.Pointer
import FormulaLedger.Proofs.Double.Basic
import FormulaLedger.Proofs.Double.Fields
import FormulaLedger.Proofs.Double.Rounding
import FormulaLedger.Proofs.Double.Scientific
import FormulaLedger.Proofs.Formula.Descent
import FormulaLedger.Proofs.Formula.Evaluation
import FormulaLedger.Proofs.Formula.Graft
import FormulaLedger.Proofs.Formula.Grammar
import FormulaLedger.Proofs.Formula.Offences
import FormulaLedger.Proofs.Formula.Operand
import FormulaLedger.Proofs.Formula.Place
import FormulaLedger.Proofs.Formula.Printing
import FormulaLedger.Proofs.Formula.Recursion
import FormulaLedger.Proofs.Formula.Scanning
import FormulaLedger.Proofs.Formula.Splitting
import FormulaLedger.Proofs.Formula.Tokens
import FormulaLedger.Proofs.Json.Reading
import FormulaLedger.Proofs.Label.Rendering
import FormulaLedger.Proofs.Period.Text
import FormulaLedger.Proofs.Pointer.Faults
import FormulaLedger.Proofs.Pointer.Record
import FormulaLedger.Proofs.Procedure.Discipline
import FormulaLedger.Proofs.Procedure.Ending
import FormulaLedger.Proofs.Procedure.Execution
import FormulaLedger.Proofs.Procedure.Interleaving
import FormulaLedger.Proofs.References.Additions
import FormulaLedger.Proofs.References.Graph
import FormulaLedger.Proofs.References.Reachability
import FormulaLedger.Proofs.References.Search
import FormulaLedger.Proofs.References.Table
import FormulaLedger.Proofs.References.Walk
import FormulaLedger.Proofs.Resolution.Activations
import FormulaLedger.Proofs.Resolution.Agreement
import FormulaLedger.Proofs.Resolution.Contribution
import FormulaLedger.Proofs.Resolution.Cycles
import FormulaLedger.Proofs.Resolution.Interpretation
import FormulaLedger.Proofs.Resolution.Locality
import FormulaLedger.Proofs.Resolution.NestedReasons
import FormulaLedger.Proofs.Resolution.Outline
import FormulaLedger.Proofs.Resolution.Reasons
import FormulaLedger.Proofs.Resolution.Reporting
import FormulaLedger.Proofs.Resolution.Requests
import FormulaLedger.Proofs.Resolution.Syntax
import FormulaLedger.Proofs.Resolution.Wording
import FormulaLedger.Proofs.Sheet.Aggregates
import FormulaLedger.Proofs.Sheet.Criteria
import FormulaLedger.Proofs.Sheet.Scopes
import FormulaLedger.Proofs.Snapshot.Names
import FormulaLedger.Proofs.Snapshot.Opening
import FormulaLedger.Proofs.Snapshot.Order
import FormulaLedger.Proofs.Store.Chain
import FormulaLedger.Proofs.Store.Keyed
import FormulaLedger.Proofs.Store.Latest
import FormulaLedger.Proofs.Store.Past
import FormulaLedger.Proofs.Store.Refinement
import FormulaLedger.Proofs.Store.Reports
import FormulaLedger.Proofs.Store.Request
import FormulaLedger.Proofs.Text.Lowercase
import FormulaLedger.Proofs.Versioning.Admission
import FormulaLedger.Proofs.Versioning.Change
import FormulaLedger.Proofs.Versioning.Constants
import FormulaLedger.Proofs.Versioning.Copies
import FormulaLedger.Proofs.Versioning.Current
import FormulaLedger.Proofs.Versioning.Deletion
import FormulaLedger.Proofs.Versioning.Editing
import FormulaLedger.Proofs.Versioning.Effect
import FormulaLedger.Proofs.Versioning.Guards
import FormulaLedger.Proofs.Versioning.Identity
import FormulaLedger.Proofs.Versioning.Moment
import FormulaLedger.Proofs.Versioning.Move
import FormulaLedger.Proofs.Versioning.Naming
import FormulaLedger.Proofs.Versioning.Obedience
import FormulaLedger.Proofs.Versioning.Overlap
import FormulaLedger.Proofs.Versioning.Overtaking
import FormulaLedger.Proofs.Versioning.Redirection
import FormulaLedger.Proofs.Versioning.Removal
import FormulaLedger.Proofs.Versioning.Resumption
import FormulaLedger.Proofs.Versioning.Rollback
import FormulaLedger.Proofs.Versioning.Run
import FormulaLedger.Proofs.Versioning.Session
import FormulaLedger.Proofs.Versioning.Sharing
import FormulaLedger.Proofs.Versioning.World
import FormulaLedger.References
import FormulaLedger.Resolution.Basic
import FormulaLedger.Sheet
import FormulaLedger.Snapshot
import FormulaLedger.Store.Basic
import FormulaLedger.Store.Faults
import FormulaLedger.Store.Program
import FormulaLedger.Text.Blank
import FormulaLedger.Text.CaseTable
import FormulaLedger.Text.Lowercase
import FormulaLedger.Text.Table
import FormulaLedger.Versioning
