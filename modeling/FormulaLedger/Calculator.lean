import FormulaLedger.Procedure
import FormulaLedger.Resolution.Basic

set_option autoImplicit false

namespace FormulaLedger

structure RowIdentity where
  uniqueId : String
  version : Nat
  unit : String
  deriving DecidableEq, Repr

structure ReportRow where
  id : RowId
  /-- Nothing is known of a row that does not exist any more. -/
  identity : Option RowIdentity
  evaluation : Evaluation
  deriving DecidableEq, Repr

structure ReportStats where
  evaluated : Nat
  errors : Nat
  withReasons : Nat
  missing : Nat
  deriving DecidableEq, Repr

namespace ReportStats

def zero : ReportStats := ⟨0, 0, 0, 0⟩

def count (s : ReportStats) (e : Evaluation) : ReportStats :=
  { s with
    evaluated := s.evaluated + 1
    errors := s.errors + if e.value.isError then 1 else 0
    withReasons := s.withReasons + if e.reasons.isEmpty then 0 else 1 }

end ReportStats

structure ReportEvaluation where
  report : String
  rows : List ReportRow
  stats : ReportStats
  deriving DecidableEq, Repr

/-- The evaluation of a row that a report lists: a row that is not the latest says so. -/
def Evaluation.noteStale (e : Evaluation) (c : Calculation) : Evaluation :=
  if c.latest then e
  else { e with reasons := e.reasons ++ [.about .staleRevision
    (c.uniqueId ++ " v" ++ toString c.version)] }

namespace Calculator

section

variable {m : Type → Type} [Monad m]

def found {α : Type} (lookup : m (Except StoreError (Option α))) (missing : LedgerError) :
    ExceptT LedgerError m α := do
  match ← (lookup : m _) with
  | .ok (some a) => return a
  | .ok none => throw missing
  | .error e => throw (.ofStore e)

def evaluateRow (look : Lookups m) (s : Setting) (depth : Nat) (c : Calculation) : m Evaluation :=
  evaluateWithin look s depth [] c

def evaluateLatest (look : Lookups m) (s : Setting) (depth : Nat) (uniqueId : String) :
    ExceptT LedgerError m Evaluation := do
  let c ← found (look.latest uniqueId) (.calculationNotFound uniqueId)
  (evaluateRow look s depth c : m Evaluation)

/-- Evaluates the listed rows in their order, and goes on after `rows` and `stats`. -/
def evaluateRows (look : Lookups m) (s : Setting) (depth : Nat) (rows : List ReportRow)
    (stats : ReportStats) :
    List RowId → ExceptT LedgerError m (List ReportRow × ReportStats)
  | [] => return (rows, stats)
  | id :: ids => do
    match ← (look.row id : m _) with
    | .error e => throw (.ofStore e)
    | .ok none =>
      let missing := { stats with missing := stats.missing + 1 }
      let row : ReportRow := ⟨id, none, ⟨.error, [.about .rowMissing (rowName id)]⟩⟩
      evaluateRows look s depth (if s.options.skipMissingRows then rows else rows ++ [row])
        missing ids
    | .ok (some c) =>
      let plain ← (evaluateRow look s depth c : m Evaluation)
      let e := plain.noteStale c
      evaluateRows look s depth (rows ++ [⟨id, some ⟨c.uniqueId, c.version, c.unit⟩, e⟩])
        (stats.count e) ids

def evaluateReport (look : Lookups m) (s : Setting) (depth : Nat) (name : String) :
    ExceptT LedgerError m ReportEvaluation := do
  let report ← found (look.report name) (.reportNotFound name)
  let (rows, stats) ← evaluateRows look s depth [] .zero report.rows
  return ⟨report.name, rows, stats⟩

end

def dependencies (uniqueId : String) : Procedure (List Entity) := do
  match ← Procedure.ask (.latest uniqueId) with
  | some c => return (ReferenceGraph.ofCalculations [c]).references uniqueId
  | none => throw (.calculationNotFound uniqueId)

def referenceGraph : Procedure ReferenceGraph := do
  let rows ← Procedure.ask .latestRows
  return ReferenceGraph.ofCalculations rows

end Calculator

namespace Store

def evaluateRow (store : Store) (s : Setting) (c : Calculation) : Evaluation :=
  Calculator.evaluateRow store.lookups s store.depth c

def evaluateLatest (store : Store) (s : Setting) (uniqueId : String) :
    Except LedgerError Evaluation :=
  Calculator.evaluateLatest store.lookups s store.depth uniqueId

def evaluateReport (store : Store) (s : Setting) (name : String) :
    Except LedgerError ReportEvaluation :=
  Calculator.evaluateReport store.lookups s store.depth name

end Store

end FormulaLedger
