import FormulaLedger.Document.Entry
import FormulaLedger.Versioning

/-!
Snapshots: whole ledgers in one document. Reports name calculations by unique id, and opening a
snapshot points them at rows. Every entry is added as if by hand, so a snapshot that opens holds
nothing that could not have been entered.
-/

set_option autoImplicit false

namespace FormulaLedger

structure CalculationEntry where
  uniqueId : String
  unit : String
  expression : List PointerRecord
  deriving DecidableEq, Repr

structure MaterialEntry where
  companyId : String
  period : Period
  sheet : Sheet
  deriving DecidableEq, Repr

structure ReportEntry where
  name : String
  calculations : List String
  deriving DecidableEq, Repr

structure Snapshot where
  constants : List Constant
  calculations : List CalculationEntry
  materials : List MaterialEntry
  reports : List ReportEntry
  deriving DecidableEq, Repr

def CalculationEntry.ofJson? (json : Json) : Option CalculationEntry := do
  let r ← json.record? ["uniqueId", "unit", "expression"]
  return {
    uniqueId := ← r.required "uniqueId" Json.text?
    unit := ← r.required "unit" Json.text?
    expression := ← r.required "expression" (Json.list? PointerRecord.ofJson?) }

/-- The sheet's fields stand beside the others. -/
def MaterialEntry.ofJson? (json : Json) : Option MaterialEntry := do
  let r ← json.sharedRecord? 3 ["companyId", "period", "materialId", "rows"]
  return {
    companyId := ← r.required "companyId" Json.text?
    period := ← r.required "period" Period.ofJson?
    sheet := {
      materialId := ← r.required "materialId" Json.text?
      rows := ← r.defaulted "rows" [] (Json.list? (Json.list? Cell.ofJson?)) } }

def ReportEntry.ofJson? (json : Json) : Option ReportEntry := do
  let r ← json.record? ["name", "calculations"]
  return {
    name := ← r.required "name" Json.text?
    calculations := ← r.defaulted "calculations" [] (Json.list? Json.text?) }

namespace Snapshot

def ofJson? (json : Json) : Option Snapshot := do
  let r ← json.record? ["constants", "calculations", "materials", "reports"]
  return {
    constants := ← r.defaulted "constants" [] (Json.list? Constant.ofJson?)
    calculations := ← r.defaulted "calculations" [] (Json.list? CalculationEntry.ofJson?)
    materials := ← r.defaulted "materials" [] (Json.list? MaterialEntry.ofJson?)
    reports := ← r.defaulted "reports" [] (Json.list? ReportEntry.ofJson?) }

def read? (text : String) : Option Snapshot := (Json.read? text).bind ofJson?

end Snapshot

def CalculationEntry.draft (e : CalculationEntry) : Except InputError Draft :=
  match decodeExpression e.expression with
  | .ok expression => .ok ⟨e.unit, expression⟩
  | .error (index, fault) => .error (.pointerAt index fault)

def CalculationEntry.enter (e : CalculationEntry) : Procedure Unit := do
  match e.draft with
  | .error fault => throw (.invalid fault)
  | .ok draft =>
    let _ ← Versioning.createCalculation e.uniqueId draft
    return ()

def ReportEntry.enter (e : ReportEntry) : Procedure Unit := do
  let rows ← e.calculations.mapM Versioning.latest
  Procedure.ask (.insertReport ⟨e.name, rows.map (·.id)⟩)

namespace Snapshot

/-- Of entries for the same sheet the last one counts. -/
def sheets (s : Snapshot) : Materials :=
  s.materials.foldl (fun m e => m.insert e.companyId e.period e.sheet) []

def enter (s : Snapshot) : Procedure Unit := do
  s.constants.forM Versioning.createConstant
  s.calculations.forM CalculationEntry.enter
  s.reports.forM ReportEntry.enter

/-- The store and the sheets of a snapshot, or the failure of its first bad entry. -/
def build (s : Snapshot) : Except LedgerError (Store × Materials) :=
  match Procedure.runOn s.enter .empty with
  | (.ok (), store) => .ok (store, s.sheets)
  | (.error e, _) => .error e

end Snapshot

end FormulaLedger
