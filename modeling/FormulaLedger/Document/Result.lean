import FormulaLedger.Calculator
import FormulaLedger.Json.Basic
import FormulaLedger.Versioning

set_option autoImplicit false

namespace FormulaLedger

def Value.toJson : Value → Json
  | .number x => .number (.ofFloat x)
  | .error => .str errorMark

namespace Evaluation

def fields (wording : Wording) (e : Evaluation) : List (String × Json) :=
  [("value", e.value.toJson), ("reasons", .strs (e.texts wording))]

def toJson (wording : Wording) (e : Evaluation) : Json := .record (e.fields wording)

end Evaluation

def ReportRow.toJson (wording : Wording) (row : ReportRow) : Json :=
  let known (part : RowIdentity → Json) : Json := (row.identity.map part).getD .null
  .record ([
    ("id", .nat row.id),
    ("uniqueId", known fun i => .str i.uniqueId),
    ("version", known fun i => .nat i.version),
    ("unit", known fun i => .str i.unit)] ++ row.evaluation.fields wording)

def ReportStats.toJson (s : ReportStats) : Json :=
  .record [
    ("evaluated", .nat s.evaluated),
    ("errors", .nat s.errors),
    ("with_reasons", .nat s.withReasons),
    ("missing", .nat s.missing)]

def ReportEvaluation.toJson (wording : Wording) (e : ReportEvaluation) : Json :=
  .record [
    ("report", .str e.report),
    ("rows", .array (e.rows.map (ReportRow.toJson wording))),
    ("stats", e.stats.toJson)]

def Referrer.toJson : Referrer → Json
  | .calculation uniqueId => .record [("kind", .str "calculation"), ("name", .str uniqueId)]
  | .report name => .record [("kind", .str "report"), ("name", .str name)]

def EditOutcome.toJson : EditOutcome → Json
  | .inPlace id => .record [("outcome", .str "inPlace"), ("id", .nat id)]
  | .versioned previous current version reportsRedirected =>
    .record [
      ("outcome", .str "versioned"),
      ("previous", .nat previous),
      ("current", .nat current),
      ("version", .nat version),
      ("reportsRewritten", .nat reportsRedirected)]

end FormulaLedger
