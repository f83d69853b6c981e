import FormulaLedger.Json.Record
import FormulaLedger.Pointer.Record
import FormulaLedger.Resolution.Basic

/-!
How the parts of a ledger stand in a document. A field with a default may be missing, and only what
may be absent may be null.
-/

set_option autoImplicit false

namespace FormulaLedger

namespace PointerRecord

def fieldNames : List String :=
  ["type", "text", "payload", "value", "uniqueId", "materialId", "row", "col", "function",
    "criteria"]

def ofJson? (json : Json) : Option PointerRecord := do
  let r ← json.record? fieldNames
  let textField (name : String) : Option (Option String) :=
    r.defaulted name none (Json.nullable? Json.text?)
  let indexField (name : String) : Option (Option Nat) :=
    r.defaulted name none (Json.nullable? (Json.natOfBits? 64))
  return {
    kind := ← r.required "type" Json.text?
    text := ← r.defaulted "text" "" Json.text?
    payload := ← r.defaulted "payload" .empty Json.textTable?
    value := ← textField "value"
    uniqueId := ← textField "uniqueId"
    materialId := ← textField "materialId"
    row := ← indexField "row"
    column := ← indexField "col"
    function := ← textField "function"
    criteria := ← textField "criteria" }

/-- An empty text, an empty payload and absent fields are left out. -/
def toJson (r : PointerRecord) : Json :=
  let payload := Json.record (r.payload.entries.map fun (key, value) => (key, .str value))
  .record (
    [("type", .str r.kind)] ++
    Json.optional "text" (if r.text.isEmpty then none else some (.str r.text)) ++
    Json.optional "payload" (if r.payload.isEmpty then none else some payload) ++
    Json.optional "value" (r.value.map .str) ++
    Json.optional "uniqueId" (r.uniqueId.map .str) ++
    Json.optional "materialId" (r.materialId.map .str) ++
    Json.optional "row" (r.row.map .nat) ++
    Json.optional "col" (r.column.map .nat) ++
    Json.optional "function" (r.function.map .str) ++
    Json.optional "criteria" (r.criteria.map .str))

end PointerRecord

def Sample.ofJson? (json : Json) : Option Sample := do
  let r ← json.record? ["location", "value"]
  return ⟨← r.required "location" Json.text?, ← r.required "value" Json.float?⟩

def Constant.ofJson? (json : Json) : Option Constant := do
  let r ← json.record? ["uniqueId", "year", "unit", "remarks", "samples"]
  return {
    uniqueId := ← r.required "uniqueId" Json.text?
    year := ← r.required "year" Json.int32?
    unit := ← r.required "unit" Json.text?
    remarks := ← r.defaulted "remarks" none (Json.nullable? Json.text?)
    samples := ← r.defaulted "samples" [] (Json.list? Sample.ofJson?) }

def Identity.ofJson? (json : Json) : Option Identity := do
  let r ← json.record? ["uniqueId", "unit"]
  return ⟨← r.required "uniqueId" Json.text?, ← r.required "unit" Json.text?⟩

namespace Report

def ofJson? (json : Json) : Option Report := do
  let r ← json.record? ["name", "calculations"]
  return {
    name := ← r.required "name" Json.text?
    rows := ← r.defaulted "calculations" [] (Json.list? (Json.natOfBits? 64)) }

def toJson (report : Report) : Json :=
  .record [("name", .str report.name), ("calculations", .array (report.rows.map .nat))]

end Report

def Period.ofJson? (json : Json) : Option Period := do
  let text ← json.text?
  (Period.parse text).toOption

namespace Company

def ofJson? (json : Json) : Option Company := do
  let r ← json.record? ["companyId", "period", "location"]
  return {
    id := ← r.required "companyId" Json.text?
    period := ← r.required "period" Period.ofJson?
    location := ← r.required "location" Json.text? }

def toJson (c : Company) : Json :=
  .record [("companyId", .str c.id), ("period", .str c.period.text), ("location", .str c.location)]

end Company

namespace Options

def ofJson? (json : Json) : Option Options := do
  let r ← json.sharedRecord? 1
    ["defaultLocation", "fallbackToDefault", "includeNestedReasons", "skipMissingReportRows"]
  return {
    defaultLocation := ← r.defaulted "defaultLocation" standard.defaultLocation Json.text?
    fallbackToDefault := ← r.defaulted "fallbackToDefault" standard.fallbackToDefault Json.bool?
    includeNestedReasons :=
      ← r.defaulted "includeNestedReasons" standard.includeNestedReasons Json.bool?
    skipMissingRows := ← r.defaulted "skipMissingReportRows" standard.skipMissingRows Json.bool? }

def toJson (o : Options) : Json :=
  .record [
    ("defaultLocation", .str o.defaultLocation),
    ("fallbackToDefault", .bool o.fallbackToDefault),
    ("includeNestedReasons", .bool o.includeNestedReasons),
    ("skipMissingReportRows", .bool o.skipMissingRows)]

end Options

def Cell.ofJson? : Json → Option Cell
  | .null => some .empty
  | .number n => n.toFloat?.map .number
  | .string s => s.map .text
  | _ => none

end FormulaLedger
