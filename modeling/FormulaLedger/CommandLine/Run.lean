import FormulaLedger.CommandLine.Arguments
import FormulaLedger.CommandLine.Help
import FormulaLedger.Document.Result
import FormulaLedger.Json.Writer
import FormulaLedger.Snapshot

set_option autoImplicit false

namespace FormulaLedger.CommandLine

/-- The files by their paths: what each holds, or why it cannot be read. -/
abbrev Files := String → Except String String

/-- What could not be done, and what caused it, the outermost cause first. -/
structure Failure where
  context : String
  causes : List String
  /-- Whether the last cause is that a text is no document of its kind. -/
  inDocument : Bool
  deriving DecidableEq, Repr

def indented (indent : Nat) (cause : String) : String :=
  cause.replace "\n" ("\n" ++ "".pushn ' ' indent)

namespace Failure

def text (f : Failure) : String :=
  let causes := match f.causes with
    | [] => []
    | [cause] => ["    " ++ indented 4 cause]
    | causes => causes.zipIdx.map fun (cause, number) =>
      "".pushn ' ' (5 - (toString number).length) ++ toString number ++ ": " ++ indented 7 cause
  "Error: " ++ f.context ++
    (if causes.isEmpty then "" else "\n\nCaused by:\n" ++ "\n".intercalate causes) ++ "\n"

end Failure

inductive Outcome
  | shown (text : String)
  | misused
  | done (remark : String) (result : Json)
  | failed (f : Failure)

namespace Outcome

def exitCode : Outcome → Nat
  | .shown _ | .done _ _ => 0
  | .failed _ => 1
  | .misused => 2

def output : Outcome → String
  | .shown text => text
  | .done _ result => result.pretty ++ "\n"
  | .misused | .failed _ => ""

def message : Outcome → String
  | .shown _ => ""
  | .done remark _ => remark
  | .failed f => f.text
  | .misused => "Usage: " ++ Topic.general.usage ++ "\n\nFor more information, try '--help'.\n"

end Outcome

def malformed : String := "unexpected or missing text"

def readDocument {α : Type} (files : Files) (context path : String) (read? : String → Option α) :
    Except Failure α :=
  match files path with
  | .error reason => .error ⟨context, ["I/O error: " ++ reason, reason], false⟩
  | .ok text =>
    match read? text with
    | some a => .ok a
    | none => .error ⟨context, ["JSON error: " ++ malformed, malformed], true⟩

def quoted (text : String) : String := "'" ++ text ++ "'"

def readStores (files : Files) (path : String) : Except Failure (Store × Materials) := do
  let snapshot ← readDocument files ("Failed to load snapshot " ++ quoted path) path Snapshot.read?
  match snapshot.build with
  | .ok stores => return stores
  | .error e => throw ⟨"Snapshot contains invalid data", e.chain, false⟩

def readOptions (files : Files) : Option String → Except Failure Options
  | none => .ok .standard
  | some path =>
    readDocument files ("Failed to load config " ++ quoted path) path fun text =>
      (Json.read? text).bind Options.ofJson?

def readWording (files : Files) : Option String → Except Failure Wording
  | none => .ok .plain
  | some path =>
    match files path with
    | .error reason => .error ⟨"Failed to read locale " ++ quoted path, [reason], false⟩
    | .ok text =>
      match (Json.read? text).bind Json.textTable? with
      | some table => .ok (.ofTable table)
      | none => .error ⟨"Invalid locale " ++ quoted path, [malformed], true⟩

def readCompany (c : CompanyTexts) : Except Failure Company :=
  match Period.parse c.period with
  | .ok period => .ok ⟨c.id, period, c.location⟩
  | .error text =>
    .error ⟨"Invalid period " ++ quoted c.period, (InputError.period text).chain, false⟩

def orFail {α : Type} (context : String) : Except LedgerError α → Except Failure α
  | .ok a => .ok a
  | .error e => .error ⟨context, e.chain, false⟩

def remarkOn (s : ReportStats) : String :=
  "Evaluated " ++ toString s.evaluated ++ " rows (" ++ toString s.errors ++ " errors, " ++
    toString s.withReasons ++ " with reasons, " ++ toString s.missing ++ " missing)\n"

def revisionJson (c : Calculation) : Json :=
  .record [
    ("id", .nat c.id),
    ("version", .nat c.version),
    ("latest", .bool c.latest),
    ("unit", .str c.unit),
    ("expression", .str c.displayExpression)]

def deletionJson (kind : EntityKind) (uniqueId : String) (referrers : List Referrer) : Json :=
  .record [
    ("kind", .str kind.name),
    ("uniqueId", .str uniqueId),
    ("deletable", .bool referrers.isEmpty),
    ("referrers", .array (referrers.map Referrer.toJson))]

structure Ledger where
  store : Store
  materials : Materials
  options : Options
  wording : Wording

namespace Ledger

def read (files : Files) (order : Order) : Except Failure Ledger := do
  let (store, materials) ← readStores files order.snapshot
  let options ← readOptions files order.config
  let wording ← readWording files order.locale
  return ⟨store, materials, options, wording⟩

def perform (l : Ledger) : Task → Except Failure (String × Json)
  | .evaluate uniqueId c => do
    let company ← readCompany c
    let e ← orFail ("Failed to evaluate " ++ quoted uniqueId)
      (l.store.evaluateLatest ⟨l.materials, company, l.options⟩ uniqueId)
    return ("", e.toJson l.wording)
  | .report name c => do
    let company ← readCompany c
    let e ← orFail ("Failed to evaluate report " ++ quoted name)
      (l.store.evaluateReport ⟨l.materials, company, l.options⟩ name)
    return (remarkOn e.stats, e.toJson l.wording)
  | .checkDelete kind uniqueId => do
    let referrers ← orFail ("Failed to look up references to " ++ quoted uniqueId)
      (Procedure.runOn (Versioning.referrers kind uniqueId) l.store).1
    return ("", deletionJson kind uniqueId referrers)
  | .history uniqueId => do
    let revisions ← orFail ("Failed to read history of " ++ quoted uniqueId)
      (Procedure.runOn (Versioning.history uniqueId) l.store).1
    return ("", .array (revisions.map revisionJson))

end Ledger

def Order.paths (order : Order) : List String :=
  order.snapshot :: order.config.toList ++ order.locale.toList

def Order.carryOut (files : Files) (order : Order) : Outcome :=
  match Ledger.read files order >>= fun l => l.perform order.task with
  | .ok (remark, result) => .done remark result
  | .error f => .failed f

def Stop.outcome : Stop → Outcome
  | .misused => .misused
  | .help topic => .shown topic.text
  | .version => .shown versionText

def run (files : Files) (arguments : List String) : Outcome :=
  match Order.ofArguments arguments with
  | .ok order => order.carryOut files
  | .error stop => stop.outcome

end FormulaLedger.CommandLine
