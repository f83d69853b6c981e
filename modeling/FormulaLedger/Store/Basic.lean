import FormulaLedger.Calculation

/-!
The store: the rows of all calculations in the order of their ids, an index of their versions, the
constants and the reports. Each operation is one step, and one that fails changes nothing.
-/

set_option autoImplicit false

namespace FormulaLedger

inductive StoreError
  | duplicateVersion (uniqueId : String) (version : Nat)
  | duplicateConstant (uniqueId : String)
  | duplicateReport (name : String)
  | rowNotFound (id : RowId)
  | rowNotLatest (id : RowId)
  | constantNotFound (uniqueId : String)
  | reportNotFound (name : String)
  | unavailable (cause : String)
  deriving DecidableEq, Repr

def StoreError.message : StoreError → String
  | .duplicateVersion uniqueId version =>
    "Calculation '" ++ uniqueId ++ "' already has version " ++ toString version
  | .duplicateConstant uniqueId => "Constant '" ++ uniqueId ++ "' already exists"
  | .duplicateReport name => "Report '" ++ name ++ "' already exists"
  | .rowNotFound id => "Calculation row " ++ rowName id ++ " not found"
  | .rowNotLatest id => "Calculation row " ++ rowName id ++ " is not the latest revision"
  | .constantNotFound uniqueId => "Constant '" ++ uniqueId ++ "' not found"
  | .reportNotFound name => "Report '" ++ name ++ "' not found"
  | .unavailable cause => "Store unavailable: " ++ cause

structure Store where
  /-- The last id that was given to a row. Ids of deleted rows are not given again. -/
  lastId : RowId
  rows : List Calculation
  versions : List ((String × Nat) × RowId)
  constants : List Constant
  reports : List Report
  deriving DecidableEq, Repr

namespace Store

def empty : Store := ⟨0, [], [], [], []⟩

def row? (s : Store) (id : RowId) : Option Calculation := s.rows.find? (·.id == id)

def latest? (s : Store) (uniqueId : String) : Option Calculation :=
  s.rows.find? fun c => c.latest && c.uniqueId == uniqueId

def version? (s : Store) (uniqueId : String) (version : Nat) : Option Calculation :=
  (s.versions.lookup (uniqueId, version)).bind s.row?

def latestRows (s : Store) : List Calculation := s.rows.filter (·.latest)

def history (s : Store) (uniqueId : String) : List Calculation :=
  (s.rows.filter (·.uniqueId == uniqueId)).mergeSort fun a b => a.version ≤ b.version

def modifyRow (s : Store) (id : RowId) (f : Calculation → Calculation) : Store :=
  { s with rows := s.rows.map fun c => if c.id = id then f c else c }

/-- A version of a calculation is stored once. -/
def insertRow (s : Store) (row : NewRow) : Except StoreError (RowId × Store) :=
  if (s.versions.lookup (row.uniqueId, row.version)).isSome then
    .error (.duplicateVersion row.uniqueId row.version)
  else
    let id := s.lastId + 1
    .ok (id,
      { s with
        lastId := id
        rows := s.rows ++ [⟨id, row.uniqueId, row.version, row.latest, row.draft⟩]
        versions := s.versions ++ [((row.uniqueId, row.version), id)] })

/-- Sets the flag of a row and returns what it was. -/
def setLatest (s : Store) (id : RowId) (latest : Bool) : Except StoreError (Bool × Store) :=
  match s.row? id with
  | none => .error (.rowNotFound id)
  | some c => .ok (c.latest, s.modifyRow id fun c => { c with latest })

/-- Replaces what a row says while it is the latest. -/
def updateLatest (s : Store) (id : RowId) (draft : Draft) : Except StoreError Store :=
  match s.row? id with
  | none => .error (.rowNotFound id)
  | some c =>
    if c.latest then .ok (s.modifyRow id fun c => { c with draft }) else .error (.rowNotLatest id)

def deleteCalculation (s : Store) (uniqueId : String) : Nat × Store :=
  (s.rows.countP (·.uniqueId == uniqueId),
    { s with
      rows := s.rows.filter (·.uniqueId != uniqueId)
      versions := s.versions.filter (·.1.1 != uniqueId) })

def constant? (s : Store) (uniqueId : String) : Option Constant :=
  s.constants.find? (·.uniqueId == uniqueId)

def insertConstant (s : Store) (c : Constant) : Except StoreError Store :=
  if (s.constant? c.uniqueId).isSome then .error (.duplicateConstant c.uniqueId)
  else .ok { s with constants := s.constants ++ [c] }

/-- Replaces a constant, which may give it another unique id. -/
def updateConstant (s : Store) (uniqueId : String) (c : Constant) : Except StoreError Store :=
  if (s.constant? uniqueId).isNone then .error (.constantNotFound uniqueId)
  else if c.uniqueId ≠ uniqueId ∧ (s.constant? c.uniqueId).isSome then
    .error (.duplicateConstant c.uniqueId)
  else
    .ok { s with
      constants := s.constants.map fun old => if old.uniqueId = uniqueId then c else old }

def deleteConstant (s : Store) (uniqueId : String) : Except StoreError Store :=
  if (s.constant? uniqueId).isNone then .error (.constantNotFound uniqueId)
  else .ok { s with constants := s.constants.filter (·.uniqueId != uniqueId) }

def report? (s : Store) (name : String) : Option Report := s.reports.find? (·.name == name)

def reportsListing (s : Store) (ids : List RowId) : List Report :=
  s.reports.filter fun r => ids.any r.rows.contains

def insertReport (s : Store) (r : Report) : Except StoreError Store :=
  if (s.report? r.name).isSome then .error (.duplicateReport r.name)
  else .ok { s with reports := s.reports ++ [r] }

def updateReport (s : Store) (r : Report) : Except StoreError Store :=
  if (s.report? r.name).isNone then .error (.reportNotFound r.name)
  else .ok { s with reports := s.reports.map fun old => if old.name = r.name then r else old }

end Store

end FormulaLedger
