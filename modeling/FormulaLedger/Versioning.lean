import FormulaLedger.Formula.Parser
import FormulaLedger.Procedure

/-!
Changing the ledger. A calculation that nothing uses is edited in place. One that is referred to or
listed by a report gets a new version: its latest row is frozen, a row with the next version is
inserted, and reports are pointed at the new row. Nothing is deleted, and no unit or unique id is
changed, while a reference would be left behind.
-/

set_option autoImplicit false

namespace FormulaLedger

/-- What stands for a pointer when only the form of an expression is checked. -/
def Pointer.placeholder (p : Pointer) : String :=
  match p.target with
  | .literal text => text
  | _ => "(0)"

/-- The text whose form is checked: a space follows every pointer. -/
def Draft.outline (d : Draft) : String :=
  String.join (d.expression.map fun p => p.placeholder ++ " ")

/-- A draft can be stored when its unique id is not blank, its expression is not empty and does not
refer to the calculation itself, and the expression is a formula once references are numbers. -/
def Draft.check (d : Draft) (uniqueId : String) : Except ExpressionFault Unit :=
  if Text.isBlankText uniqueId then .error .blankId
  else if d.expression.isEmpty then .error .empty
  else if d.expression.any fun p => p.target == .calculation uniqueId then
    .error (.selfReference uniqueId)
  else
    match Formula.parse d.outline with
    | .ok _ => .ok ()
    | .error e => .error (.malformed e)

inductive EditOutcome
  | inPlace (id : RowId)
  | versioned (previous current : RowId) (version reportsRedirected : Nat)
  deriving DecidableEq, Repr

def EditOutcome.rowId : EditOutcome → RowId
  | .inPlace id => id
  | .versioned _ current _ _ => current

namespace Versioning

open Procedure

def validate (uniqueId : String) (draft : Draft) : Procedure Unit :=
  match draft.check uniqueId with
  | .ok () => return ()
  | .error fault => throw (.invalid (.expression fault))

/-- The latest calculations that refer to an entity, in order. A calculation's references to itself
do not count. -/
def expressionReferrers (kind : EntityKind) (uniqueId : String) : Procedure (List Referrer) := do
  let rows ← ask .latestRows
  let found := (ReferenceGraph.ofCalculations rows).referrers ⟨kind, uniqueId⟩
  return (found.filter fun x => kind != .calculation || x != uniqueId).map .calculation

def reportReferrers (uniqueId : String) : Procedure (List Referrer) := do
  let rows ← ask (.history uniqueId)
  if rows.isEmpty then return []
  let reports ← ask (.reportsListing (rows.map (·.id)))
  return reports.map fun r => .report r.name

def referrers (kind : EntityKind) (uniqueId : String) : Procedure (List Referrer) := do
  let calculations ← expressionReferrers kind uniqueId
  match kind with
  | .constant => return calculations
  | .calculation =>
    let reports ← reportReferrers uniqueId
    return calculations ++ reports

def refuseIfReferenced (kind : EntityKind) (uniqueId : String) (found : List Referrer) :
    Procedure Unit :=
  if found.isEmpty then return () else throw (.referenced kind uniqueId found)

def assertDeletable (kind : EntityKind) (uniqueId : String) : Procedure Unit := do
  let found ← referrers kind uniqueId
  refuseIfReferenced kind uniqueId found

def latest (uniqueId : String) : Procedure Calculation := do
  match ← ask (.latest uniqueId) with
  | some c => return c
  | none => throw (.calculationNotFound uniqueId)

/-- The latest row, to be edited. Rows without a latest one among them are being given a new version
by someone else. -/
def latestForEdit (uniqueId : String) : Procedure Calculation := do
  match ← ask (.latest uniqueId) with
  | some c => return c
  | none =>
    let rows ← ask (.history uniqueId)
    match rows.getLast? with
    | some newest => throw (.conflict uniqueId (newest.version + 1))
    | none => throw (.calculationNotFound uniqueId)

/-- The identity may change only while nothing refers to the entity. -/
def assertIdentityEditable (kind : EntityKind) (uniqueId : String) (identity : Identity) :
    Procedure Unit := do
  let current ← match kind with
    | .constant => do
      match ← ask (.constant uniqueId) with
      | some c => pure c.identity
      | none => throw (.constantNotFound uniqueId)
    | .calculation => do
      let c ← latest uniqueId
      pure c.identity
  if (current.difference? identity).isNone then return ()
  let found ← expressionReferrers kind uniqueId
  refuseIfReferenced kind uniqueId found

def createCalculation (uniqueId : String) (draft : Draft) : Procedure RowId := do
  validate uniqueId draft
  let rows ← ask (.history uniqueId)
  if !rows.isEmpty then throw (.alreadyExists .calculation uniqueId)
  ask (.insertRow (.first uniqueId draft))

/-- Makes a frozen row the latest again, unless another row has become that. Nothing is done about a
failure. -/
def restoreLatest (frozen : Calculation) : Procedure Unit := do
  match ← attempt (.latest frozen.uniqueId) with
  | .ok none =>
    let _ ← attempt (.setLatest frozen.id true)
    return ()
  | _ => return ()

/-- Stores the version after a frozen row, which is restored if that fails. -/
def insertNext (frozen : Calculation) (draft : Draft) : Procedure RowId := do
  match ← attempt (.insertRow ⟨frozen.uniqueId, frozen.version + 1, true, draft⟩) with
  | .ok id => return id
  | .error e =>
    restoreLatest frozen
    throw (.ofStore e)

/-- Stores the version after `current`, a row that was read before. The row must still be the latest
and there must be no later version. It is frozen before the new row is inserted. -/
def bumpFrom (current : Calculation) (draft : Draft) : Procedure RowId := do
  let reread ← ask (.row current.id)
  if !reread.any (·.latest) then throw (.stale current.uniqueId current.id)
  let next := current.version + 1
  let taken ← ask (.version current.uniqueId next)
  if taken.isSome then throw (.conflict current.uniqueId next)
  let wasLatest ← ask (.setLatest current.id false)
  if !wasLatest then throw (.conflict current.uniqueId next)
  insertNext current draft

def bumpVersion (uniqueId : String) (draft : Draft) : Procedure RowId := do
  validate uniqueId draft
  let current ← latestForEdit uniqueId
  bumpFrom current draft

def redirectEach (old new : RowId) : List Report → Procedure Nat
  | [] => return 0
  | r :: rs => do
    if r.rows.contains old then
      ask (.updateReport (r.replace old new))
      let count ← redirectEach old new rs
      return count + 1
    else redirectEach old new rs

def redirectReports (old new : RowId) : Procedure Nat := do
  if old = new then return 0
  let reports ← ask (.reportsListing [old])
  redirectEach old new reports

/-- Whether nothing uses a calculation, when `found` are the calculations that refer to it. -/
def isUnused (uniqueId : String) (found : List Referrer) : Procedure Bool := do
  if found.isEmpty then
    let reports ← reportReferrers uniqueId
    return reports.isEmpty
  else return false

def editInPlace (current : Calculation) (draft : Draft) : Procedure EditOutcome := do
  match ← attempt (.updateLatest current.id draft) with
  | .ok () => return .inPlace current.id
  | .error (.rowNotLatest id) => throw (.stale current.uniqueId id)
  | .error e => throw (.ofStore e)

def editAsVersion (current : Calculation) (draft : Draft) : Procedure EditOutcome := do
  let new ← bumpFrom current draft
  let count ← redirectReports current.id new
  return .versioned current.id new (current.version + 1) count

/-- Changes what a calculation says: in place when nothing uses it, and else as a new version. Its
unit may not change while another calculation refers to it. -/
def editCalculation (uniqueId : String) (draft : Draft) : Procedure EditOutcome := do
  validate uniqueId draft
  let current ← latestForEdit uniqueId
  let found ← expressionReferrers .calculation uniqueId
  if (current.identity.difference? ⟨uniqueId, draft.unit⟩).isSome && !found.isEmpty then
    throw (.referenced .calculation uniqueId found)
  if ← isUnused uniqueId found then editInPlace current draft else editAsVersion current draft

def deleteCalculation (uniqueId : String) : Procedure Nat := do
  let _ ← latest uniqueId
  assertDeletable .calculation uniqueId
  ask (.deleteCalculation uniqueId)

def history (uniqueId : String) : Procedure (List Calculation) := do
  let rows ← ask (.history uniqueId)
  if rows.isEmpty then throw (.calculationNotFound uniqueId)
  return rows

def createConstant (c : Constant) : Procedure Unit := do
  if Text.isBlankText c.uniqueId then throw (.invalid (.expression .blankId))
  ask (.insertConstant c)

/-- Replaces a constant. Its unique id and unit may not change while something refers to it. -/
def editConstant (uniqueId : String) (c : Constant) : Procedure Unit := do
  assertIdentityEditable .constant uniqueId c.identity
  ask (.updateConstant uniqueId c)

def deleteConstant (uniqueId : String) : Procedure Unit := do
  let found ← ask (.constant uniqueId)
  if found.isNone then throw (.constantNotFound uniqueId)
  assertDeletable .constant uniqueId
  ask (.deleteConstant uniqueId)

end Versioning

end FormulaLedger
