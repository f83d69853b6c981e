import FormulaLedger.Proofs.Store.Request

/-!
A store of keyed tables. What stands in a table says its own key too, and nothing but the operations
keeps the two alike. An operation changes the tables one after the other, and what it has changed
stays so when it fails.
-/

set_option autoImplicit false

namespace FormulaLedger

structure KeyedStore where
  lastId : RowId
  rows : Std.ExtTreeMap RowId Calculation
  /-- The index is only looked up, so its order is of no account. -/
  versions : Std.ExtTreeMap (String × Nat) RowId lexOrd.compare
  constants : Std.ExtTreeMap String Constant
  reports : List Report

namespace KeyedStore

def empty : KeyedStore := ⟨0, ∅, ∅, ∅, []⟩

/-- An operation that fails has come to some tables all the same. -/
abbrev Operation (α : Type) : Type := ExceptT StoreError (StateM KeyedStore) α

def row (id : RowId) : Operation (Option Calculation) := return (← get).rows[id]?

def scanRows (keep : Calculation → Bool) : Operation (List Calculation) :=
  return ((← get).rows.toList.map Prod.snd).filter keep

def latest (uniqueId : String) : Operation (Option Calculation) :=
  return ((← get).rows.toList.map Prod.snd).find? fun c => c.latest && c.uniqueId == uniqueId

def version (uniqueId : String) (version : Nat) : Operation (Option Calculation) := do
  let t ← get
  return t.versions[(uniqueId, version)]?.bind fun id => t.rows[id]?

def history (uniqueId : String) : Operation (List Calculation) := do
  let rows ← scanRows (·.uniqueId == uniqueId)
  return rows.mergeSort fun a b => a.version ≤ b.version

def insertRow (row : NewRow) : Operation RowId := do
  if (← get).versions.contains (row.uniqueId, row.version) then
    throw (.duplicateVersion row.uniqueId row.version)
  modify fun t => { t with lastId := t.lastId + 1 }
  let id := (← get).lastId
  modify fun t => { t with versions := t.versions.insert (row.uniqueId, row.version) id }
  modify fun t => { t with rows := t.rows.insert id (row.stored id) }
  return id

def setLatest (id : RowId) (latest : Bool) : Operation Bool := do
  match (← get).rows[id]? with
  | none => throw (.rowNotFound id)
  | some c =>
    modify fun t => { t with rows := t.rows.modify id fun c => { c with latest } }
    return c.latest

def updateLatest (id : RowId) (draft : Draft) : Operation Unit := do
  match (← get).rows[id]? with
  | none => throw (.rowNotFound id)
  | some c =>
    if !c.latest then throw (.rowNotLatest id)
    modify fun t => { t with rows := t.rows.modify id fun c => { c with draft } }

/-- The rows and the index are gone through apart from each other. -/
def deleteCalculation (uniqueId : String) : Operation Nat := do
  let before := (← get).rows.size
  modify fun t => { t with rows := t.rows.filter fun _ c => c.uniqueId != uniqueId }
  modify fun t => { t with versions := t.versions.filter fun key _ => key.1 != uniqueId }
  return before - (← get).rows.size

def constant (uniqueId : String) : Operation (Option Constant) :=
  return (← get).constants[uniqueId]?

def insertConstant (c : Constant) : Operation Unit := do
  if (← get).constants.contains c.uniqueId then throw (.duplicateConstant c.uniqueId)
  modify fun t => { t with constants := t.constants.insert c.uniqueId c }

/-- The old constant is taken out, and the new one put in under its own unique id. -/
def updateConstant (uniqueId : String) (c : Constant) : Operation Unit := do
  if !(← get).constants.contains uniqueId then throw (.constantNotFound uniqueId)
  if c.uniqueId ≠ uniqueId ∧ (← get).constants.contains c.uniqueId = true then
    throw (.duplicateConstant c.uniqueId)
  modify fun t => { t with constants := t.constants.erase uniqueId }
  modify fun t => { t with constants := t.constants.insert c.uniqueId c }

/-- Takes out what is there, and fails afterwards if there was nothing. -/
def deleteConstant (uniqueId : String) : Operation Unit := do
  let found := (← get).constants[uniqueId]?
  modify fun t => { t with constants := t.constants.erase uniqueId }
  if found.isNone then throw (.constantNotFound uniqueId)

def report (name : String) : Operation (Option Report) :=
  return (← get).reports.find? (·.name == name)

def scanReports (keep : Report → Bool) : Operation (List Report) :=
  return (← get).reports.filter keep

def insertReport (r : Report) : Operation Unit := do
  if (← get).reports.any (·.name == r.name) then throw (.duplicateReport r.name)
  modify fun t => { t with reports := t.reports ++ [r] }

/-- Writes over the first report of the name. -/
def updateReport (r : Report) : Operation Unit := do
  match (← get).reports.findIdx? (·.name == r.name) with
  | none => throw (.reportNotFound r.name)
  | some i => modify fun t => { t with reports := t.reports.set i r }

def operation : (r : Request) → Operation r.Answer
  | .row id => row id
  | .latest uniqueId => latest uniqueId
  | .version uniqueId v => version uniqueId v
  | .latestRows => scanRows (·.latest)
  | .history uniqueId => history uniqueId
  | .insertRow row => insertRow row
  | .setLatest id latest => setLatest id latest
  | .updateLatest id draft => updateLatest id draft
  | .deleteCalculation uniqueId => deleteCalculation uniqueId
  | .constant uniqueId => constant uniqueId
  | .insertConstant c => insertConstant c
  | .updateConstant uniqueId c => updateConstant uniqueId c
  | .deleteConstant uniqueId => deleteConstant uniqueId
  | .report name => report name
  | .reportsListing ids => scanReports fun r => ids.any r.rows.contains
  | .insertReport r => insertReport r
  | .updateReport r => updateReport r

def perform {α : Type} (t : KeyedStore) (op : Operation α) : Except StoreError α × KeyedStore :=
  op.run.run t

def answer (t : KeyedStore) (r : Request) : r.Result × KeyedStore := t.perform (operation r)

variable {α : Type} (t : KeyedStore)

theorem perform_get_bind (f : KeyedStore → Operation α) :
    t.perform (get >>= f) = t.perform (f t) := rfl

theorem perform_modify_bind (g : KeyedStore → KeyedStore) (f : Unit → Operation α) :
    t.perform (modify g >>= f) = (g t).perform (f ()) := rfl

theorem perform_ite (p : Prop) [Decidable p] (x y : Operation α) :
    t.perform (if p then x else y) = if p then t.perform x else t.perform y := by
  split <;> rfl

theorem perform_insertRow (row : NewRow) : t.perform (insertRow row) =
    if t.versions.contains (row.uniqueId, row.version) = true then
      (.error (.duplicateVersion row.uniqueId row.version), t)
    else (.ok (t.lastId + 1),
      { t with
        lastId := t.lastId + 1
        rows := t.rows.insert (t.lastId + 1) (row.stored (t.lastId + 1))
        versions := t.versions.insert (row.uniqueId, row.version) (t.lastId + 1) }) := by
  rw [insertRow, perform_get_bind, perform_ite]
  rfl

theorem perform_setLatest (id : RowId) (latest : Bool) : t.perform (setLatest id latest) =
    match t.rows[id]? with
    | none => (.error (.rowNotFound id), t)
    | some c => (.ok c.latest,
      { t with rows := t.rows.modify id fun c => { c with latest } }) := by
  rw [setLatest, perform_get_bind]
  cases t.rows[id]? with
  | none => rfl
  | some c => rfl

theorem perform_updateLatest (id : RowId) (draft : Draft) : t.perform (updateLatest id draft) =
    match t.rows[id]? with
    | none => (.error (.rowNotFound id), t)
    | some c =>
      if c.latest = true then
        (.ok (), { t with rows := t.rows.modify id fun c => { c with draft } })
      else (.error (.rowNotLatest id), t) := by
  rw [updateLatest, perform_get_bind]
  cases t.rows[id]? with
  | none => rfl
  | some c =>
    dsimp only
    rw [perform_ite]
    cases c.latest with
    | true => rfl
    | false => rfl

theorem perform_deleteCalculation (u : String) : t.perform (deleteCalculation u) =
    (.ok (t.rows.size - (t.rows.filter fun _ c => c.uniqueId != u).size),
      { t with
        rows := t.rows.filter fun _ c => c.uniqueId != u
        versions := t.versions.filter fun key _ => key.1 != u }) := rfl

theorem perform_insertConstant (c : Constant) : t.perform (insertConstant c) =
    if t.constants.contains c.uniqueId = true then (.error (.duplicateConstant c.uniqueId), t)
    else (.ok (), { t with constants := t.constants.insert c.uniqueId c }) := by
  rw [insertConstant, perform_get_bind, perform_ite]
  rfl

theorem perform_updateConstant (u : String) (c : Constant) : t.perform (updateConstant u c) =
    if (!t.constants.contains u) = true then (.error (.constantNotFound u), t)
    else if c.uniqueId ≠ u ∧ t.constants.contains c.uniqueId = true then
      (.error (.duplicateConstant c.uniqueId), t)
    else (.ok (), { t with constants := (t.constants.erase u).insert c.uniqueId c }) := by
  rw [updateConstant, perform_get_bind, perform_ite, perform_get_bind, perform_ite]
  rfl

theorem perform_deleteConstant (u : String) : t.perform (deleteConstant u) =
    if t.constants[u]?.isNone = true then
      (.error (.constantNotFound u), { t with constants := t.constants.erase u })
    else (.ok (), { t with constants := t.constants.erase u }) := by
  rw [deleteConstant, perform_get_bind, perform_modify_bind, perform_ite]
  rfl

theorem perform_insertReport (r : Report) : t.perform (insertReport r) =
    if t.reports.any (·.name == r.name) = true then (.error (.duplicateReport r.name), t)
    else (.ok (), { t with reports := t.reports ++ [r] }) := by
  rw [insertReport, perform_get_bind, perform_ite]
  rfl

theorem perform_updateReport (r : Report) : t.perform (updateReport r) =
    match t.reports.findIdx? (·.name == r.name) with
    | none => (.error (.reportNotFound r.name), t)
    | some i => (.ok (), { t with reports := t.reports.set i r }) := by
  rw [updateReport, perform_get_bind]
  cases t.reports.findIdx? (·.name == r.name) with
  | none => rfl
  | some i => rfl

theorem erase_eq_self {m : Std.ExtTreeMap String Constant} {u : String} (h : m[u]? = none) :
    m.erase u = m := by
  apply Std.ExtTreeMap.ext_getElem?
  intro v
  rw [Std.ExtTreeMap.getElem?_erase]
  split
  · next heq => rw [← Std.LawfulEqCmp.eq_of_compare heq, h]
  · rfl

/-- An operation that fails leaves the tables as they were. -/
theorem answer_of_error {r : Request} {e : StoreError} :
    (t.answer r).1 = .error e → (t.answer r).2 = t := by
  cases r with
  | insertRow row =>
    rw [answer, operation, perform_insertRow]
    split
    · exact fun _ => rfl
    · exact nofun
  | setLatest id latest =>
    rw [answer, operation, perform_setLatest]
    split
    · exact fun _ => rfl
    · exact nofun
  | updateLatest id draft =>
    rw [answer, operation, perform_updateLatest]
    split
    · exact fun _ => rfl
    · split
      · exact nofun
      · exact fun _ => rfl
  | deleteCalculation u => exact nofun
  | insertConstant c =>
    rw [answer, operation, perform_insertConstant]
    split
    · exact fun _ => rfl
    · exact nofun
  | updateConstant u c =>
    rw [answer, operation, perform_updateConstant]
    split
    · exact fun _ => rfl
    · split
      · exact fun _ => rfl
      · exact nofun
  | deleteConstant u =>
    rw [answer, operation, perform_deleteConstant]
    split
    · next hnone =>
      rw [erase_eq_self (Option.isNone_iff_eq_none.1 hnone)]
      exact fun _ => rfl
    · exact nofun
  | insertReport r =>
    rw [answer, operation, perform_insertReport]
    split
    · exact fun _ => rfl
    · exact nofun
  | updateReport r =>
    rw [answer, operation, perform_updateReport]
    split
    · exact fun _ => rfl
    · exact nofun
  | _ => exact nofun

end KeyedStore

end FormulaLedger
