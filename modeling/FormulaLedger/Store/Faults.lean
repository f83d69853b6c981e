import FormulaLedger.Store.Program

/-!
A store with faults. Arms are set for kinds of requests: an arm lets some requests of its kind pass
and then acts on some more, by failing in the store's place, by freezing the row that is asked for,
or by letting another writer come first.
-/

set_option autoImplicit false

namespace FormulaLedger

inductive RequestKind
  | row
  | latest
  | version
  | scanRows
  | insertRow
  | setLatest
  | updateLatest
  | deleteCalculation
  | constant
  | insertConstant
  | updateConstant
  | deleteConstant
  | report
  | scanReports
  | insertReport
  | updateReport
  deriving DecidableEq, Repr

def Request.kind : Request → RequestKind
  | .row _ => .row
  | .latest _ => .latest
  | .version _ _ => .version
  | .latestRows | .history _ => .scanRows
  | .insertRow _ => .insertRow
  | .setLatest _ _ => .setLatest
  | .updateLatest _ _ => .updateLatest
  | .deleteCalculation _ => .deleteCalculation
  | .constant _ => .constant
  | .insertConstant _ => .insertConstant
  | .updateConstant _ _ => .updateConstant
  | .deleteConstant _ => .deleteConstant
  | .report _ => .report
  | .reportsListing _ => .scanReports
  | .insertReport _ => .insertReport
  | .updateReport _ => .updateReport

def Request.rowId? : Request → Option RowId
  | .row id | .setLatest id _ | .updateLatest id _ => some id
  | _ => none

inductive FaultAction
  /-- The request fails without reaching the store. -/
  | fail (e : StoreError)
  /-- The row asked for is not the latest any more when the request comes. -/
  | freeze
  /-- Another writer runs a program for the calculation of the row asked for. -/
  | overtake
  /-- Another writer stores the same version first. -/
  | rival (latest : Bool) (draft : Draft)
  deriving DecidableEq, Repr

/-- The first `skip` requests of a kind pass, and the next `times` are acted on. -/
structure Arm where
  kind : RequestKind
  skip : Nat
  times : Nat
  action : FaultAction
  deriving DecidableEq, Repr

/-- What the first arm for a kind says to a request, and the arms that are left. -/
def consult (kind : RequestKind) : List Arm → Option FaultAction × List Arm
  | [] => (none, [])
  | arm :: arms =>
    if arm.kind = kind then
      if 0 < arm.skip then (none, { arm with skip := arm.skip - 1 } :: arms)
      else if 1 < arm.times then (some arm.action, { arm with times := arm.times - 1 } :: arms)
      else (some arm.action, arms)
    else
      let (action, arms) := consult kind arms
      (action, arm :: arms)

structure ArmedStore where
  store : Store
  arms : List Arm
  deriving DecidableEq, Repr

namespace ArmedStore

def pass (s : ArmedStore) (r : Request) : r.Result × ArmedStore :=
  let (result, store) := s.store.answer r
  (result, { s with store })

def rowAsked (s : ArmedStore) (r : Request) : Except StoreError (Option Calculation) :=
  match r.rowId? with
  | none => .ok none
  | some id =>
    match s.store.row? id with
    | some c => .ok (some c)
    | none => .error (.rowNotFound id)

def frozen (s : ArmedStore) (id : RowId) : ArmedStore :=
  { s with store := s.store.modifyRow id fun c => { c with latest := false } }

def rivalled (s : ArmedStore) (latest : Bool) (draft : Draft) (r : Request) : ArmedStore :=
  match r with
  | .insertRow row =>
    match s.store.insertRow { row with latest, draft } with
    | .ok (_, store) => { s with store }
    | .error _ => s
  | _ => s

/-- Answers a request, where `overtaking` is the program of the other writer for a unique id. It
ends with the text of its failure, if it fails, and then the request fails too. An arm is used up
before it acts, so `budget` arms can act inside one another. -/
def answerWithin (overtaking : String → Program (Option String)) :
    Nat → ArmedStore → (r : Request) → r.Result × ArmedStore
  | budget, s, r =>
    let (action, arms) := consult r.kind s.arms
    let s := { s with arms }
    match action with
    | none => s.pass r
    | some (.fail e) => (.error e, s)
    | some (.rival latest draft) => (s.rivalled latest draft r).pass r
    | some .freeze =>
      match s.rowAsked r with
      | .error e => (.error e, s)
      | .ok none => s.pass r
      | .ok (some c) => (s.frozen c.id).pass r
    | some .overtake =>
      match budget, s.rowAsked r with
      | _, .error e => (.error e, s)
      | budget + 1, .ok (some c) =>
        match (overtaking c.uniqueId).runWith (answerWithin overtaking budget) s with
        | (none, s) => s.pass r
        | (some failure, s) => (.error (.unavailable failure), s)
      | _, .ok _ => s.pass r

def answer (overtaking : String → Program (Option String)) (s : ArmedStore) (r : Request) :
    r.Result × ArmedStore :=
  s.answerWithin overtaking (s.arms.foldl (fun total arm => total + max arm.times 1) 0) r

end ArmedStore

end FormulaLedger
