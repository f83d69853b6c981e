import FormulaLedger.Store.Basic

/-!
Programs that work on a store. A program asks one request after the other and goes on with each
answer, so the store may fail at any request and others may come in between any two. `run` answers
all requests from one state.
-/

set_option autoImplicit false

namespace FormulaLedger

inductive Request
  | row (id : RowId)
  | latest (uniqueId : String)
  | version (uniqueId : String) (version : Nat)
  | latestRows
  | history (uniqueId : String)
  | insertRow (row : NewRow)
  | setLatest (id : RowId) (latest : Bool)
  | updateLatest (id : RowId) (draft : Draft)
  | deleteCalculation (uniqueId : String)
  | constant (uniqueId : String)
  | insertConstant (c : Constant)
  | updateConstant (uniqueId : String) (c : Constant)
  | deleteConstant (uniqueId : String)
  | report (name : String)
  | reportsListing (ids : List RowId)
  | insertReport (r : Report)
  | updateReport (r : Report)

abbrev Request.Answer : Request → Type
  | .row _ | .latest _ | .version _ _ => Option Calculation
  | .latestRows | .history _ => List Calculation
  | .insertRow _ => RowId
  | .setLatest _ _ => Bool
  | .deleteCalculation _ => Nat
  | .constant _ => Option Constant
  | .report _ => Option Report
  | .reportsListing _ => List Report
  | .updateLatest _ _ | .insertConstant _ | .updateConstant _ _ | .deleteConstant _
  | .insertReport _ | .updateReport _ => Unit

abbrev Request.Result (r : Request) : Type := Except StoreError r.Answer

def Store.change (s : Store) (next : Except StoreError Store) : Except StoreError Unit × Store :=
  match next with
  | .ok s' => (.ok (), s')
  | .error e => (.error e, s)

def Store.changeWith {α : Type} (s : Store) (next : Except StoreError (α × Store)) :
    Except StoreError α × Store :=
  match next with
  | .ok (a, s') => (.ok a, s')
  | .error e => (.error e, s)

def Store.answer (s : Store) : (r : Request) → r.Result × Store
  | .row id => (.ok (s.row? id), s)
  | .latest uniqueId => (.ok (s.latest? uniqueId), s)
  | .version uniqueId version => (.ok (s.version? uniqueId version), s)
  | .latestRows => (.ok s.latestRows, s)
  | .history uniqueId => (.ok (s.history uniqueId), s)
  | .insertRow row => s.changeWith (s.insertRow row)
  | .setLatest id latest => s.changeWith (s.setLatest id latest)
  | .updateLatest id draft => s.change (s.updateLatest id draft)
  | .deleteCalculation uniqueId => s.changeWith (.ok (s.deleteCalculation uniqueId))
  | .constant uniqueId => (.ok (s.constant? uniqueId), s)
  | .insertConstant c => s.change (s.insertConstant c)
  | .updateConstant uniqueId c => s.change (s.updateConstant uniqueId c)
  | .deleteConstant uniqueId => s.change (s.deleteConstant uniqueId)
  | .report name => (.ok (s.report? name), s)
  | .reportsListing ids => (.ok (s.reportsListing ids), s)
  | .insertReport r => s.change (s.insertReport r)
  | .updateReport r => s.change (s.updateReport r)

inductive Program (α : Type)
  | done (result : α)
  | ask (request : Request) (next : request.Result → Program α)

namespace Program

def bind {α β : Type} : Program α → (α → Program β) → Program β
  | .done a, f => f a
  | .ask r next, f => .ask r fun answer => (next answer).bind f

instance : Monad Program where
  pure := .done
  bind := bind

/-- Runs a program against anything that answers requests from a state. -/
def runWith {σ α : Type} (answer : σ → (r : Request) → r.Result × σ) : Program α → σ → α × σ
  | .done a, s => (a, s)
  | .ask r next, s =>
    let (result, s) := answer s r
    (next result).runWith answer s

def run {α : Type} (p : Program α) (s : Store) : α × Store := p.runWith Store.answer s

def request (r : Request) : Program r.Result := .ask r .done

end Program

end FormulaLedger
