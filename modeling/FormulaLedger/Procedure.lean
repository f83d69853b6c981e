import FormulaLedger.Error
import FormulaLedger.Store.Program

set_option autoImplicit false

namespace FormulaLedger

abbrev Procedure (α : Type) : Type := ExceptT LedgerError Program α

namespace Procedure

/-- Asks a request and takes its failure as it comes. -/
def attempt (r : Request) : Procedure r.Result := ExceptT.lift (Program.request r)

/-- Asks a request whose failure is the procedure's. -/
def ask (r : Request) : Procedure r.Answer := do
  match ← attempt r with
  | .ok answer => return answer
  | .error e => throw (.ofStore e)

def runOn {α : Type} (p : Procedure α) (s : Store) : Except LedgerError α × Store :=
  Program.run (ExceptT.run p) s

end Procedure

end FormulaLedger
