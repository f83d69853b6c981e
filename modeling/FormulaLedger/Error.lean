import FormulaLedger.Formula.Token
import FormulaLedger.Pointer.Record
import FormulaLedger.References
import FormulaLedger.Store.Basic

set_option autoImplicit false

namespace FormulaLedger

inductive ExpressionFault
  | blankId
  | empty
  | selfReference (uniqueId : String)
  | malformed (e : Formula.ParseError)
  deriving DecidableEq, Repr

def ExpressionFault.message : ExpressionFault → String
  | .blankId => "unique id is empty"
  | .empty => "expression is empty"
  | .selfReference uniqueId => "calculation '" ++ uniqueId ++ "' references itself"
  | .malformed e => e.message

inductive InputError
  | pointer (e : PointerError)
  | pointerAt (index : Nat) (e : PointerError)
  | expression (fault : ExpressionFault)
  | period (text : String)
  deriving DecidableEq, Repr

namespace InputError

def message : InputError → String
  | .pointer e => e.message
  | .pointerAt index e => "Pointer " ++ toString index ++ ": " ++ e.message
  | .expression fault => "Invalid expression: " ++ fault.message
  | .period text => "Invalid financial period: " ++ text

/-- The error and those that caused it, the outermost first. -/
def chain : InputError → List String
  | .pointerAt index e => [(InputError.pointerAt index e).message, e.message]
  | e => [e.message]

end InputError

inductive Referrer
  | calculation (uniqueId : String)
  | report (name : String)
  deriving DecidableEq, Repr

def Referrer.text : Referrer → String
  | .calculation uniqueId => "calculation '" ++ uniqueId ++ "'"
  | .report name => "report '" ++ name ++ "'"

inductive LedgerError
  | invalid (e : InputError)
  | referenced (kind : EntityKind) (uniqueId : String) (referrers : List Referrer)
  | conflict (uniqueId : String) (version : Nat)
  | stale (uniqueId : String) (id : RowId)
  | calculationNotFound (uniqueId : String)
  | constantNotFound (uniqueId : String)
  | reportNotFound (name : String)
  | alreadyExists (kind : EntityKind) (uniqueId : String)
  | store (e : StoreError)
  deriving DecidableEq, Repr

namespace LedgerError

def message : LedgerError → String
  | .invalid e => "Validation error: " ++ e.message
  | .referenced kind uniqueId referrers =>
    kind.name ++ " '" ++ uniqueId ++ "' is referenced by " ++
      ", ".intercalate (referrers.map Referrer.text)
  | .conflict uniqueId version =>
    "Concurrent edit of calculation '" ++ uniqueId ++ "': version " ++ toString version ++
      " already exists"
  | .stale uniqueId id =>
    "Calculation '" ++ uniqueId ++ "' row " ++ rowName id ++ " is no longer the latest revision"
  | .calculationNotFound uniqueId => "Calculation not found: " ++ uniqueId
  | .constantNotFound uniqueId => "Constant not found: " ++ uniqueId
  | .reportNotFound name => "Report not found: " ++ name
  | .alreadyExists kind uniqueId => kind.name ++ " '" ++ uniqueId ++ "' already exists"
  | .store e => "Store error: " ++ e.message

def chain : LedgerError → List String
  | .invalid e => (LedgerError.invalid e).message :: e.chain
  | e => [e.message]

/-- Whether the whole operation may succeed when it is tried again. -/
def isRetryable : LedgerError → Bool
  | .conflict _ _ | .stale _ _ => true
  | _ => false

/-- A version that is there already is a lost race, and an entity that is missing or there already
is reported as such. Every other failure is the store's own. -/
def ofStore : StoreError → LedgerError
  | .duplicateVersion uniqueId version => .conflict uniqueId version
  | .duplicateConstant uniqueId => .alreadyExists .constant uniqueId
  | .constantNotFound uniqueId => .constantNotFound uniqueId
  | .reportNotFound name => .reportNotFound name
  | e => .store e

end LedgerError

end FormulaLedger
