import FormulaLedger.Formula.Evaluation
import FormulaLedger.Text.Table

/-!
Evaluations: a value together with the reasons for what is odd about it. Reasons are kept as causes
and worded last, so the wording has no part in the value.
-/

set_option autoImplicit false

namespace FormulaLedger

inductive Oddity
  | lookupFailed
  | constantUnresolved
  | calculationUnresolved
  | cycle
  | cellUnresolved
  | cellNotNumeric
  | materialUnresolved
  | notFinite
  | staleRevision
  | rowMissing
  deriving DecidableEq, Repr

def Oddity.key : Oddity → String
  | .lookupFailed => "lookup failed"
  | .constantUnresolved => "constant unresolved"
  | .calculationUnresolved => "calculation unresolved"
  | .cycle => "cycle detected"
  | .cellUnresolved => "cell unresolved"
  | .cellNotNumeric => "cell not numeric"
  | .materialUnresolved => "material unresolved"
  | .notFinite => "value not finite"
  | .staleRevision => "stale revision"
  | .rowMissing => "row missing"

/-- A reason names an oddity and its subject, or the failure of a text, or is given as it stands. -/
inductive Reason
  | about (oddity : Oddity) (subject : String)
  | failure (f : Formula.Failure)
  | stated (text : String)
  deriving DecidableEq, Repr

/-- The wording of reasons: a function from the plain key to the text shown. -/
abbrev Wording := String → String

def Wording.plain : Wording := id

/-- The wording of a table of messages. A key that is not in the table stands for itself. -/
def Wording.ofTable (table : TextTable) : Wording :=
  fun key => (table.lookup? key).getD key

/-- The key is worded and the subject is not. -/
def Reason.text (wording : Wording) : Reason → String
  | .about oddity subject => wording oddity.key ++ ": " ++ subject
  | .failure f => wording f.message
  | .stated text => text

inductive Value
  | number (x : Float)
  | error
  deriving DecidableEq, Repr

def errorMark : String := "ERROR!"

def Value.isError : Value → Bool
  | .error => true
  | .number _ => false

structure Evaluation where
  value : Value
  reasons : List Reason
  deriving DecidableEq, Repr

def Evaluation.texts (wording : Wording) (e : Evaluation) : List String :=
  e.reasons.map (Reason.text wording)

def evaluateText (text : String) (reasons : List Reason) : Evaluation :=
  match Formula.valueOf text with
  | .ok value => ⟨.number value, reasons⟩
  | .error f => ⟨.error, reasons ++ [.failure f]⟩

/-- The text of a finite number where an operand may stand: a negative number is written as a
difference, and zero without its sign. -/
def operandText (x : Float) : String :=
  if x == 0 then "0"
  else if x < 0 then "(0-" ++ Number.text (-x) ++ ")"
  else Number.text x

end FormulaLedger
