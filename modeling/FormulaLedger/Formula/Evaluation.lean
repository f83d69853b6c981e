import FormulaLedger.Formula.Parser

set_option autoImplicit false

namespace FormulaLedger

inductive ArithmeticError
  | divisionByZero
  | notFinite
  deriving DecidableEq, Repr

def ArithmeticError.message : ArithmeticError → String
  | .divisionByZero => "division by zero"
  | .notFinite => "result is not finite"

/-- No quotient has a divisor of zero, whatever the sign of the zero. -/
def Operator.apply (op : Operator) (a b : Float) : Except ArithmeticError Float :=
  match op with
  | .add => .ok (a + b)
  | .subtract => .ok (a - b)
  | .multiply => .ok (a * b)
  | .divide => if b == 0 then .error .divisionByZero else .ok (a / b)

def finite (x : Float) : Except ArithmeticError Float :=
  if x.isFinite then .ok x else .error .notFinite

namespace Formula

def evaluate : Formula → Except ArithmeticError Float
  | .number value => finite value
  | .binary op left right => do
    let a ← left.evaluate
    let b ← right.evaluate
    let value ← op.apply a b
    finite value

inductive Failure
  | malformed (e : ParseError)
  | valueless (e : ArithmeticError)
  deriving DecidableEq, Repr

def Failure.message : Failure → String
  | .malformed e => e.message
  | .valueless e => e.message

def valueOf (text : String) : Except Failure Float :=
  match parse text with
  | .error e => .error (.malformed e)
  | .ok f =>
    match f.evaluate with
    | .error e => .error (.valueless e)
    | .ok value => .ok value

end Formula

end FormulaLedger
