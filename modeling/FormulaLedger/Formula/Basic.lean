import FormulaLedger.Decimal.Number

set_option autoImplicit false

namespace FormulaLedger

inductive Operator
  | add
  | subtract
  | multiply
  | divide
  deriving DecidableEq, Repr

namespace Operator

def symbol : Operator → Char
  | .add => '+'
  | .subtract => '-'
  | .multiply => '*'
  | .divide => '/'

def isAdditive : Operator → Bool
  | .add | .subtract => true
  | .multiply | .divide => false

end Operator

inductive Formula
  | number (value : Float)
  | binary (op : Operator) (left right : Formula)
  deriving DecidableEq, Repr

namespace Formula

def textChars : Formula → List Char
  | .number value => (Number.text value).toList
  | .binary op left right =>
    '(' :: left.textChars ++ ' ' :: op.symbol :: ' ' :: right.textChars ++ [')']

def text (f : Formula) : String := String.ofList f.textChars

end Formula

end FormulaLedger
