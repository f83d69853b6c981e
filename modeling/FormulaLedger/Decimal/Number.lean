import FormulaLedger.Decimal.Shortest

set_option autoImplicit false

namespace FormulaLedger.Number

/-- The sign bit, which a zero has too. -/
def isNegative (x : Float) : Bool := x.toBits.toNat / Nat.pow 2 63 == 1

def signed (x : Float) (magnitude : List Char) : String :=
  String.ofList (if isNegative x then '-' :: magnitude else magnitude)

/-- The shortest decimal that reads back, with every digit written out. A tie goes up. -/
def text (x : Float) : String :=
  if x.isNaN then "NaN"
  else if x.isInf then signed x "inf".toList
  else signed x (Decimal.shortest .up x).plainChars

/-- The text of a finite double in a document: it always shows a point or an exponent, and a tie
goes to the even digit. -/
def documentText (x : Float) : String :=
  signed x (Decimal.shortest .even x).pointedChars

def readMagnitude? (cs : List Char) : Option Float :=
  match Decimal.read? cs with
  | some d => some d.toFloat
  | none =>
    match String.ofList (cs.map Char.toLower) with
    | "inf" | "infinity" => some (1 / 0)
    | "nan" => some (0 / 0)
    | _ => none

def readChars? : List Char → Option Float
  | '+' :: cs => readMagnitude? cs
  | '-' :: cs => (readMagnitude? cs).map (- ·)
  | cs => readMagnitude? cs

/-- Reads a decimal with an optional sign, point and exponent. No blank may stand around it. -/
def read? (s : String) : Option Float := readChars? s.toList

end FormulaLedger.Number
