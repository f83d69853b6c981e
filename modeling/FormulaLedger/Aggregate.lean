import FormulaLedger.Sheet
import FormulaLedger.Text.Lowercase

set_option autoImplicit false

namespace FormulaLedger

/-- Cells without a number take no part. The start is the positive zero; the negative one would make
a difference only to a sum that is zero, and both zeros are the same operand. -/
def sumCells (cells : List Cell) : Float :=
  (cells.filterMap Cell.number?).foldl (· + ·) 0

def containsChars (part : List Char) : List Char → Bool
  | [] => part.isEmpty
  | c :: cs => part.isPrefixOf (c :: cs) || containsChars part cs

/-- An empty cell meets no criteria, and blank criteria are met by no cell. -/
def meetsCriteria (criteria : String) (cell : Cell) : Bool :=
  let needle := Text.lowerChars criteria.toList
  !cell.isEmpty && !needle.all Text.isBlank &&
    containsChars needle (Text.lowerChars cell.display.toList)

def countCells (criteria : String) (cells : List Cell) : Nat :=
  cells.countP (meetsCriteria criteria)

def AggregateFunction.apply (function : AggregateFunction) (cells : List Cell) : Float :=
  match function with
  | .sum => sumCells cells
  | .countIf criteria => Float.ofNat (countCells criteria cells)

end FormulaLedger
