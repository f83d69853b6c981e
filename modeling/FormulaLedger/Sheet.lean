import FormulaLedger.Decimal.Number
import FormulaLedger.Period
import FormulaLedger.Pointer.Basic

set_option autoImplicit false

namespace FormulaLedger

inductive Cell
  | number (x : Float)
  | text (s : String)
  | empty
  deriving DecidableEq, Repr

namespace Cell

/-- The finite number in a cell. A text counts if it spells a number, blanks around it aside. -/
def number? : Cell → Option Float
  | .number x => if x.isFinite then some x else none
  | .text s =>
    match Number.read? (Text.trim s) with
    | some x => if x.isFinite then some x else none
    | none => none
  | .empty => none

def display : Cell → String
  | .number x => Number.text x
  | .text s => s
  | .empty => ""

def isEmpty : Cell → Bool
  | .empty => true
  | _ => false

end Cell

structure Sheet where
  materialId : String
  rows : List (List Cell)
  deriving DecidableEq, Repr

namespace Sheet

def cell? (s : Sheet) (row column : Nat) : Option Cell := s.rows[row]?.bind (·[column]?)

def row (s : Sheet) (index : Nat) : List Cell := (s.rows[index]?).getD []

/-- Rows that are too short are passed over. -/
def column (s : Sheet) (index : Nat) : List Cell := s.rows.filterMap (·[index]?)

def cells (s : Sheet) : List Cell := s.rows.flatten

def scope (s : Sheet) : Scope → List Cell
  | .sheet => s.cells
  | .row index => s.row index
  | .column index => s.column index

end Sheet

structure SheetKey where
  companyId : String
  period : Period
  materialId : String
  deriving DecidableEq, Repr

/-- All sheets, at most one for each key. -/
abbrev Materials := List (SheetKey × Sheet)

namespace Materials

def sheet? (m : Materials) (company : Company) (materialId : String) : Option Sheet :=
  m.lookup ⟨company.id, company.period, materialId⟩

/-- Adds a sheet in place of the one with the same key. -/
def insert (m : Materials) (companyId : String) (period : Period) (sheet : Sheet) : Materials :=
  let key : SheetKey := ⟨companyId, period, sheet.materialId⟩
  m.filter (fun entry => entry.1 != key) ++ [(key, sheet)]

end Materials

end FormulaLedger
