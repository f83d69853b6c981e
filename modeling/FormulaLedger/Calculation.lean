import FormulaLedger.Constant
import FormulaLedger.Pointer.Basic

/-!
Calculations and reports. A calculation is a chain of revisions, each a stored row of its own, and a
report lists rows.
-/

set_option autoImplicit false

namespace FormulaLedger

/-- Rows are numbered in the order in which they are stored. -/
abbrev RowId := Nat

def rowName (id : RowId) : String := "#" ++ toString id

structure Draft where
  unit : String
  expression : List Pointer
  deriving DecidableEq, Repr

/-- One revision of a calculation. -/
structure Calculation where
  id : RowId
  uniqueId : String
  version : Nat
  latest : Bool
  draft : Draft
  deriving DecidableEq, Repr

namespace Calculation

def unit (c : Calculation) : String := c.draft.unit

def expression (c : Calculation) : List Pointer := c.draft.expression

def references (c : Calculation) : List String := c.expression.filterMap Pointer.reference?

def displayExpression (c : Calculation) : String :=
  " ".intercalate (c.expression.map Pointer.displayText)

def identity (c : Calculation) : Identity := ⟨c.uniqueId, c.unit⟩

end Calculation

structure NewRow where
  uniqueId : String
  version : Nat
  latest : Bool
  draft : Draft
  deriving DecidableEq, Repr

def NewRow.first (uniqueId : String) (draft : Draft) : NewRow := ⟨uniqueId, 1, true, draft⟩

structure Report where
  name : String
  rows : List RowId
  deriving DecidableEq, Repr

namespace Report

def replace (r : Report) (old new : RowId) : Report :=
  { r with rows := r.rows.map fun id => if id = old then new else id }

end Report

end FormulaLedger
