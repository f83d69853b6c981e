import FormulaLedger.Label

set_option autoImplicit false

namespace FormulaLedger

/-- The cells that an aggregate ranges over. Rows and columns count from zero. -/
inductive Scope
  | sheet
  | row (index : Nat)
  | column (index : Nat)
  deriving DecidableEq, Repr

inductive AggregateFunction
  | sum
  | countIf (criteria : String)
  deriving DecidableEq, Repr

def AggregateFunction.name : AggregateFunction → String
  | .sum => "sum"
  | .countIf _ => "countif"

inductive Target
  | literal (text : String)
  | constant (uniqueId : String)
  | calculation (uniqueId : String)
  | cell (materialId : String) (row column : Nat)
  | aggregate (materialId : String) (scope : Scope) (function : AggregateFunction)
  deriving DecidableEq, Repr

def cellAddress (materialId : String) (row column : Nat) : String :=
  materialId ++ "[" ++ toString row ++ "," ++ toString column ++ "]"

def Scope.address : Scope → String
  | .sheet => "*"
  | .row index => "row " ++ toString index
  | .column index => "col " ++ toString index

def Target.defaultText : Target → String
  | .literal text => text
  | .constant uniqueId | .calculation uniqueId => uniqueId
  | .cell materialId row column => cellAddress materialId row column
  | .aggregate materialId scope function =>
    function.name ++ "(" ++ materialId ++ "[" ++ scope.address ++ "])"

structure Pointer where
  label : Label
  target : Target
  deriving DecidableEq, Repr

namespace Pointer

def of (target : Target) : Pointer := ⟨.plain target.defaultText, target⟩

def displayText (p : Pointer) : String := p.label.render

def reference? (p : Pointer) : Option String :=
  match p.target with
  | .constant uniqueId | .calculation uniqueId => some uniqueId
  | _ => none

def isLiteral (p : Pointer) : Bool :=
  match p.target with
  | .literal _ => true
  | _ => false

end Pointer

end FormulaLedger
