import FormulaLedger.Pointer.Basic
import FormulaLedger.Text.Lowercase

/-!
The flat record that a pointer is stored as. Each kind of pointer owns some of the optional fields:
a record is refused if it has a field of another kind, or lacks one of its own.
-/

set_option autoImplicit false

namespace FormulaLedger

structure PointerRecord where
  kind : String
  text : String
  payload : TextTable
  value : Option String
  uniqueId : Option String
  materialId : Option String
  row : Option Nat
  column : Option Nat
  function : Option String
  criteria : Option String
  deriving DecidableEq, Repr

inductive PointerKind
  | literal
  | constant
  | calculation
  | cell
  | aggregate
  deriving DecidableEq, Repr

def PointerKind.name : PointerKind → String
  | .literal => "literal"
  | .constant => "constant"
  | .calculation => "calculation"
  | .cell => "material_cell"
  | .aggregate => "aggregate"

def PointerKind.ofName? (name : String) : Option PointerKind :=
  [PointerKind.literal, .constant, .calculation, .cell, .aggregate].find? (·.name == name)

inductive PointerField
  | value
  | uniqueId
  | materialId
  | row
  | column
  | function
  | criteria
  deriving DecidableEq, Repr

namespace PointerField

def all : List PointerField := [.value, .uniqueId, .materialId, .row, .column, .function, .criteria]

def name : PointerField → String
  | .value => "value"
  | .uniqueId => "uniqueId"
  | .materialId => "materialId"
  | .row => "row"
  | .column => "col"
  | .function => "function"
  | .criteria => "criteria"

end PointerField

def PointerKind.owns : PointerKind → PointerField → Bool
  | .literal, .value => true
  | .constant, .uniqueId | .calculation, .uniqueId => true
  | .cell, .materialId | .cell, .row | .cell, .column => true
  | .aggregate, .value | .aggregate, .uniqueId => false
  | .aggregate, _ => true
  | _, _ => false

inductive PointerError
  | unknownKind (name : String)
  | missing (kind : PointerKind) (field : PointerField)
  | foreign (kind : PointerKind) (field : PointerField)
  | badLiteral (value : String)
  | unknownFunction (name : String)
  | ambiguousScope (materialId : String)
  deriving DecidableEq, Repr

def PointerError.message : PointerError → String
  | .unknownKind name => "Unknown pointer type: " ++ name
  | .missing kind field =>
    kind.name ++ " pointer is missing required field '" ++ field.name ++ "'"
  | .foreign kind field =>
    kind.name ++ " pointer does not accept field '" ++ field.name ++ "'"
  | .badLiteral value => "Invalid literal: '" ++ value ++ "'"
  | .unknownFunction name => "Unknown aggregate function: " ++ name
  | .ambiguousScope materialId =>
    "Aggregate over '" ++ materialId ++
      "' cannot address a single cell; use a material cell pointer"

def isLiteralChar (c : Char) : Bool := c.isDigit || ".+-*/() ".toList.contains c

namespace PointerRecord

def bare (kind : String) : PointerRecord :=
  ⟨kind, "", .empty, none, none, none, none, none, none, none⟩

def has (r : PointerRecord) : PointerField → Bool
  | .value => r.value.isSome
  | .uniqueId => r.uniqueId.isSome
  | .materialId => r.materialId.isSome
  | .row => r.row.isSome
  | .column => r.column.isSome
  | .function => r.function.isSome
  | .criteria => r.criteria.isSome

def foreignField? (r : PointerRecord) (kind : PointerKind) : Option PointerField :=
  PointerField.all.find? fun field => !kind.owns field && r.has field

def require {α : Type} (kind : PointerKind) (field : PointerField) (value : Option α) :
    Except PointerError α :=
  match value with
  | some value => .ok value
  | none => .error (.missing kind field)

def requireVisible (kind : PointerKind) (field : PointerField) (value : Option String) :
    Except PointerError String := do
  let text ← require kind field value
  if Text.isBlankText text then .error (.missing kind field) else .ok text

/-- A text that is not blank, without the blanks around it. -/
def requireText (kind : PointerKind) (field : PointerField) (value : Option String) :
    Except PointerError String :=
  (requireVisible kind field value).map Text.trim

/-- A literal is a piece of formula text without blanks around it. -/
def literalOf (value : String) : Except PointerError Target :=
  let trimmed := Text.trim value
  if trimmed.isEmpty || !trimmed.toList.all isLiteralChar then .error (.badLiteral value)
  else .ok (.literal trimmed)

/-- The function's name is read without blanks around it and in any case, and only a count has
criteria. -/
def functionOf (r : PointerRecord) : Except PointerError AggregateFunction := do
  let name ← require .aggregate .function r.function
  match Text.lowercase (Text.trim name) with
  | "sum" =>
    if r.criteria.isSome then .error (.foreign .aggregate .criteria) else .ok .sum
  | "countif" => return .countIf (← requireVisible .aggregate .criteria r.criteria)
  | _ => .error (.unknownFunction name)

/-- An aggregate ranges over a row, a column or neither, but not over both. -/
def scopeOf (r : PointerRecord) (materialId : String) : Except PointerError Scope :=
  match r.row, r.column with
  | none, none => .ok .sheet
  | some row, none => .ok (.row row)
  | none, some column => .ok (.column column)
  | some _, some _ => .error (.ambiguousScope materialId)

def targetOf (r : PointerRecord) : PointerKind → Except PointerError Target
  | .literal => do literalOf (← require .literal .value r.value)
  | .constant => return .constant (← requireText .constant .uniqueId r.uniqueId)
  | .calculation => return .calculation (← requireText .calculation .uniqueId r.uniqueId)
  | .cell => do
    let materialId ← requireText .cell .materialId r.materialId
    let row ← require .cell .row r.row
    let column ← require .cell .column r.column
    return .cell materialId row column
  | .aggregate => do
    let materialId ← requireText .aggregate .materialId r.materialId
    let function ← r.functionOf
    let scope ← r.scopeOf materialId
    return .aggregate materialId scope function

/-- Reads a record: its kind, then the fields that do not belong to it, then those that do. An empty
text stands for the default one. -/
def decode (r : PointerRecord) : Except PointerError Pointer := do
  let some kind := PointerKind.ofName? r.kind | .error (.unknownKind r.kind)
  if let some field := r.foreignField? kind then .error (.foreign kind field)
  let target ← r.targetOf kind
  return ⟨⟨if r.text.isEmpty then target.defaultText else r.text, r.payload⟩, target⟩

end PointerRecord

def Pointer.record (p : Pointer) : PointerRecord :=
  let labelled (kind : PointerKind) : PointerRecord :=
    { PointerRecord.bare kind.name with text := p.label.text, payload := p.label.payload }
  match p.target with
  | .literal text => { labelled .literal with value := some text }
  | .constant uniqueId => { labelled .constant with uniqueId := some uniqueId }
  | .calculation uniqueId => { labelled .calculation with uniqueId := some uniqueId }
  | .cell materialId row column =>
    { labelled .cell with materialId := some materialId, row := some row, column := some column }
  | .aggregate materialId scope function =>
    { labelled .aggregate with
      materialId := some materialId
      row := match scope with
        | .row index => some index
        | _ => none
      column := match scope with
        | .column index => some index
        | _ => none
      function := some function.name
      criteria := match function with
        | .countIf criteria => some criteria
        | .sum => none }

/-- Reads a list of records, from the place `index` on. A failure names the first place that fails.
-/
def decodeFrom (index : Nat) :
    List PointerRecord → Except (Nat × PointerError) (List Pointer)
  | [] => .ok []
  | r :: rs =>
    match r.decode with
    | .error e => .error (index, e)
    | .ok p => (decodeFrom (index + 1) rs).map (p :: ·)

def decodeExpression (rs : List PointerRecord) : Except (Nat × PointerError) (List Pointer) :=
  decodeFrom 0 rs

end FormulaLedger
