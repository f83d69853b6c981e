import FormulaLedger.Aggregate
import FormulaLedger.Evaluation
import FormulaLedger.Store.Program

/-!
Resolution: turning an expression into the text of a formula. Each pointer becomes an operand's
text, and what cannot be resolved becomes zero with a reason. A calculation is resolved by
evaluating its latest row, and one that is being evaluated already is a cycle.

The rows and constants come through lookups in any monad, so the same definition reads a plain store
and a store that can fail.
-/

set_option autoImplicit false

namespace FormulaLedger

structure Options where
  /-- Where a constant is looked up that has no sample for the company's location. -/
  defaultLocation : String
  fallbackToDefault : Bool
  /-- Whether the reasons of a nested calculation that has a value are shown. -/
  includeNestedReasons : Bool
  /-- Whether a report leaves out the rows that do not exist any more. -/
  skipMissingRows : Bool
  deriving DecidableEq, Repr

def Options.standard : Options := ⟨"default", true, true, false⟩

structure Setting where
  materials : Materials
  company : Company
  options : Options

structure Lookups (m : Type → Type) where
  constant : String → m (Except StoreError (Option Constant))
  latest : String → m (Except StoreError (Option Calculation))
  row : RowId → m (Except StoreError (Option Calculation))
  report : String → m (Except StoreError (Option Report))

def Store.lookups (s : Store) : Lookups Id where
  constant uniqueId := .ok (s.constant? uniqueId)
  latest uniqueId := .ok (s.latest? uniqueId)
  row id := .ok (s.row? id)
  report name := .ok (s.report? name)

def Program.lookups : Lookups Program where
  constant uniqueId := .request (.constant uniqueId)
  latest uniqueId := .request (.latest uniqueId)
  row id := .request (.row id)
  report name := .request (.report name)

structure Resolution where
  text : String
  reasons : List Reason
  deriving DecidableEq, Repr

namespace Resolution

/-- An operand that cannot be resolved counts as zero. -/
def zero (oddity : Oddity) (subject : String) : Resolution := ⟨"0", [.about oddity subject]⟩

def ofNumber (x : Float) (subject : String) : Resolution :=
  if x.isFinite then ⟨operandText x, []⟩ else zero .notFinite subject

def join (parts : List Resolution) : Resolution :=
  ⟨" ".intercalate (parts.map (·.text)), parts.flatMap (·.reasons)⟩

end Resolution

namespace Setting

def defaultLocation? (s : Setting) : Option String :=
  if s.options.fallbackToDefault then some s.options.defaultLocation else none

def resolveConstant (s : Setting) (uniqueId : String)
    (found : Except StoreError (Option Constant)) : Resolution :=
  match found with
  | .error _ => .zero .lookupFailed uniqueId
  | .ok constant =>
    match constant.bind fun c => c.resolve? s.company.location s.defaultLocation? with
    | some sample => .ofNumber sample.value uniqueId
    | none => .zero .constantUnresolved uniqueId

/-- An empty cell counts as zero without a reason. -/
def resolveCell (s : Setting) (materialId : String) (row column : Nat) : Resolution :=
  let subject := cellAddress materialId row column
  match (s.materials.sheet? s.company materialId).bind fun sheet => sheet.cell? row column with
  | none => .zero .cellUnresolved subject
  | some .empty => ⟨"0", []⟩
  | some cell =>
    match cell.number? with
    | some x => .ofNumber x subject
    | none => .zero .cellNotNumeric subject

def resolveAggregate (s : Setting) (materialId : String) (scope : Scope)
    (function : AggregateFunction) : Resolution :=
  match s.materials.sheet? s.company materialId with
  | none => .zero .materialUnresolved materialId
  | some sheet => .ofNumber (function.apply (sheet.scope scope)) materialId

/-- The operand for a nested calculation. One that has no value counts as zero and always gives its
reasons. -/
def resolveNested (s : Setting) (uniqueId : String) (nested : Evaluation) : Resolution :=
  match nested.value with
  | .number x =>
    let operand := Resolution.ofNumber x uniqueId
    ⟨operand.text,
      (if s.options.includeNestedReasons then nested.reasons else []) ++ operand.reasons⟩
  | .error => ⟨"0", nested.reasons⟩

end Setting

section

variable {m : Type → Type} [Monad m]

/-- Resolves one pointer. `resolving` holds the calculations that are being evaluated, and `enter`
evaluates another. -/
def resolvePointer (look : Lookups m) (s : Setting) (resolving : List String)
    (enter : Calculation → m Evaluation) (p : Pointer) : m Resolution :=
  match p.target with
  | .literal text => pure ⟨text, []⟩
  | .constant uniqueId => do
    let found ← look.constant uniqueId
    return s.resolveConstant uniqueId found
  | .calculation uniqueId =>
    if resolving.contains uniqueId then pure (.zero .cycle uniqueId)
    else do
      match ← look.latest uniqueId with
      | .error _ => return .zero .lookupFailed uniqueId
      | .ok none => return .zero .calculationUnresolved uniqueId
      | .ok (some c) => return s.resolveNested uniqueId (← enter c)
  | .cell materialId row column => pure (s.resolveCell materialId row column)
  | .aggregate materialId scope function => pure (s.resolveAggregate materialId scope function)

def resolveWith (look : Lookups m) (s : Setting) (resolving : List String)
    (enter : Calculation → m Evaluation) (ps : List Pointer) : m Resolution := do
  let parts ← ps.mapM (resolvePointer look s resolving enter)
  return .join parts

/-- Evaluates a row while `resolving` are being evaluated, at most `depth` rows inside one another.
Rows that belong to different calculations cannot nest deeper than there are calculations, so a row
beyond a sufficient depth is one of a cycle. -/
def evaluateWithin (look : Lookups m) (s : Setting) :
    Nat → List String → Calculation → m Evaluation
  | 0, _, c => pure ⟨.error, [.about .cycle c.uniqueId]⟩
  | depth + 1, resolving, c => do
    let inside := if resolving.contains c.uniqueId then resolving else c.uniqueId :: resolving
    let r ← resolveWith look s inside (evaluateWithin look s depth inside) c.expression
    return evaluateText r.text r.reasons

def resolveWithin (look : Lookups m) (s : Setting) (depth : Nat) (ps : List Pointer) :
    m Resolution :=
  resolveWith look s [] (evaluateWithin look s depth []) ps

end

/-- No more rows than the store has can nest inside one another, and the one outside. -/
def Store.depth (s : Store) : Nat := s.rows.length + 1

end FormulaLedger
