import FormulaLedger.Formula.Token

/-!
Reading a formula. The grammar is

    additive       := multiplicative (('+' | '-') multiplicative)*
    multiplicative := primary (('*' | '/') primary)*
    primary        := number | '(' additive ')'

and the reader goes over the tokens once. It keeps a frame for each additive expression that is
still being read, the innermost first, and every step takes one token.
-/

set_option autoImplicit false

namespace FormulaLedger.Formula

/-- What stands to the left of the operand that is read next: a formula and the operator after it.
-/
abbrev Pending := Option (Formula × Operator)

def Pending.apply (pending : Pending) (right : Formula) : Formula :=
  match pending with
  | some (left, op) => .binary op left right
  | none => right

/-- An additive expression that is being read: the sum of its finished terms, and the product of the
finished factors of the term that is open. -/
structure Frame where
  sum : Pending
  product : Pending
  deriving DecidableEq, Repr

namespace Frame

def fresh : Frame := ⟨none, none⟩

def close (f : Frame) (last : Formula) : Formula := f.sum.apply (f.product.apply last)

def extend (f : Frame) (last : Formula) (op : Operator) : Frame :=
  if op.isAdditive then ⟨some (f.close last, op), none⟩
  else ⟨f.sum, some (f.product.apply last, op)⟩

end Frame

/-- Where the reader stands: the innermost frame, the frames around it, and the operand just read,
if an operator can come next. -/
structure Reading where
  frame : Frame
  outer : List Frame
  operand : Option Formula
  deriving DecidableEq, Repr

namespace Reading

def start : Reading := ⟨.fresh, [], none⟩

def step (r : Reading) (l : Lexeme) : Except ParseError Reading :=
  match r.operand, l.token with
  | none, .number value => .ok { r with operand := some (.number value) }
  | none, .opening => .ok ⟨.fresh, r.frame :: r.outer, none⟩
  | some last, .operator op => .ok { r with frame := r.frame.extend last op, operand := none }
  | some last, .closing =>
    match r.outer with
    | frame :: outer => .ok ⟨frame, outer, some (r.frame.close last)⟩
    | [] => .error (.unexpected .closing l.position)
  | _, token => .error (.unexpected token l.position)

def finish (r : Reading) : Except ParseError Formula :=
  match r.operand, r.outer with
  | some last, [] => .ok (r.frame.close last)
  | _, _ => .error .incomplete

end Reading

/-- Parentheses close after they open, all of them, and `depth` of them are open before. -/
def checkNesting (depth : Nat) : List Lexeme → Except ParseError Unit
  | [] => if depth = 0 then .ok () else .error .unbalanced
  | ⟨.opening, position⟩ :: ls =>
    if depth < maxNesting then checkNesting (depth + 1) ls else .error (.tooDeep position)
  | ⟨.closing, _⟩ :: ls =>
    match depth with
    | 0 => .error .unbalanced
    | depth + 1 => checkNesting depth ls
  | _ :: ls => checkNesting depth ls

def ofLexemes (ls : List Lexeme) : Except ParseError Formula := do
  let reading ← ls.foldlM Reading.step Reading.start
  reading.finish

/-- Reads a whole text: its tokens, then its parentheses, then its grammar. -/
def parse (text : String) : Except ParseError Formula := do
  let ls ← scan text
  if ls.isEmpty then .error .empty
  checkNesting 0 ls
  ofLexemes ls

end FormulaLedger.Formula
