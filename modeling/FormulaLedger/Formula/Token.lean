import FormulaLedger.Formula.Basic
import FormulaLedger.Text.Blank

/-!
The tokens of a formula's text. Blanks only separate tokens, and a numeral is a longest run of
digits and points. Positions count characters from the start of the text.
-/

set_option autoImplicit false

namespace FormulaLedger.Formula

inductive Token
  | number (value : Float)
  | operator (op : Operator)
  | opening
  | closing
  deriving DecidableEq, Repr

def Token.text : Token → String
  | .number value => Number.text value
  | .operator op => String.singleton op.symbol
  | .opening => "("
  | .closing => ")"

structure Lexeme where
  token : Token
  position : Nat
  deriving DecidableEq, Repr

def maxNesting : Nat := 64

inductive ParseError
  | empty
  | unbalanced
  | badCharacter (c : Char) (position : Nat)
  | badNumeral (text : String)
  | tooDeep (position : Nat)
  | incomplete
  | unexpected (token : Token) (position : Nat)
  deriving DecidableEq, Repr

def ParseError.message : ParseError → String
  | .empty => "empty expression"
  | .unbalanced => "unbalanced parentheses"
  | .badCharacter c position =>
    "unexpected character '" ++ c.toString ++ "' at position " ++ toString position
  | .badNumeral text => "invalid number '" ++ text ++ "'"
  | .tooDeep position =>
    "parentheses nested deeper than " ++ toString maxNesting ++ " at position " ++ toString position
  | .incomplete => "unexpected end of expression"
  | .unexpected token position =>
    "unexpected token '" ++ token.text ++ "' at position " ++ toString position

def isNumeralChar (c : Char) : Bool := c.isDigit || c == '.'

def sign? : Char → Option Token
  | '+' => some (.operator .add)
  | '-' => some (.operator .subtract)
  | '*' => some (.operator .multiply)
  | '/' => some (.operator .divide)
  | '(' => some .opening
  | ')' => some .closing
  | _ => none

/-- The lexeme of a run of digits and points that ends before `position`, the last character first.
A run has at least one digit and at most one point. -/
def ofRun (position : Nat) (run : List Char) : Except ParseError (List Lexeme) :=
  if run.isEmpty then .ok []
  else
    match Decimal.read? run.reverse with
    | some d => .ok [⟨.number d.toFloat, position - run.length⟩]
    | none => .error (.badNumeral (String.ofList run.reverse))

def ofChar (position : Nat) (c : Char) : Except ParseError (List Lexeme) :=
  if Text.isBlank c then .ok []
  else
    match sign? c with
    | some token => .ok [⟨token, position⟩]
    | none => .error (.badCharacter c position)

/-- Splits a text that starts at `position`, where `run` is the numeral read so far. -/
def scanFrom (position : Nat) (run : List Char) : List Char → Except ParseError (List Lexeme)
  | [] => ofRun position run
  | c :: cs =>
    if isNumeralChar c then scanFrom (position + 1) (c :: run) cs
    else do
      let numeral ← ofRun position run
      let here ← ofChar position c
      let later ← scanFrom (position + 1) [] cs
      return numeral ++ here ++ later

def scan (text : String) : Except ParseError (List Lexeme) := scanFrom 0 [] text.toList

end FormulaLedger.Formula
