import FormulaLedger.Text.Blank
import FormulaLedger.Text.Table

set_option autoImplicit false

namespace FormulaLedger

structure Label where
  text : String
  payload : TextTable
  deriving DecidableEq, Repr

namespace Label

def plain (text : String) : Label := ⟨text, .empty⟩

def isKeyChar (c : Char) : Bool := c.isAlphanum || c == '_' || c == '.' || c == '-'

/-- The key of a placeholder that stands at the front, and how many characters the placeholder has.
Blanks may surround the key. -/
def placeholder? : List Char → Option (List Char × Nat)
  | '{' :: '{' :: cs =>
    let before := cs.takeWhile Text.isBlank
    let inner := cs.dropWhile Text.isBlank
    let key := inner.takeWhile isKeyChar
    let tail := inner.dropWhile isKeyChar
    let after := tail.takeWhile Text.isBlank
    match key, tail.dropWhile Text.isBlank with
    | _ :: _, '}' :: '}' :: _ => some (key, before.length + key.length + after.length + 4)
    | _, _ => none
  | _ => none

/-- Substitutes from left to right, where the first `skip` characters belong to a placeholder that
has been replaced. What is put in is never searched again, and an unknown placeholder stays. -/
def substitute (payload : TextTable) : Nat → List Char → List Char
  | _, [] => []
  | skip + 1, _ :: cs => substitute payload skip cs
  | 0, c :: cs =>
    match placeholder? (c :: cs) with
    | some (key, width) =>
      let replacement := match payload.lookup? (String.ofList key) with
        | some value => value.toList
        | none => (c :: cs).take width
      replacement ++ substitute payload (width - 1) cs
    | none => c :: substitute payload 0 cs

def render (l : Label) : String :=
  if l.payload.isEmpty then l.text else String.ofList (substitute l.payload 0 l.text.toList)

end Label

end FormulaLedger
