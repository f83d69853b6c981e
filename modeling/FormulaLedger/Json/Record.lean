import FormulaLedger.Json.Reader
import FormulaLedger.Text.Table

/-!
Taking records out of documents. A record has known fields in a fixed order. It is written as an
object, where other fields are passed over and a known one may stand only once, or as an array of
its fields in order, where fields may be missing at the end.
-/

set_option autoImplicit false

namespace FormulaLedger.Json

def text? : Json → Option String
  | .string s => s
  | _ => none

def bool? : Json → Option Bool
  | .bool b => some b
  | _ => none

def float? : Json → Option Float
  | .number n => n.toFloat?
  | _ => none

def int? : Json → Option Int
  | .number n => n.toInt?
  | _ => none

def natOfBits? (bits : Nat) (value : Json) : Option Nat := do
  let n ← value.int?
  if 0 ≤ n ∧ n < Nat.pow 2 bits then some n.toNat else none

def int32? (value : Json) : Option Int := do
  let n ← value.int?
  if -Nat.pow 2 31 ≤ n ∧ n < Nat.pow 2 31 then some n else none

def list? {α : Type} (item? : Json → Option α) : Json → Option (List α)
  | .array items => items.mapM item?
  | _ => none

def nullable? {α : Type} (value? : Json → Option α) : Json → Option (Option α)
  | .null => some none
  | value => (value? value).map some

/-- A table from texts to texts, in which a later entry for a key replaces the earlier. -/
def textTable? : Json → Option TextTable
  | .object fields =>
    fields.foldlM (fun table (name, value) => do
      return table.insert (← name) (← value.text?)) .empty
  | _ => none

/-- The known fields that are present. -/
abbrev Record := List (String × Json)

def knownFields? (known : List String) (fields : List (Option String × Json)) : Option Record := do
  let named ← fields.mapM fun (name, value) => name.map (·, value)
  let present := named.filter fun (name, _) => known.contains name
  if known.all fun name => (present.filter fun field => field.1 == name).length ≤ 1 then
    some present
  else none

def record? (known : List String) : Json → Option Record
  | .object fields => knownFields? known fields
  | .array items => if items.length ≤ known.length then some (known.zip items) else none
  | _ => none

/-- Documents nest at most this deep where their values are held on to. -/
def maxDepth : Nat := 127

/-- A record that shares its object with another: it has no array form, and what stands in the
unknown fields has to be meaningful and not nested too deep. `outside` counts the containers around
those fields. -/
def sharedRecord? (outside : Nat) (known : List String) : Json → Option Record
  | .object fields => do
    let record ← knownFields? known fields
    let unknown := fields.filter fun (name, _) => !known.contains (name.getD "")
    if unknown.all fun (_, value) => value.isMeaningful && outside + value.depth ≤ maxDepth then
      some record
    else none
  | _ => none

namespace Record

def required {α : Type} (r : Record) (name : String) (value? : Json → Option α) : Option α :=
  r.lookup name >>= value?

def defaulted {α : Type} (r : Record) (name : String) (default : α) (value? : Json → Option α) :
    Option α :=
  match r.lookup name with
  | some value => value? value
  | none => some default

end Record

end FormulaLedger.Json
