import FormulaLedger.Decimal.Number

/-!
Documents: the values that a JSON text spells, kept as they are written. A numeral keeps its digits
and a string notes whether its escapes name characters at all, so that a value nobody asks for is
never refused for what it would mean.
-/

set_option autoImplicit false

namespace FormulaLedger

/-- A number as it is written. An empty fraction stands for none, and an exponent is a sign and
digits. -/
structure Numeral where
  negative : Bool
  whole : List Char
  fraction : List Char
  exponent : Option (Bool × List Char)
  deriving DecidableEq, Repr

/-- A string is `none` where an escape names half a surrogate pair. An object keeps every field in
the order it is written, repeated ones included. -/
inductive Json
  | null
  | bool (value : Bool)
  | number (value : Numeral)
  | string (value : Option String)
  | array (items : List Json)
  | object (fields : List (Option String × Json))
  deriving Repr

namespace Numeral

def ofNat (n : Nat) : Numeral := ⟨false, Nat.toDigits 10 n, [], none⟩

def ofInt (n : Int) : Numeral := { ofNat n.natAbs with negative := n < 0 }

def ofFloat (x : Float) : Numeral :=
  let (whole, fraction, rest) := Decimal.splitPoint (Decimal.shortest .even x).pointedChars
  let exponent := match rest with
    | _ :: '-' :: ds => some (true, ds)
    | _ :: '+' :: ds => some (false, ds)
    | _ => none
  ⟨Number.isNegative x, whole, fraction, exponent⟩

def chars (n : Numeral) : List Char :=
  (if n.negative then ['-'] else []) ++ n.whole ++
    (if n.fraction.isEmpty then [] else '.' :: n.fraction) ++
    match n.exponent with
    | none => []
    | some (negative, ds) => 'e' :: (if negative then '-' else '+') :: ds

/-- A whole number is written without point or exponent, and a negative zero is none. -/
def toInt? (n : Numeral) : Option Int :=
  if !n.fraction.isEmpty || n.exponent.isSome then none
  else
    let m := Decimal.ofDigits n.whole
    if n.negative then if m = 0 then none else some (-m) else some m

/-- Appends digits to `m` while the number still fits into 64 bits, and counts those appended. -/
def fill (m : Nat) : List Char → Nat × Nat
  | [] => (m, 0)
  | d :: ds =>
    let next := 10 * m + (d.toNat - '0'.toNat)
    if next < Nat.pow 2 64 then
      let (filled, count) := fill next ds
      (filled, count + 1)
    else (m, 0)

/-- Scales by a power of ten with one multiplication or division. Powers below `10 ^ (-308)` take
more than one division, and `none` stands for a value beyond all doubles. -/
def scale : Nat → Float → Int → Option Float
  | 0, x, _ => some x
  | steps + 1, x, e =>
    if e.natAbs ≤ 308 then
      let power := Float.ofScientific 1 false e.natAbs
      if 0 ≤ e then
        let scaled := x * power
        if scaled.isInf then none else some scaled
      else some (x / power)
    else if x == 0 then some x
    else if 0 ≤ e then none
    else scale steps (x / Float.ofScientific 1 false 308) (e + 308)

/-- A numeral is read through a significand of 64 bits, scaled by a power of ten: digits before the
point that do not fit count as zeros, and digits after it that do not fit are dropped. An exponent
beyond 32 bits decides the value without scaling. -/
def toFloat? (n : Numeral) : Option Float :=
  let signed (x : Float) : Float := if n.negative then -x else x
  let (head, wholeTaken) := fill 0 n.whole
  let (significand, fractionTaken) := fill head n.fraction
  let shift : Int := (n.whole.length - wholeTaken : Nat) - (fractionTaken : Int)
  match n.exponent with
  | none => (scale 4 (Float.ofNat significand) shift).map signed
  | some (negative, ds) =>
    let e := Decimal.ofDigits ds
    if Nat.pow 2 31 ≤ e then
      if significand ≠ 0 && !negative then none else some (signed 0)
    else (scale 4 (Float.ofNat significand) (if negative then shift - e else shift + e)).map signed

end Numeral

namespace Json

def str (s : String) : Json := .string (some s)

def nat (n : Nat) : Json := .number (.ofNat n)

def int (n : Int) : Json := .number (.ofInt n)

def strs (ss : List String) : Json := .array (ss.map str)

def record (fields : List (String × Json)) : Json :=
  .object (fields.map fun (name, value) => (some name, value))

def optional (name : String) (value : Option Json) : List (String × Json) :=
  match value with
  | some v => [(name, v)]
  | none => []

mutual

def depth : Json → Nat
  | .array items => itemsDepth items + 1
  | .object fields => fieldsDepth fields + 1
  | _ => 0

def itemsDepth : List Json → Nat
  | [] => 0
  | item :: items => max item.depth (itemsDepth items)

def fieldsDepth : List (Option String × Json) → Nat
  | [] => 0
  | (_, value) :: fields => max value.depth (fieldsDepth fields)

end

mutual

def isMeaningful : Json → Bool
  | .number n => n.toFloat?.isSome
  | .string s => s.isSome
  | .array items => itemsMeaningful items
  | .object fields => fieldsMeaningful fields
  | _ => true

def itemsMeaningful : List Json → Bool
  | [] => true
  | item :: items => item.isMeaningful && itemsMeaningful items

def fieldsMeaningful : List (Option String × Json) → Bool
  | [] => true
  | (name, value) :: fields => name.isSome && value.isMeaningful && fieldsMeaningful fields

end

end Json

end FormulaLedger
