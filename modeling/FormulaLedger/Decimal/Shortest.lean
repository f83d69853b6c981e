import FormulaLedger.Decimal.Basic

/-!
The shortest decimal of a double. A finite double stands for all the reals that round to it, which
form an interval. The decimal chosen lies on the coarsest grid of powers of ten that meets the
interval, and of the points of that grid it is one of the two next to the double itself.
-/

set_option autoImplicit false

namespace FormulaLedger

structure Binary where
  mantissa : Nat
  exponent : Int
  deriving DecidableEq, Repr

/-- The fields of a double read from its bits. A zero exponent field marks the numbers without the
hidden leading bit. -/
def Binary.ofFloat (x : Float) : Binary :=
  let bits : Nat := x.toBits.toNat
  let fraction : Nat := bits % Nat.pow 2 52
  let field : Nat := bits / Nat.pow 2 52 % Nat.pow 2 11
  if field = 0 then ⟨fraction, -1074⟩ else ⟨Nat.pow 2 52 + fraction, (field : Int) - 1075⟩

inductive Tie
  | up
  | even
  deriving DecidableEq, Repr

/-- The interval of reals that round to one double, over a common denominator. The value lies
strictly between the ends, and the ends belong to the interval when `closed` holds. -/
structure Rounding where
  low : Nat
  value : Nat
  high : Nat
  denominator : Nat
  closed : Bool

/-- Below a power of two the doubles lie twice as dense, so the lower end is half as far away. -/
def Binary.rounding (b : Binary) : Rounding :=
  let down := if b.mantissa = Nat.pow 2 52 ∧ b.exponent ≠ -1074 then 1 else 2
  let scale := Nat.pow 2 (b.exponent - 2).toNat
  { low := (4 * b.mantissa - down) * scale
    value := 4 * b.mantissa * scale
    high := (4 * b.mantissa + 2) * scale
    denominator := Nat.pow 2 (2 - b.exponent).toNat
    closed := b.mantissa % 2 == 0 }

namespace Rounding

def scaled (r : Rounding) (e : Int) : Rounding :=
  let up := Nat.pow 10 (-e).toNat
  { r with
    low := r.low * up
    value := r.value * up
    high := r.high * up
    denominator := r.denominator * Nat.pow 10 e.toNat }

def holds (r : Rounding) (n : Nat) : Bool :=
  let x := n * r.denominator
  if r.closed then r.low ≤ x && x ≤ r.high else r.low < x && x < r.high

/-- The whole number in the interval that is nearest to the value, if one of the two next to the
value lies in the interval. -/
def nearest? (tie : Tie) (r : Rounding) : Option Nat :=
  let below := r.value / r.denominator
  let rest := 2 * (r.value % r.denominator)
  match r.holds below, r.holds (below + 1) with
  | false, false => none
  | true, false => some below
  | false, true => some (below + 1)
  | true, true =>
    if rest < r.denominator then some below
    else if r.denominator < rest then some (below + 1)
    else match tie with
      | .up => some (below + 1)
      | .even => some (if below % 2 = 0 then below else below + 1)

def search (tie : Tie) (r : Rounding) : Nat → Int → Option Decimal
  | 0, _ => none
  | steps + 1, e =>
    match (r.scaled e).nearest? tie with
    | some n => some ⟨n, e⟩
    | none => search tie r steps (e - 1)

end Rounding

/-- An exponent of ten beyond every real that rounds to the double. For positive `m` a double of
magnitude below `2 ^ m` is below `10 ^ (4 * m / 13 + 1)`, as `2 ^ 13 < 10 ^ 4`, and for negative `m`
it is below `10 ^ (3 * m / 10 + 1)`, as `10 ^ 3 < 2 ^ 10`. -/
def Binary.decade (b : Binary) : Int :=
  let m : Int := b.mantissa.log2 + 1 + b.exponent
  max (4 * m / 13) (3 * m / 10) + 1

/-- No grid beyond the double's decade meets its interval, and `10 ^ (-324)` is finer than the
distance between any two doubles, so the search meets every grid that can matter. -/
def Decimal.shortest (tie : Tie) (x : Float) : Decimal :=
  let b := Binary.ofFloat x
  if b.mantissa = 0 then ⟨0, 0⟩
  else (b.rounding.search tie (b.decade + 325).toNat b.decade).getD ⟨0, 0⟩

end FormulaLedger
