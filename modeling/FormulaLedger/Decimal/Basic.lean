set_option autoImplicit false

namespace FormulaLedger

/-- The number `digits · 10 ^ exponent`. -/
structure Decimal where
  digits : Nat
  exponent : Int
  deriving DecidableEq, Repr

namespace Decimal

def ofDigits (ds : List Char) : Nat :=
  ds.foldl (fun n d => 10 * n + (d.toNat - '0'.toNat)) 0

def digitChars (d : Decimal) : List Char := Nat.toDigits 10 d.digits

/-- The text with every digit written out: no exponent, and no point in a whole number. -/
def plainChars (d : Decimal) : List Char :=
  let ds := d.digitChars
  match d.exponent with
  | .ofNat zeros => ds ++ List.replicate zeros '0'
  | .negSucc k =>
    let places := k + 1
    if places < ds.length then
      ds.take (ds.length - places) ++ '.' :: ds.drop (ds.length - places)
    else '0' :: '.' :: (List.replicate (places - ds.length) '0' ++ ds)

/-- Numbers from `10 ^ (-5)` up to `10 ^ 16` are written positionally and with a point, others with
an exponent that always shows its sign. -/
def pointedChars (d : Decimal) : List Char :=
  let ds := d.digitChars
  let point : Int := ds.length + d.exponent
  if 0 ≤ d.exponent ∧ point ≤ 16 then d.plainChars ++ ['.', '0']
  else if -5 < point ∧ point ≤ 16 then d.plainChars
  else
    let mantissa := match ds with
      | first :: second :: rest => first :: '.' :: second :: rest
      | short => short
    mantissa ++ 'e' :: (if point < 1 then '-' else '+') :: Nat.toDigits 10 (point - 1).natAbs

/-- The double nearest to the decimal. Outside the range of doubles the power of ten decides, so
that no large power is computed. -/
def toFloat (d : Decimal) : Float :=
  let length := d.digitChars.length
  if d.digits = 0 then 0
  else if length + d.exponent > 310 then 1 / 0
  else if length + d.exponent < -330 then 0
  else Float.ofScientific d.digits (decide (d.exponent < 0)) d.exponent.natAbs

def splitPoint (cs : List Char) : List Char × List Char × List Char :=
  let whole := cs.takeWhile Char.isDigit
  match cs.dropWhile Char.isDigit with
  | '.' :: rest => (whole, rest.takeWhile Char.isDigit, rest.dropWhile Char.isDigit)
  | rest => (whole, [], rest)

def readExponent? : List Char → Option Int
  | '+' :: ds => unsigned? ds
  | '-' :: ds => (unsigned? ds).map (- ·)
  | ds => unsigned? ds
where
  unsigned? (ds : List Char) : Option Int :=
    if ds.isEmpty || !ds.all Char.isDigit then none else some (ofDigits ds)

def read? (cs : List Char) : Option Decimal :=
  let (whole, fraction, rest) := splitPoint cs
  if whole.isEmpty && fraction.isEmpty then none
  else
    let digits := ofDigits (whole ++ fraction)
    match rest with
    | [] => some ⟨digits, -fraction.length⟩
    | mark :: ds =>
      if mark == 'e' || mark == 'E' then
        (readExponent? ds).map fun e => ⟨digits, e - fraction.length⟩
      else none

end Decimal

end FormulaLedger
