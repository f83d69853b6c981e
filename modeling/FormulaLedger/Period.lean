import FormulaLedger.Date
import FormulaLedger.Decimal.Basic
import FormulaLedger.Text.Blank

set_option autoImplicit false

namespace FormulaLedger

structure Period where
  start : Date
  stop : Date
  ordered : start ≤ stop
  deriving DecidableEq, Repr

namespace Period

def between? (start stop : Date) : Option Period :=
  if h : start ≤ stop then some ⟨start, stop, h⟩ else none

def ofYear? (year : Int) : Option Period := do
  let start ← Date.of? year 1 1
  let stop ← Date.of? year 12 31
  between? start stop

def year (p : Period) : Int := p.stop.year

def isCalendarYear (p : Period) : Bool :=
  p.start.year == p.stop.year && p.start.month == 1 && p.start.day == 1 &&
    p.stop.month == 12 && p.stop.day == 31

def rangeChars (start stop : Date) : List Char := start.textChars ++ '.' :: '.' :: stop.textChars

def textChars (p : Period) : List Char :=
  if p.isCalendarYear then (toString p.start.year).toList else rangeChars p.start p.stop

def text (p : Period) : String := String.ofList p.textChars

def readDigits? (width : Nat) (cs : List Char) : Option (Nat × List Char) :=
  let ds := (cs.take width).takeWhile Char.isDigit
  if ds.isEmpty then none else some (Decimal.ofDigits ds, cs.drop ds.length)

def readField? (width : Nat) (cs : List Char) : Option (Nat × List Char) :=
  readDigits? width (cs.dropWhile Text.isBlank)

/-- Reads a year after blanks. A year without a sign has at most four digits. -/
def readYear? (cs : List Char) : Option (Int × List Char) :=
  match cs.dropWhile Text.isBlank with
  | '-' :: cs => (readDigits? cs.length cs).map fun (year, rest) => (-(year : Int), rest)
  | '+' :: cs => (readDigits? cs.length cs).map fun (year, rest) => ((year : Int), rest)
  | cs => (readDigits? 4 cs).map fun (year, rest) => ((year : Int), rest)

def expect? (c : Char) : List Char → Option (List Char)
  | head :: rest => if head == c then some rest else none
  | [] => none

def readDate? (cs : List Char) : Option Date := do
  let (year, cs) ← readYear? cs
  let cs ← expect? '-' cs
  let (month, cs) ← readField? 2 cs
  let cs ← expect? '-' cs
  let (day, cs) ← readField? 2 cs
  if cs.isEmpty then Date.of? year month day else none

/-- Reads a year that may have a sign: digits alone, as many as there are. -/
def readSignedYear? : List Char → Option Int
  | '-' :: ds => (digits? ds).map fun n => -(n : Int)
  | '+' :: ds => (digits? ds).map fun n => (n : Int)
  | ds => (digits? ds).map fun n => (n : Int)
where
  digits? (ds : List Char) : Option Nat :=
    if ds.isEmpty || !ds.all Char.isDigit then none else some (Decimal.ofDigits ds)

/-- The texts before and after the first two points in a row. -/
def splitRange? : List Char → Option (List Char × List Char)
  | '.' :: '.' :: rest => some ([], rest)
  | c :: cs => (splitRange? cs).map fun (before, after) => (c :: before, after)
  | [] => none

/-- Reads a period. A failure names the text that is no period: all of it, or the range or the year
that cannot be. -/
def parse (s : String) : Except String Period :=
  let cs := Text.trimChars s.toList
  let failure := String.ofList cs
  match splitRange? cs with
  | some (before, after) =>
    match readDate? (Text.trimChars before), readDate? (Text.trimChars after) with
    | some start, some stop =>
      match between? start stop with
      | some p => .ok p
      | none => .error (String.ofList (rangeChars start stop))
    | _, _ => .error failure
  | none =>
    match readSignedYear? cs with
    | some year =>
      if -Nat.pow 2 31 ≤ year ∧ year < Nat.pow 2 31 then
        match ofYear? year with
        | some p => .ok p
        | none => .error (toString year)
      else .error failure
    | none => .error failure

end Period

/-- Whom an evaluation is for: the company, the period, and the location whose samples count. -/
structure Company where
  id : String
  period : Period
  location : String
  deriving DecidableEq, Repr

end FormulaLedger
