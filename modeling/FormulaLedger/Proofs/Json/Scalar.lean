import FormulaLedger.Json.Reader
import FormulaLedger.Json.Writer
import FormulaLedger.Proofs.Text.Trim

set_option autoImplicit false

namespace FormulaLedger

namespace Json

def isNumeralChar (c : Char) : Bool := c.isDigit || c == '.' || c == 'e' || c == 'E'

/-- No numeral goes on with the text. -/
def Ends (cs : List Char) : Prop := ∀ c ∈ cs.head?, isNumeralChar c = false

@[simp] theorem ends_nil : Ends [] := by simp [Ends]

@[simp] theorem ends_cons (c : Char) (cs : List Char) :
    Ends (c :: cs) ↔ isNumeralChar c = false := by
  simp [Ends]

def NoDigit (cs : List Char) : Prop := ∀ c ∈ cs.head?, c.isDigit = false

@[simp] theorem noDigit_nil : NoDigit [] := by simp [NoDigit]

@[simp] theorem noDigit_cons (c : Char) (cs : List Char) :
    NoDigit (c :: cs) ↔ c.isDigit = false := by
  simp [NoDigit]

theorem Ends.noDigit {cs : List Char} (h : Ends cs) : NoDigit cs := by
  intro c hc
  have hnot := h c hc
  simp only [isNumeralChar, Bool.or_eq_false_iff] at hnot
  exact hnot.1.1.1

end Json

namespace Numeral

open Json

structure WellFormed (n : Numeral) : Prop where
  digits : ∀ c ∈ n.whole, c.isDigit = true
  leading : n.whole = ['0'] ∨ ∃ d ds, n.whole = d :: ds ∧ d ≠ '0'
  fraction : ∀ c ∈ n.fraction, c.isDigit = true
  exponent : ∀ negative ds, n.exponent = some (negative, ds) →
    ds ≠ [] ∧ ∀ c ∈ ds, c.isDigit = true

theorem wellFormed_ofNat (n : Nat) : (ofNat n).WellFormed := by
  refine ⟨fun c hc => Nat.isDigit_of_mem_toDigits (by decide) (by decide) hc, ?_, by simp [ofNat],
    by simp [ofNat]⟩
  change Nat.toDigits 10 n = ['0'] ∨ ∃ d ds, Nat.toDigits 10 n = d :: ds ∧ d ≠ '0'
  induction n using Nat.strongRecOn with
  | ind n ih =>
    rcases Nat.lt_or_ge n 10 with hlt | hge
    · rw [Nat.toDigits_of_lt_base hlt]
      by_cases h : n.digitChar = '0'
      · exact .inl (by rw [h])
      · exact .inr ⟨_, [], rfl, h⟩
    · rw [Nat.toDigits_of_base_le (by decide) hge]
      rcases ih (n / 10) (Nat.div_lt_self (by omega) (by decide)) with h | ⟨d, ds, h, hd⟩
      · -- a quotient of at least one is not written as zero
        have hvalue := congrArg (Nat.ofDigitChars 10 · 0) h
        simp only [Nat.ofDigitChars_ten_toDigits] at hvalue
        have hzero : Nat.ofDigitChars 10 ['0'] 0 = 0 := by decide
        omega
      · exact .inr ⟨d, ds ++ [(n % 10).digitChar], by rw [h]; rfl, hd⟩

theorem readDigits_append {ds rest : List Char} (hne : ds ≠ [])
    (hds : ∀ c ∈ ds, c.isDigit = true) (hrest : NoDigit rest) :
    readDigits (ds ++ rest) = some (ds, rest) := by
  simp [readDigits, Text.takeWhile_run hds hrest, Text.dropWhile_run hds hrest, hne]

def pointChars (n : Numeral) : List Char :=
  if n.fraction.isEmpty then [] else '.' :: n.fraction

def exponentChars (n : Numeral) : List Char :=
  match n.exponent with
  | none => []
  | some (negative, ds) => 'e' :: (if negative then '-' else '+') :: ds

theorem chars_eq (n : Numeral) : n.chars =
    (if n.negative then ['-'] else []) ++ n.whole ++ n.pointChars ++ n.exponentChars := rfl

variable {n : Numeral} {rest : List Char}

theorem readWhole_append (hn : n.WellFormed) (hrest : NoDigit rest) :
    readWhole (n.whole ++ rest) = some (n.whole, rest) := by
  rcases hn.leading with hzero | ⟨d, ds, hds, hd⟩
  · rw [hzero]
    cases rest with
    | nil => rfl
    | cons c cs => simp_all [readWhole]
  · have hread := readDigits_append (by simp [hds]) hn.digits hrest
    rw [hds] at hread ⊢
    rw [← hread, List.cons_append]
    unfold readWhole
    split
    · simp_all
    · rfl

theorem readFraction_append (hn : n.WellFormed) (hrest : NoDigit rest)
    (hpoint : rest.head? ≠ some '.') :
    readFraction (n.pointChars ++ rest) = some (n.fraction, rest) := by
  by_cases hempty : n.fraction = []
  · rw [pointChars, hempty]
    cases rest with
    | nil => rfl
    | cons c cs =>
      change readFraction (c :: cs) = _
      unfold readFraction
      split
      · simp_all
      · rfl
  · have hread := readDigits_append hempty hn.fraction hrest
    simp [pointChars, hempty, readFraction, hread]

theorem readExponent_append (hn : n.WellFormed) (hrest : Ends rest) :
    readExponent (n.exponentChars ++ rest) = some (n.exponent, rest) := by
  cases hexp : n.exponent with
  | none =>
    simp only [exponentChars, hexp, List.nil_append]
    cases rest with
    | nil => rfl
    | cons c cs =>
      simp only [ends_cons, isNumeralChar, Bool.or_eq_false_iff] at hrest
      simp [readExponent, hrest.1.2, hrest.2]
  | some exponent =>
    obtain ⟨negative, ds⟩ := exponent
    obtain ⟨hne, hds⟩ := hn.exponent negative ds hexp
    have hread := readDigits_append hne hds hrest.noDigit
    cases negative with
    | false => simp [exponentChars, hexp, readExponent, hread]
    | true => simp [exponentChars, hexp, readExponent, hread]

theorem noDigit_exponentChars (n : Numeral) (hrest : Ends rest) :
    NoDigit (n.exponentChars ++ rest) := by
  cases hexp : n.exponent with
  | none => simpa [exponentChars, hexp] using hrest.noDigit
  | some exponent => simp [exponentChars, hexp]

theorem head?_exponentChars (n : Numeral) (hrest : Ends rest) :
    (n.exponentChars ++ rest).head? ≠ some '.' := by
  cases hexp : n.exponent with
  | none =>
    intro hhead
    simp only [exponentChars, hexp, List.nil_append] at hhead
    have hnot := hrest '.' hhead
    contradiction
  | some exponent => simp [exponentChars, hexp]

theorem noDigit_pointChars (n : Numeral) (hrest : NoDigit rest) :
    NoDigit (n.pointChars ++ rest) := by
  by_cases hempty : n.fraction = []
  · simpa [pointChars, hempty] using hrest
  · simp [pointChars, hempty]

theorem exists_digit (hn : n.WellFormed) :
    ∃ d ds, n.whole = d :: ds ∧ d.isDigit = true := by
  cases hwhole : n.whole with
  | nil => rcases hn.leading with h | ⟨_, _, h, _⟩ <;> simp [hwhole] at h
  | cons d ds => exact ⟨d, ds, rfl, hn.digits d (by simp [hwhole])⟩

theorem exists_head (hn : n.WellFormed) :
    ∃ c cs, n.chars = c :: cs ∧ (c = '-' ∨ c.isDigit = true) := by
  cases hneg : n.negative with
  | true =>
    exact ⟨'-', n.whole ++ n.pointChars ++ n.exponentChars, by simp [chars_eq, hneg], .inl rfl⟩
  | false =>
    obtain ⟨d, ds, hwhole, hd⟩ := exists_digit hn
    exact ⟨d, ds ++ n.pointChars ++ n.exponentChars, by simp [chars_eq, hneg, hwhole], .inr hd⟩

theorem readNumeral_append (hn : n.WellFormed) (hrest : Ends rest) :
    readNumeral (n.chars ++ rest) = some (n, rest) := by
  have hwhole := readWhole_append hn
    (noDigit_pointChars n (noDigit_exponentChars n hrest))
  have hfraction := readFraction_append hn (noDigit_exponentChars n hrest)
    (head?_exponentChars n hrest)
  have hexponent := readExponent_append hn hrest
  obtain ⟨d, ds, hds, hd⟩ := exists_digit hn
  have hminus : d ≠ '-' := by
    rintro rfl
    contradiction
  obtain ⟨negative, whole, fraction, exponent⟩ := n
  cases negative with
  | true => simp [readNumeral, chars_eq, hwhole, hfraction, hexponent]
  | false =>
    change whole = d :: ds at hds
    subst hds
    rw [List.cons_append] at hwhole
    simp [readNumeral, chars_eq, hminus, hwhole, hfraction, hexponent]

end Numeral

namespace Json

theorem hexUnit?_control : ∀ n < 0x20,
    hexUnit? '0' '0' (hexChar (n / 16)) (hexChar (n % 16)) = some n := by decide

theorem ofEscape_control {n : Nat} (h : n < 0x20) :
    StringUnit.ofEscape n = .char (Char.ofNat n) := by
  have hhigh : isHighSurrogate n = false := by simp [isHighSurrogate]; omega
  have hlow : isLowSurrogate n = false := by simp [isLowSurrogate]; omega
  simp [StringUnit.ofEscape, hhigh, hlow]

theorem readUnits_escape (c : Char) (rest : List Char) :
    readUnits (escape c ++ rest) =
      (readUnits rest).map fun (units, rest) => (.char c :: units, rest) := by
  unfold escape
  split
  · simp [readUnits, simpleEscape?]
  · simp [readUnits, simpleEscape?]
  · simp [readUnits, simpleEscape?]
  · simp [readUnits, simpleEscape?]
  · simp [readUnits, simpleEscape?]
  · simp [readUnits, simpleEscape?]
  · simp [readUnits, simpleEscape?]
  · next hquote hslash _ _ _ _ _ =>
    split
    · next hcontrol =>
      simp [readUnits, hexUnit?_control c.toNat hcontrol, ofEscape_control hcontrol]
    · next hcontrol =>
      have hplain : ¬ (decide (c.toNat < 0x20) || c == '\\') = true := by
        rw [Bool.or_eq_true, decide_eq_true_eq, beq_iff_eq]
        rintro (hlt | rfl)
        · exact hcontrol hlt
        · exact hslash rfl
      rw [List.singleton_append, readUnits, if_neg hplain]
      · exact hquote
      · exact fun _ _ _ _ _ h _ => hslash h
      · exact fun _ _ h _ => hslash h

theorem readUnits_quoted (cs rest : List Char) :
    readUnits (cs.flatMap escape ++ '"' :: rest) = some (cs.map .char, rest) := by
  induction cs with
  | nil => simp [readUnits]
  | cons c cs ih => simp [readUnits_escape, ih]

theorem joinUnits_chars (cs : List Char) : joinUnits (cs.map .char) = some cs := by
  induction cs with
  | nil => rfl
  | cons c cs ih => simp [joinUnits, ih]

theorem readString_quoted (s : String) (rest : List Char) :
    readString (s.toList.flatMap escape ++ '"' :: rest) = some (some s, rest) := by
  simp [readString, readUnits_quoted, joinUnits_chars]

end Json

end FormulaLedger
