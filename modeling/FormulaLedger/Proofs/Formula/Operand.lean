import FormulaLedger.Evaluation
import FormulaLedger.Proofs.Decimal.Shortest
import FormulaLedger.Proofs.Formula.Splitting

set_option autoImplicit false

namespace FormulaLedger

def Number.unsignedZero (x : Float) : Float := if x == 0 then 0 else x

namespace Number

variable {b : Binary}

theorem isFinite_unsignedZero {x : Float} (hx : x.isFinite = true) :
    (unsignedZero x).isFinite = true := by
  rw [unsignedZero]
  by_cases hzero : (x == 0) = true
  · rw [if_pos hzero]
    decide +kernel
  · rw [if_neg hzero]
    exact hx

theorem text_spells (hb : b.Canonical) : ∃ whole fraction,
    Decimal.Spells (text (Double.of .positive b hb)).toList whole fraction ∧
      (⟨Decimal.ofDigits (whole ++ fraction), -fraction.length⟩ : Decimal).toFloat =
        Double.of .positive b hb := by
  have htext : (text (Double.of .positive b hb)).toList =
      (Decimal.shortest .up (Double.of .positive b hb)).plainChars := by
    have hpositive : isNegative (Double.of .positive b hb) = false := Double.isNegative_of _ hb
    rw [text, Double.isNaN_of, Double.isInf_of]
    simp only [Bool.false_eq_true, ↓reduceIte, signed, hpositive, String.toList_ofList]
  obtain ⟨hcovers, hdigits⟩ := Decimal.shortest_covers .up .positive hb
  obtain ⟨whole, fraction, hspells, hvalue⟩ :=
    (Decimal.shortest .up (Double.of .positive b hb)).plainChars_spells
  rw [htext]
  refine ⟨whole, fraction, hspells, Decimal.toFloat_eq hb ?_ ?_⟩
  · rw [← Decimal.value_pos_iff, hvalue, Decimal.value_pos_iff]
    exact hdigits
  · rw [hvalue]
    exact hcovers

end Number

namespace Decimal.Spells

variable {cs whole fraction : List Char}

theorem isNumeral (h : Spells cs whole fraction) : Formula.IsNumeral cs := by
  obtain rfl | ⟨_, rfl⟩ := h.eq
  · exact (Formula.isNumeral_point h.whole_digits h.fraction_digits).2
      (List.append_ne_nil_of_left_ne_nil h.whole_ne _)
  · exact (Formula.isNumeral_digits h.whole_digits).2 h.whole_ne

theorem written_eq (h : Spells cs whole fraction) :
    Formula.written cs = ⟨ofDigits (whole ++ fraction), -fraction.length⟩ := by
  obtain rfl | ⟨rfl, rfl⟩ := h.eq
  · exact Formula.written_point h.whole_digits h.fraction_digits
  · rw [List.append_nil]
    exact Formula.written_digits h.whole_digits

end Decimal.Spells

namespace Formula

variable {x : Float} {b : Binary}

def ofOperand (x : Float) : Formula :=
  if x == 0 then .number 0
  else if x < 0 then .binary .subtract (.number 0) (.number (-x))
  else .number x

def tokensOfOperand (x : Float) : List Token :=
  if x == 0 then [.number 0]
  else if x < 0 then [.opening, .number 0, .operator .subtract, .number (-x), .closing]
  else [.number x]

section splits

variable {rest : List Char} {ts : List Token}

theorem splits_zero (hrest : Splits rest ts)
    (hstop : ∀ c ∈ rest.head?, ¬ (c.isDigit = true ∨ c = '.')) :
    Splits ('0' :: rest) (.number 0 :: ts) := by
  have hdigits : ∀ c ∈ ['0'], c.isDigit = true := by
    intro c hc
    rw [List.mem_singleton.1 hc]
    rfl
  have hfloat : (written ['0']).toFloat = 0 := by
    rw [written_digits hdigits]
    rfl
  have hnumeral := (isNumeral_digits hdigits).2 (List.cons_ne_nil _ _)
  have hsplits := Splits.numeral hnumeral hstop hrest
  rwa [hfloat] at hsplits

theorem splits_positive (hb : b.Canonical) (hrest : Splits rest ts)
    (hstop : ∀ c ∈ rest.head?, ¬ (c.isDigit = true ∨ c = '.')) :
    Splits ((Number.text (Double.of .positive b hb)).toList ++ rest)
      (.number (Double.of .positive b hb) :: ts) := by
  obtain ⟨whole, fraction, hspells, hfloat⟩ := Number.text_spells hb
  have hsplits := Splits.numeral hspells.isNumeral hstop hrest
  rwa [hspells.written_eq, hfloat] at hsplits

theorem splits_negative (hb : b.Canonical) :
    Splits ("(0-" ++ Number.text (Double.of .positive b hb) ++ ")").toList
      [.opening, .number 0, .operator .subtract, .number (Double.of .positive b hb), .closing] := by
  have hopening : ('(', Token.opening) ∈ signs := by decide
  have hminus : ('-', Token.operator .subtract) ∈ signs := by decide
  have hclosing : (')', Token.closing) ∈ signs := by decide
  have htext : ("(0-" ++ Number.text (Double.of .positive b hb) ++ ")").toList =
      '(' :: '0' :: '-' :: ((Number.text (Double.of .positive b hb)).toList ++ [')']) := by
    rw [String.toList_append, String.toList_append]
    rfl
  rw [htext]
  have hmagnitude := splits_positive hb (.sign hclosing .nil) (by simp)
  exact .sign hopening (splits_zero (.sign hminus hmagnitude) (by simp))

end splits

theorem splits_operandText (hx : x.isFinite = true) :
    Splits (operandText x).toList (tokensOfOperand x) := by
  rcases Double.zero_or_of hx with ⟨s, hs⟩ | ⟨s, b, hb, rfl⟩
  · have hzero := Double.beq_zero_of_unpack hs
    rw [operandText, if_pos hzero, tokensOfOperand, if_pos hzero]
    exact splits_zero .nil (by simp)
  · have hzero : ¬ (Double.of s b hb == 0) = true := by simp [Double.beq_zero_of]
    rw [operandText, if_neg hzero, tokensOfOperand, if_neg hzero]
    cases s with
    | negative =>
      have hneg : Double.of .negative b hb < 0 := (Double.of_lt_zero .negative hb).2 rfl
      rw [if_pos hneg, if_pos hneg, Double.neg_of]
      exact splits_negative hb
    | positive =>
      have hneg : ¬ Double.of .positive b hb < 0 := by
        rw [Double.of_lt_zero]
        simp
      have hsplits := splits_positive hb .nil (by simp)
      rw [List.append_nil] at hsplits
      rw [if_neg hneg, if_neg hneg]
      exact hsplits

theorem finite_eq_ok (hx : x.isFinite = true) : finite x = .ok x := if_pos hx

theorem evaluate_ofOperand (hx : x.isFinite = true) :
    (ofOperand x).evaluate = .ok (Number.unsignedZero x) := by
  have hzero_finite : finite 0 = .ok 0 := finite_eq_ok (by decide +kernel)
  rw [ofOperand, Number.unsignedZero]
  by_cases hzero : (x == 0) = true
  · rw [if_pos hzero, if_pos hzero, evaluate]
    exact hzero_finite
  · rw [if_neg hzero, if_neg hzero]
    by_cases hneg : x < 0
    · rw [if_pos hneg]
      rcases Double.zero_or_of hx with ⟨s, hs⟩ | ⟨s, b, hb, rfl⟩
      · exact absurd (Double.beq_zero_of_unpack hs) hzero
      · -- the difference is the negation of the negation
        have hnegation : finite (-Double.of s b hb) = .ok (-Double.of s b hb) :=
          finite_eq_ok (by rw [Double.neg_of, Double.isFinite_of])
        have hback : 0 - -Double.of s b hb = Double.of s b hb := by
          rw [Double.neg_of, Double.zero_sub_of]
          cases s <;> rfl
        rw [evaluate, evaluate, evaluate, hzero_finite, hnegation]
        change finite (0 - -Double.of s b hb) = _
        rw [hback]
        exact finite_eq_ok hx
    · rw [if_neg hneg, evaluate]
      exact finite_eq_ok hx

end Formula

end FormulaLedger
