import FormulaLedger.Proofs.Formula.Graft
import FormulaLedger.Proofs.Formula.Printing

set_option autoImplicit false

namespace FormulaLedger

namespace Double

theorem zero_lt_of (s : Float.Model.UnpackedFloat.Sign) {b : Binary} (hb : b.Canonical) :
    0 < of s b hb ↔ s = .positive := by
  have h : (0 < of s b hb) = (decide ((0 : Float).toModel < (of s b hb).toModel) = true) := rfl
  have h' : ((0 : Float).toModel < (of s b hb).toModel) =
      (((0 : Float).toModel.unpack.compare (of s b hb).toModel.unpack == some .lt) = true) := rfl
  rw [h, decide_eq_true_iff, h', unpack_of, unpack_zero]
  cases s with
  | negative => simp [Float.Model.UnpackedFloat.compare]
  | positive => simp [Float.Model.UnpackedFloat.compare]

end Double

namespace Formula

def Token.value? : Token → Option Float
  | .number value => some value
  | .operator _ | .opening | .closing => none

def numbers (ts : List Token) : List Float := ts.filterMap Token.value?

theorem numbers_append (ts us : List Token) : numbers (ts ++ us) = numbers ts ++ numbers us :=
  List.filterMap_append

theorem numbers_operator (op : Operator) (ts : List Token) :
    numbers (.operator op :: ts) = numbers ts := rfl

theorem numbers_opening (ts : List Token) : numbers (.opening :: ts) = numbers ts := rfl

def Phrase.leftValues : Phrase → List Float
  | .terms left | .factors left => left.values
  | .additive | .multiplicative | .primary => []

theorem Derives.values_eq {n : Phrase} {ts : List Token} {f : Formula} (h : Derives n ts f) :
    f.values = n.leftValues ++ numbers ts := by
  induction h with
  | additive _ _ ihf ihg =>
    rw [ihg, Phrase.leftValues, ihf, numbers_append]
    rfl
  | noTerm f => exact (List.append_nil _).symm
  | term _ _ _ ihg ihh =>
    rw [ihh, Phrase.leftValues, values, ihg, numbers_operator, numbers_append, List.append_assoc]
    rfl
  | multiplicative _ _ ihf ihg =>
    rw [ihg, Phrase.leftValues, ihf, numbers_append]
    rfl
  | noFactor f => exact (List.append_nil _).symm
  | factor _ _ _ ihg ihh =>
    rw [ihh, Phrase.leftValues, values, ihg, numbers_operator, numbers_append, List.append_assoc]
    rfl
  | number value => rfl
  | group _ ih =>
    rw [ih, numbers_opening, numbers_append]
    exact (List.append_nil _).symm

/-- One formula in the place between some leaves and others, which stay. -/
def place (before : List Float) (g : Formula) (after : List Float) : List (Option Formula) :=
  before.map (fun _ => none) ++ some g :: after.map fun _ => none

theorem flatMap_leaves (ts : List Token) :
    ts.flatMap Token.leaves = (numbers ts).map fun _ => none := by
  induction ts with
  | nil => rfl
  | cons token ts ih =>
    rw [List.flatMap_cons, ih]
    cases token <;> rfl

section place

variable {x : Float} {a b : String} {f : Formula}

theorem apart_of_blank_left {cs : List Char} (h : ∀ c ∈ cs.getLast?, Text.isBlank c = true)
    (ds : List Char) : Apart cs ds := by
  intro c hc d _ hnumeral
  rw [not_isNumeralChar_of_isBlank (h c hc)] at hnumeral
  contradiction

theorem apart_of_blank_right (cs : List Char) {ds : List Char}
    (h : ∀ c ∈ ds.head?, Text.isBlank c = true) : Apart cs ds :=
  apart_of_head fun d hd => not_isNumeralChar_of_isBlank (h d hd)

theorem exists_sides {ts : List Token} (h : Splits (a ++ "(0)" ++ b).toList ts) :
    ∃ us vs, ts = us ++ ([.opening, .number 0, .closing] ++ vs) ∧ Splits a.toList us ∧
      Splits b.toList vs := by
  have hzero : tokens? ['(', '0', ')'] = some [.opening, .number 0, .closing] := rfl
  have hleft : Apart a.toList (['(', '0', ')'] ++ b.toList) := apart_of_head (by simp; decide)
  have hright : Apart ['(', '0', ')'] b.toList := by
    intro c hc d _ hnumeral
    rw [← Option.some.inj hc] at hnumeral
    contradiction
  have htext : (a ++ "(0)" ++ b).toList = a.toList ++ (['(', '0', ')'] ++ b.toList) := by
    rw [String.toList_append, String.toList_append, List.append_assoc]
    rfl
  rw [htext, splits_append_iff hleft] at h
  obtain ⟨us, vs, rfl, hus, hvs⟩ := h
  obtain ⟨ws, vs, rfl, hws, hvs⟩ := (splits_append_iff hright).1 hvs
  rw [← tokens?_eq_some_iff, hzero] at hws
  rw [← Option.some.inj hws]
  exact ⟨us, vs, rfl, hus, hvs⟩

theorem splits_operand_between {us vs : List Token} (hx : x.isFinite = true)
    (ha : ∀ c ∈ a.toList.getLast?, Text.isBlank c = true)
    (hb : ∀ c ∈ b.toList.head?, Text.isBlank c = true) (hus : Splits a.toList us)
    (hvs : Splits b.toList vs) :
    Splits (a ++ operandText x ++ b).toList (us ++ (tokensOfOperand x ++ vs)) := by
  rw [String.toList_append, String.toList_append, List.append_assoc]
  exact hus.append (apart_of_blank_left ha _)
    ((splits_operandText hx).append (apart_of_blank_right _ hb) hvs)

theorem parse_operand_between (hx : x.isFinite = true)
    (ha : ∀ c ∈ a.toList.getLast?, Text.isBlank c = true)
    (hb : ∀ c ∈ b.toList.head?, Text.isBlank c = true) (h : parse (a ++ "(0)" ++ b) = .ok f) :
    ∃ us vs, Splits a.toList us ∧ Splits b.toList vs ∧ f.values = numbers us ++ 0 :: numbers vs ∧
      parse (a ++ operandText x ++ b) =
        .ok (f.graft (place (numbers us) (ofOperand x) (numbers vs))) := by
  obtain ⟨ts, hsplits, hbalanced, hderives⟩ := (parse_eq_ok_iff_of_derives _ _).1 h
  obtain ⟨us, vs, rfl, hus, hvs⟩ := exists_sides hsplits
  have houtline : [Part.fixed us, .operand x, .fixed vs].flatMap Part.outline =
      us ++ ([.opening, .number 0, .closing] ++ vs) := by simp [Part.outline]
  have hfilled : [Part.fixed us, .operand x, .fixed vs].flatMap Part.filled =
      us ++ (tokensOfOperand x ++ vs) := by simp [Part.filled]
  have hplace : [Part.fixed us, .operand x, .fixed vs].flatMap Part.grafts =
      place (numbers us) (ofOperand x) (numbers vs) := by
    simp [Part.grafts, place, flatMap_leaves]
  have hreads : Reads ([Part.fixed us, .operand x, .fixed vs].flatMap Part.outline) f := by
    rw [houtline]
    exact ⟨(nests_iff_balanced _).2 hbalanced, (reads_iff_derives _ _).2 hderives⟩
  obtain ⟨g, hg, hgrafts⟩ := hreads.filled
  rw [hfilled] at hg
  rw [hplace] at hgrafts
  refine ⟨us, vs, hus, hvs, ?_, ?_⟩
  · rw [hderives.values_eq, numbers_append]
    rfl
  · have htext := splits_operand_between hx ha hb hus hvs
    rw [← hgrafts.eq_graft]
    exact (parse_eq_ok_iff _ _).2 ⟨_, tokens?_eq_some_iff.2 htext, hg⟩

theorem ofOperand_of_zero (h : x = 0 ∨ x = -0) : ofOperand x = .number 0 :=
  if_pos (Double.beq_zero_iff.2 h)

theorem ofOperand_of_pos (hx : x.isFinite = true) (h : 0 < x) : ofOperand x = .number x := by
  rcases Double.zero_or_of hx with ⟨s, hs⟩ | ⟨s, b, hb, rfl⟩
  · have hzero := Double.beq_zero_iff.1 (Double.beq_zero_of_unpack hs)
    have hnot : ¬ (0 : Float) < 0 ∧ ¬ (0 : Float) < -0 := by decide +kernel
    rcases hzero with rfl | rfl
    · exact absurd h hnot.1
    · exact absurd h hnot.2
  · obtain rfl := (Double.zero_lt_of s hb).1 h
    have hzero : ¬ (Double.of .positive b hb == 0) = true := by simp [Double.beq_zero_of]
    have hneg : ¬ Double.of .positive b hb < 0 := by simp [Double.of_lt_zero]
    rw [ofOperand, if_neg hzero, if_neg hneg]

theorem ofOperand_of_neg (hx : x.isFinite = true) (h : x < 0) :
    ofOperand x = .binary .subtract (.number 0) (.number (-x)) := by
  have hzero : ¬ (x == 0) = true := by
    intro hzero
    have hnot : ¬ (0 : Float) < 0 ∧ ¬ (-0 : Float) < 0 := by decide +kernel
    rcases Double.beq_zero_iff.1 hzero with rfl | rfl
    · exact hnot.1 h
    · exact hnot.2 h
  rw [ofOperand, if_neg hzero, if_pos h]

theorem parse_operandText (hx : x.isFinite = true) : parse (operandText x) = .ok (ofOperand x) := by
  have hzero : parse ("" ++ "(0)" ++ "") = .ok (.number 0) := by decide +kernel
  obtain ⟨us, vs, _, _, hvalues, hparse⟩ := parse_operand_between hx (by simp) (by simp) hzero
  have hlength := congrArg List.length hvalues
  rw [List.length_append, List.length_cons, values, List.length_singleton] at hlength
  have hus : numbers us = [] := List.length_eq_zero_iff.1 (by omega)
  rw [hus, String.empty_append, String.append_empty] at hparse
  exact hparse

end place

/-- The text of a finite number reads as the number wherever a zero in parentheses can stand between
blanks: in place of that zero comes the number, zero without its sign, or the difference of zero and
the magnitude. So an operand's text by itself has the number as its value. -/
theorem parse_in_place {x : Float} (hx : x.isFinite = true) :
    (∀ (a b : String) (f : Formula), (∀ c ∈ a.toList.getLast?, Text.isBlank c = true) →
      (∀ c ∈ b.toList.head?, Text.isBlank c = true) → parse (a ++ "(0)" ++ b) = .ok f →
      ∃ us vs g, Splits a.toList us ∧ Splits b.toList vs ∧
        f.values = numbers us ++ 0 :: numbers vs ∧
        parse (a ++ operandText x ++ b) = .ok (f.graft (place (numbers us) g (numbers vs))) ∧
        (x = 0 ∨ x = -0 → g = .number 0) ∧ (0 < x → g = .number x) ∧
        (x < 0 → g = .binary .subtract (.number 0) (.number (-x))) ∧
        g.evaluate = .ok (Number.unsignedZero x)) ∧
    ∀ reasons,
      evaluateText (operandText x) reasons = ⟨.number (Number.unsignedZero x), reasons⟩ := by
  refine ⟨fun a b f ha hb h => ?_, fun reasons => ?_⟩
  · obtain ⟨us, vs, hus, hvs, hvalues, hparse⟩ := parse_operand_between hx ha hb h
    exact ⟨us, vs, ofOperand x, hus, hvs, hvalues, hparse, ofOperand_of_zero, ofOperand_of_pos hx,
      ofOperand_of_neg hx, evaluate_ofOperand hx⟩
  · rw [evaluateText, valueOf, parse_operandText hx]
    simp only [evaluate_ofOperand hx]

/-- Minus three and a half in a product, with a tab in front of it and a line break behind. -/
theorem parse_in_place_product :
    parse ("2 *\t" ++ operandText (-3.5) ++ "\n- 1") =
      .ok (.binary .subtract (.binary .multiply (.number 2)
        (.binary .subtract (.number 0) (.number 3.5))) (.number 1)) ∧
    evaluateText (operandText (-3.5)) [] = ⟨.number (-3.5), []⟩ := by
  have hfinite : (-3.5 : Float).isFinite = true := by decide +kernel
  have hzero : parse ("2 *\t" ++ "(0)" ++ "\n- 1") = .ok (.binary .subtract
      (.binary .multiply (.number 2) (.number 0)) (.number 1)) := by decide +kernel
  obtain ⟨hplace, hvalue⟩ := parse_in_place hfinite
  have hlast : ∀ c ∈ "2 *\t".toList.getLast?, Text.isBlank c = true := by
    intro c hc
    obtain rfl : '\t' = c := Option.some.inj hc
    rfl
  have hhead : ∀ c ∈ "\n- 1".toList.head?, Text.isBlank c = true := by
    intro c hc
    obtain rfl : '\n' = c := Option.some.inj hc
    rfl
  obtain ⟨us, vs, g, hus, hvs, _, hparse, _, _, hneg, _⟩ := hplace _ _ _ hlast hhead hzero
  have husTokens : tokens? "2 *\t".toList = some [.number 2, .operator .multiply] := by
    decide +kernel
  have hvsTokens : tokens? "\n- 1".toList = some [.operator .subtract, .number 1] := by
    decide +kernel
  rw [← tokens?_eq_some_iff, husTokens] at hus
  rw [← tokens?_eq_some_iff, hvsTokens] at hvs
  have hmagnitude : (- -3.5 : Float) = 3.5 := by decide +kernel
  rw [← Option.some.inj hus, ← Option.some.inj hvs, hneg (by decide +kernel), hmagnitude] at hparse
  have hunsigned : Number.unsignedZero (-3.5) = -3.5 := by decide +kernel
  rw [hunsigned] at hvalue
  exact ⟨hparse, hvalue []⟩

end Formula

end FormulaLedger
