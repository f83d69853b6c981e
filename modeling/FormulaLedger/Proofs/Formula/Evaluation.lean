import FormulaLedger.Evaluation
import FormulaLedger.Proofs.Double.Basic

set_option autoImplicit false

namespace FormulaLedger

def Operator.compute (op : Operator) (a b : Float) : Float :=
  match op with
  | .add => a + b
  | .subtract => a - b
  | .multiply => a * b
  | .divide => a / b

namespace Formula

def computed : Formula → Float
  | .number value => value
  | .binary op left right => op.compute left.computed right.computed

/-- The subformulas, each behind its operands, the left operand first. -/
def postorder : Formula → List Formula
  | .number value => [.number value]
  | .binary op left right => left.postorder ++ right.postorder ++ [.binary op left right]

inductive Fails : Formula → ArithmeticError → Prop
  | number {value : Float} : value.isFinite = false → Fails (.number value) .notFinite
  | divisor {left right : Formula} : right.computed = 0 ∨ right.computed = -0 →
      Fails (.binary .divide left right) .divisionByZero
  | result {op : Operator} {left right : Formula} :
      (op = .divide → ¬ (right.computed = 0 ∨ right.computed = -0)) →
      (computed (.binary op left right)).isFinite = false → Fails (.binary op left right) .notFinite

def Sound (f : Formula) : Prop := ∀ e, ¬ f.Fails e

inductive FirstFails : List Formula → ArithmeticError → Prop
  | here {f : Formula} {fs : List Formula} {e : ArithmeticError} : f.Fails e →
      FirstFails (f :: fs) e
  | later {f : Formula} {fs : List Formula} {e : ArithmeticError} : f.Sound → FirstFails fs e →
      FirstFails (f :: fs) e

theorem Fails.eq {f : Formula} {e e' : ArithmeticError} (h : f.Fails e) (h' : f.Fails e') :
    e = e' := by
  cases h with
  | number _ =>
    cases h' with
    | number _ => rfl
  | divisor hzero =>
    cases h' with
    | divisor _ => rfl
    | result hdivisor _ => exact absurd hzero (hdivisor rfl)
  | result hdivisor _ =>
    cases h' with
    | divisor hzero => exact absurd hzero (hdivisor rfl)
    | result _ _ => rfl

namespace FirstFails

variable {fs gs : List Formula} {e e' : ArithmeticError}

theorem eq (h : FirstFails fs e) (h' : FirstFails fs e') : e = e' := by
  induction h with
  | here hf =>
    cases h' with
    | here hf' => exact hf.eq hf'
    | later hsound _ => exact absurd hf (hsound _)
  | later hsound _ ih =>
    cases h' with
    | here hf' => exact absurd hf' (hsound _)
    | later _ hrest => exact ih hrest

theorem append (h : FirstFails fs e) (gs : List Formula) : FirstFails (fs ++ gs) e := by
  induction h with
  | here hf => exact .here hf
  | later hsound _ ih => exact .later hsound ih

theorem prepend (hsound : ∀ f ∈ fs, f.Sound) (h : FirstFails gs e) : FirstFails (fs ++ gs) e := by
  induction fs with
  | nil => exact h
  | cons f fs ih =>
    exact .later (hsound f List.mem_cons_self) (ih fun g hg => hsound g (List.mem_cons_of_mem _ hg))

theorem not_sound (h : FirstFails fs e) : ¬ ∀ f ∈ fs, f.Sound := by
  intro hsound
  induction h with
  | here hf => exact hsound _ List.mem_cons_self _ hf
  | later _ _ ih => exact ih fun f hf => hsound f (List.mem_cons_of_mem _ hf)

end FirstFails

section operations

variable {op : Operator} {left right : Formula} {value : Float}

theorem evaluate_number_of_finite (h : value.isFinite = true) :
    evaluate (.number value) = .ok value := if_pos h

theorem evaluate_number_of_not_finite (h : value.isFinite = false) :
    evaluate (.number value) = .error .notFinite := if_neg (by simp [h])

theorem evaluate_binary_of_ok (hleft : left.evaluate = .ok left.computed)
    (hright : right.evaluate = .ok right.computed) : evaluate (.binary op left right) =
      if op = .divide ∧ (right.computed == 0) = true then .error .divisionByZero
      else finite (computed (.binary op left right)) := by
  rw [evaluate, hleft, hright, computed]
  cases op with
  | divide =>
    cases hzero : right.computed == 0 with
    | true => simp [Operator.apply, bind, Except.bind, hzero]
    | false => simp [Operator.apply, Operator.compute, bind, Except.bind, hzero]
  | add => rfl
  | subtract => rfl
  | multiply => rfl

theorem evaluate_binary_of_left {e : ArithmeticError} (h : left.evaluate = .error e) :
    evaluate (.binary op left right) = .error e := by
  rw [evaluate, h]
  rfl

theorem evaluate_binary_of_right {e : ArithmeticError} (hleft : left.evaluate = .ok left.computed)
    (h : right.evaluate = .error e) : evaluate (.binary op left right) = .error e := by
  rw [evaluate, hleft, h]
  rfl

theorem evaluate_own (op : Operator) (hleft : left.evaluate = .ok left.computed)
    (hright : right.evaluate = .ok right.computed) :
    (evaluate (.binary op left right) = .ok (computed (.binary op left right)) ∧
      Sound (.binary op left right)) ∨
    ∃ e, evaluate (.binary op left right) = .error e ∧ Fails (.binary op left right) e := by
  rw [evaluate_binary_of_ok hleft hright]
  by_cases hzero : op = .divide ∧ (right.computed == 0) = true
  · obtain ⟨rfl, hright⟩ := hzero
    exact .inr ⟨.divisionByZero, if_pos ⟨rfl, hright⟩, .divisor (Double.beq_zero_iff.1 hright)⟩
  · have hdivisor : op = .divide → ¬ (right.computed = 0 ∨ right.computed = -0) := by
      intro hop hvalue
      exact hzero ⟨hop, Double.beq_zero_iff.2 hvalue⟩
    rw [if_neg hzero, finite]
    cases hfinite : (computed (.binary op left right)).isFinite with
    | true =>
      refine .inl ⟨rfl, fun e he => ?_⟩
      cases he with
      | divisor hvalue => exact hdivisor rfl hvalue
      | result _ hinfinite =>
        rw [hfinite] at hinfinite
        contradiction
    | false => exact .inr ⟨.notFinite, rfl, .result hdivisor hfinite⟩

end operations

theorem evaluate_cases (f : Formula) :
    (f.evaluate = .ok f.computed ∧ ∀ g ∈ f.postorder, g.Sound) ∨
      ∃ e, f.evaluate = .error e ∧ FirstFails f.postorder e := by
  induction f with
  | number value =>
    cases hfinite : value.isFinite with
    | true =>
      refine .inl ⟨evaluate_number_of_finite hfinite, fun g hg e he => ?_⟩
      obtain rfl := List.mem_singleton.1 hg
      cases he with
      | number hinfinite =>
        rw [hfinite] at hinfinite
        contradiction
    | false =>
      exact .inr ⟨.notFinite, evaluate_number_of_not_finite hfinite, .here (.number hfinite)⟩
  | binary op left right ihl ihr =>
    rcases ihl with ⟨hleft, hlefts⟩ | ⟨e, hleft, hfirst⟩
    · rcases ihr with ⟨hright, hrights⟩ | ⟨e, hright, hfirst⟩
      · have hoperands : ∀ g ∈ left.postorder ++ right.postorder, g.Sound := by
          intro g hg
          rcases List.mem_append.1 hg with hg | hg
          · exact hlefts g hg
          · exact hrights g hg
        rcases evaluate_own op hleft hright with ⟨hvalue, hsound⟩ | ⟨e, herror, hfails⟩
        · refine .inl ⟨hvalue, fun g hg => ?_⟩
          rcases List.mem_append.1 hg with hg | hg
          · exact hoperands g hg
          · obtain rfl := List.mem_singleton.1 hg
            exact hsound
        · exact .inr ⟨e, herror, .prepend hoperands (.here hfails)⟩
      · exact .inr ⟨e, evaluate_binary_of_right hleft hright,
          .append (.prepend hlefts hfirst) _⟩
    · refine .inr ⟨e, evaluate_binary_of_left hleft, ?_⟩
      rw [postorder, List.append_assoc]
      exact hfirst.append _

theorem evaluate_eq_ok_iff {f : Formula} {value : Float} :
    f.evaluate = .ok value ↔ (∀ g ∈ f.postorder, g.Sound) ∧ f.computed = value := by
  rcases f.evaluate_cases with ⟨hvalue, hsound⟩ | ⟨e, herror, hfirst⟩
  · rw [hvalue, Except.ok.injEq]
    exact ⟨fun h => ⟨hsound, h⟩, fun h => h.2⟩
  · rw [herror]
    exact ⟨fun h => by contradiction, fun h => absurd h.1 hfirst.not_sound⟩

theorem evaluate_eq_error_iff {f : Formula} {e : ArithmeticError} :
    f.evaluate = .error e ↔ FirstFails f.postorder e := by
  rcases f.evaluate_cases with ⟨hvalue, hsound⟩ | ⟨e', herror, hfirst⟩
  · rw [hvalue]
    exact ⟨fun h => by contradiction, fun h => absurd hsound h.not_sound⟩
  · rw [herror, Except.error.injEq]
    constructor
    · rintro rfl
      exact hfirst
    · exact hfirst.eq

theorem mem_postorder_self (f : Formula) : f ∈ f.postorder := by
  cases f with
  | number value => exact List.mem_singleton.2 rfl
  | binary op left right => exact List.mem_append_right _ (List.mem_singleton.2 rfl)

theorem isFinite_of_evaluate {f : Formula} {value : Float} (h : f.evaluate = .ok value) :
    value.isFinite = true := by
  obtain ⟨hsound, rfl⟩ := evaluate_eq_ok_iff.1 h
  have hself := hsound f f.mem_postorder_self
  by_contra hinfinite
  rw [Bool.not_eq_true] at hinfinite
  cases f with
  | number value => exact hself _ (.number hinfinite)
  | binary op left right =>
    by_cases hdivisor : op = .divide ∧ (right.computed = 0 ∨ right.computed = -0)
    · obtain ⟨rfl, hzero⟩ := hdivisor
      exact hself _ (.divisor hzero)
    · exact hself _ (.result (fun hop hzero => hdivisor ⟨hop, hzero⟩) hinfinite)

inductive Fault (text : String) : Failure → Prop
  | malformed {e : ParseError} : parse text = .error e → Fault text (.malformed e)
  | valueless {f : Formula} {e : ArithmeticError} : parse text = .ok f →
      FirstFails f.postorder e → Fault text (.valueless e)

theorem evaluateText_cases (text : String) (reasons : List Reason) :
    (∃ f value, parse text = .ok f ∧ f.evaluate = .ok value ∧
      evaluateText text reasons = ⟨.number value, reasons⟩) ∨
    ∃ failure, Fault text failure ∧
      evaluateText text reasons = ⟨.error, reasons ++ [.failure failure]⟩ := by
  rw [evaluateText, valueOf]
  cases hparse : parse text with
  | error e => exact .inr ⟨.malformed e, .malformed hparse, rfl⟩
  | ok f =>
    cases hvalue : f.evaluate with
    | ok value =>
      simp only [hvalue]
      exact .inl ⟨f, value, rfl, hvalue, rfl⟩
    | error e =>
      simp only [hvalue]
      exact .inr ⟨.valueless e, .valueless hparse (evaluate_eq_error_iff.1 hvalue), rfl⟩

/-- A formula has a value exactly when no subformula fails, and then it is the finite one that the
operations of doubles give. Otherwise it fails like the first subformula that does, each met behind
its operands and the left operand first. So a text has a finite value and the reasons it came with,
or the mark of an error and one reason more: the wording of what keeps it from having a value. -/
theorem evaluate_first_failure :
    (∀ (f : Formula) (value : Float), f.evaluate = .ok value ↔
      (∀ g ∈ f.postorder, g.Sound) ∧ f.computed = value) ∧
    (∀ (f : Formula) (e : ArithmeticError), f.evaluate = .error e ↔ FirstFails f.postorder e) ∧
    (∀ (f : Formula) (value : Float), f.evaluate = .ok value → value.isFinite = true) ∧
    ∀ (text : String) (reasons : List Reason) (wording : Wording),
      (∃ f value, parse text = .ok f ∧ f.evaluate = .ok value ∧ value.isFinite = true ∧
        (evaluateText text reasons).value = .number value ∧
        (evaluateText text reasons).texts wording = reasons.map (Reason.text wording)) ∨
      ∃ failure, Fault text failure ∧ (evaluateText text reasons).value = .error ∧
        (evaluateText text reasons).texts wording =
          reasons.map (Reason.text wording) ++ [wording failure.message] := by
  refine ⟨fun f value => evaluate_eq_ok_iff, fun f e => evaluate_eq_error_iff,
    fun f value => isFinite_of_evaluate, fun text reasons wording => ?_⟩
  rcases evaluateText_cases text reasons with
    ⟨f, value, hparse, hvalue, heq⟩ | ⟨failure, hfault, heq⟩
  · rw [heq]
    exact .inl ⟨f, value, hparse, hvalue, isFinite_of_evaluate hvalue, rfl, rfl⟩
  · rw [heq]
    refine .inr ⟨failure, hfault, rfl, ?_⟩
    rw [Evaluation.texts, List.map_append]
    rfl

end Formula

end FormulaLedger
