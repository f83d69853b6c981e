import FormulaLedger.Proofs.Resolution.Contribution
import FormulaLedger.Proofs.Resolution.Outline
import FormulaLedger.Proofs.Resolution.Requests

set_option autoImplicit false

namespace FormulaLedger

theorem always_resolvePointer (s : Setting) (resolving : List String)
    (enter : Calculation → Program Evaluation) (p : Pointer) :
    (resolvePointer Program.lookups s resolving enter p).Always fun r =>
      ∃ x : Float, x.isFinite = true ∧ r.text = p.filled x := by
  obtain ⟨label, target⟩ := p
  have hentered : ∀ c, (enter c).Always fun _ => True := fun c => (enter c).always_any
  refine (s.always_resolves resolving hentered ⟨label, target⟩).mono fun r hr => ?_
  cases hr with
  | literal text => exact ⟨0, by decide +kernel, rfl⟩
  | constant uniqueId found =>
    cases found with
    | error e => exact (Contribution.stands_zero _).exists_operand
    | ok found => exact (s.stands_constant uniqueId found).exists_operand
  | unresolved uniqueId => exact (Contribution.stands_zero _).exists_operand
  | nested uniqueId => exact (Contribution.stands_ofNested s uniqueId _).exists_operand
  | cell materialId row column => exact (s.stands_cell materialId row column).exists_operand
  | aggregate materialId scope function =>
    exact (s.stands_aggregate materialId scope function).exists_operand

theorem Assigned.exists_of_texts {ps : List Pointer} {parts : List Resolution}
    (h : List.Forall₂ (fun p r => ∃ x : Float, x.isFinite = true ∧ r.text = p.filled x) ps parts) :
    ∃ as : Assigned, as.pointers = ps ∧ (∀ a ∈ as, a.2.isFinite = true) ∧
      parts.map (·.text) = as.map fun a => a.1.filled a.2 := by
  induction h with
  | nil => exact ⟨[], rfl, fun a ha => by contradiction, rfl⟩
  | @cons p r ps parts hp _ ih =>
    obtain ⟨x, hx, htext⟩ := hp
    obtain ⟨as, hpointers, hfinite, htexts⟩ := ih
    have hcons : ∀ a ∈ (p, x) :: as, a.2.isFinite = true := by
      intro a ha
      rcases List.mem_cons.1 ha with rfl | ha
      · exact hx
      · exact hfinite a ha
    have htexts' : (r :: parts).map (·.text) = ((p, x) :: as).map fun a => a.1.filled a.2 := by
      simp [htext, htexts]
    exact ⟨(p, x) :: as, congrArg (p :: ·) hpointers, hcons, htexts'⟩

theorem always_resolveWith (s : Setting) (resolving : List String)
    (enter : Calculation → Program Evaluation) (ps : List Pointer) :
    (resolveWith Program.lookups s resolving enter ps).Always fun r =>
      ∃ as : Assigned, as.pointers = ps ∧ (∀ a ∈ as, a.2.isFinite = true) ∧ r.text = as.text := by
  have hparts := Program.Always.mapM (always_resolvePointer s resolving enter) ps
  apply hparts.bind
  intro parts h
  obtain ⟨as, hpointers, hfinite, htexts⟩ := Assigned.exists_of_texts h
  have htext : (Resolution.join parts).text = as.text := by
    simp [Resolution.join, Assigned.text, htexts]
  exact Program.always_pure ⟨as, hpointers, hfinite, htext⟩

/-- An evaluation that fails does so for want of a value of its own text, which is the last of its
reasons. -/
def Evaluation.FailsByValue (e : Evaluation) : Prop :=
  e.value = .error → ∃ reasons,
    e.reasons = reasons ++ [.failure (.valueless .divisionByZero)] ∨
      e.reasons = reasons ++ [.failure (.valueless .notFinite)]

theorem failsByValue_evaluateText {text : String} {f : Formula} (h : Formula.parse text = .ok f)
    (reasons : List Reason) : (evaluateText text reasons).FailsByValue := by
  intro herror
  rw [evaluateText, Formula.valueOf, h] at herror ⊢
  dsimp only at herror ⊢
  cases hvalue : f.evaluate with
  | ok value =>
    rw [hvalue] at herror
    contradiction
  | error e =>
    cases e with
    | divisionByZero => exact ⟨reasons, .inl rfl⟩
    | notFinite => exact ⟨reasons, .inr rfl⟩

namespace Draft

open Formula

def filled (d : Draft) (number : Nat → Float) : String :=
  " ".intercalate (d.expression.mapIdx fun i p => p.filled (number i))

def grafts (d : Draft) (number : Nat → Float) : List (Option Formula) :=
  (d.expression.mapIdx fun i p => p.grafts (ofOperand (number i))).flatten

def assign (d : Draft) (number : Nat → Float) : Assigned :=
  d.expression.mapIdx fun i p => (p, number i)

theorem map_mapIdx {α β : Type} (as : List Pointer) (f : Nat → Pointer → α) (g : α → β) :
    (as.mapIdx f).map g = as.mapIdx fun i p => g (f i p) := by
  rw [List.mapIdx_eq_zipIdx_map, List.mapIdx_eq_zipIdx_map, List.map_map]
  rfl

theorem pointers_assign (d : Draft) (number : Nat → Float) :
    (d.assign number).pointers = d.expression := by
  rw [assign, Assigned.pointers, map_mapIdx, List.mapIdx_eq_iff]
  intro i
  exact (Option.map_id' (x := d.expression[i]?)).symm

theorem text_assign (d : Draft) (number : Nat → Float) :
    (d.assign number).text = d.filled number := by
  rw [assign, Assigned.text, map_mapIdx, filled]

theorem grafts_assign (d : Draft) (number : Nat → Float) :
    (d.assign number).grafts = d.grafts number := by
  rw [assign, Assigned.grafts, List.flatMap_def, map_mapIdx, grafts]

theorem mem_assign {d : Draft} {number : Nat → Float} {a : Pointer × Float}
    (ha : a ∈ d.assign number) : ∃ i, a.2 = number i := by
  obtain ⟨i, _, rfl⟩ := List.mem_mapIdx.1 ha
  exact ⟨i, rfl⟩

variable {d : Draft} {uniqueId : String} {f : Formula}

theorem parse_filled (hf : parse d.outline = .ok f) {number : Nat → Float}
    (hfinite : ∀ i, (number i).isFinite = true) :
    ∃ g, parse (d.filled number) = .ok g ∧ Grafts (d.grafts number) f g := by
  have houtline : parse (outline ⟨d.unit, (d.assign number).pointers⟩) = .ok f := by
    rw [pointers_assign]
    exact hf
  have hassigned : ∀ a ∈ d.assign number, a.2.isFinite = true := by
    intro a ha
    obtain ⟨i, hi⟩ := mem_assign ha
    rw [hi]
    exact hfinite i
  rw [← text_assign, ← grafts_assign]
  exact Assigned.parse_text hassigned houtline

theorem graft_zeros (hf : parse d.outline = .ok f) : f.graft (d.grafts fun _ => 0) = f := by
  have hzero : (0 : Float).isFinite = true := by decide +kernel
  obtain ⟨g, _, hgrafts⟩ := @parse_filled d f hf (fun _ => 0) fun _ => hzero
  rw [← hgrafts.eq_graft]
  apply hgrafts.eq_of_zeros
  intro h hh
  rw [grafts, List.mem_flatten] at hh
  obtain ⟨gs, hgs, hh⟩ := hh
  obtain ⟨i, _, rfl⟩ := List.mem_mapIdx.1 hgs
  exact Pointer.eq_of_mem_grafts hh

theorem parse_of_check (h : d.check uniqueId = .ok ()) : ∃ f, parse d.outline = .ok f := by
  rw [check] at h
  split at h
  · contradiction
  split at h
  · contradiction
  split at h
  · contradiction
  cases hparse : parse d.outline with
  | error e =>
    rw [hparse] at h
    contradiction
  | ok f => exact ⟨f, rfl⟩

theorem check_of_parse (hid : Text.isBlankText uniqueId = false)
    (hempty : d.expression ≠ []) (hself : ∀ p ∈ d.expression, p.target ≠ .calculation uniqueId)
    (h : parse d.outline = .ok f) : d.check uniqueId = .ok () := by
  have hany : ¬ (d.expression.any fun p => p.target == .calculation uniqueId) = true := by
    rw [List.any_eq_true]
    rintro ⟨p, hp, htarget⟩
    exact hself p hp (eq_of_beq htarget)
  have hnil : ¬ d.expression.isEmpty = true := by
    rw [List.isEmpty_iff]
    exact hempty
  rw [check, hid, if_neg Bool.false_ne_true, if_neg hnil, if_neg hany, h]

end Draft

/-- A row that passed its check is evaluated to a value or fails for want of one, whatever a store
answers. -/
theorem always_evaluateWithin {c : Calculation} (h : c.draft.check c.uniqueId = .ok ())
    (s : Setting) (depth : Nat) (resolving : List String) :
    (evaluateWithin Program.lookups s (depth + 1) resolving c).Always Evaluation.FailsByValue := by
  obtain ⟨f, hf⟩ := Draft.parse_of_check h
  apply (always_resolveWith s _ _ c.expression).bind
  intro r hr
  obtain ⟨as, hpointers, hfinite, htext⟩ := hr
  have houtline : Formula.parse (Draft.outline ⟨c.unit, as.pointers⟩) = .ok f := by
    rw [hpointers]
    exact hf
  obtain ⟨g, hg, _⟩ := Assigned.parse_text hfinite houtline
  rw [← htext] at hg
  exact Program.always_pure (failsByValue_evaluateText hg r.reasons)

/-- The check accepts a draft exactly when every text its pointers can resolve to is a formula. Then
that formula is the one checked, with the numbers in place of the zeros that stand for references,
and the evaluation of a checked row never meets a text that is no formula. -/
theorem Draft.check_iff_filled {d : Draft} {uniqueId : String}
    (hid : Text.isBlankText uniqueId = false) (hempty : d.expression ≠ [])
    (hself : ∀ p ∈ d.expression, p.target ≠ .calculation uniqueId) :
    (d.check uniqueId = .ok () ↔ ∀ number : Nat → Float, (∀ i, (number i).isFinite = true) →
      ∃ g, Formula.parse (d.filled number) = .ok g) ∧
    (d.check uniqueId = .ok () → ∃ f, Formula.parse d.outline = .ok f ∧
      f.graft (d.grafts fun _ => 0) = f ∧
      ∀ number : Nat → Float, (∀ i, (number i).isFinite = true) →
        Formula.parse (d.filled number) = .ok (f.graft (d.grafts number)) ∧
          (d.grafts number).length = f.leaves) ∧
    ∀ c : Calculation, c.draft.check c.uniqueId = .ok () → ∀ (s : Setting) (depth : Nat)
      (resolving : List String),
      (∀ store : Store,
        (Id.run (evaluateWithin store.lookups s (depth + 1) resolving c)).FailsByValue) ∧
      ∀ (σ : Type) (answer : σ → (r : Request) → r.Result × σ) (state : σ),
        ((evaluateWithin Program.lookups s (depth + 1) resolving c).runWith answer
          state).1.FailsByValue := by
  refine ⟨⟨fun hcheck number hfinite => ?_, fun hall => ?_⟩, fun hcheck => ?_, ?_⟩
  · obtain ⟨f, hf⟩ := parse_of_check hcheck
    obtain ⟨g, hg, _⟩ := parse_filled hf hfinite
    exact ⟨g, hg⟩
  · -- with a negative number for each reference the text nests as deep as the outline
    have hone : (-1 : Float).isFinite = true ∧ ¬ ((-1 : Float) == 0) = true ∧ (-1 : Float) < 0 := by
      decide +kernel
    obtain ⟨g, hg⟩ := hall (fun _ => -1) fun _ => hone.1
    rw [← text_assign] at hg
    have hvalue : ∀ a ∈ d.assign (fun _ => -1), a.2 = -1 := by
      intro a ha
      obtain ⟨_, hi⟩ := mem_assign ha
      exact hi
    have hfinite : ∀ a ∈ d.assign (fun _ => -1), a.2.isFinite = true := by
      intro a ha
      rw [hvalue a ha]
      exact hone.1
    have hnegative : ∀ a ∈ d.assign (fun _ => -1), ¬ (a.2 == 0) = true ∧ a.2 < 0 := by
      intro a ha
      rw [hvalue a ha]
      exact hone.2
    obtain ⟨f, hf⟩ := Assigned.parse_outline d.unit hfinite hnegative hg
    rw [pointers_assign] at hf
    exact check_of_parse hid hempty hself hf
  · obtain ⟨f, hf⟩ := parse_of_check hcheck
    refine ⟨f, hf, graft_zeros hf, fun number hfinite => ?_⟩
    obtain ⟨g, hg, hgrafts⟩ := parse_filled hf hfinite
    rw [← hgrafts.eq_graft]
    exact ⟨hg, hgrafts.length_eq⟩
  · intro c hcheck s depth resolving
    have halways := always_evaluateWithin hcheck s depth resolving
    refine ⟨fun store => ?_, fun σ answer state => halways.runWith answer state⟩
    have hrun := halways.runWith Store.answer store
    rw [← Program.run, run_evaluateWithin] at hrun
    exact hrun

def Draft.halved : Draft :=
  ⟨"kg", [.of (.literal "(2 *"), .of (.constant "density"), .of (.literal ") / 4")]⟩

theorem Draft.check_iff_filled_halved : Draft.halved.check "half" = .ok () ∧
    Formula.parse (Draft.halved.filled fun _ => -3) = .ok (.binary .divide
      (.binary .multiply (.number 2) (.binary .subtract (.number 0) (.number 3))) (.number 4)) := by
  have hall := @Draft.check_iff_filled .halved "half" (by decide) (by decide) (by decide)
  have hcheck : Draft.halved.check "half" = .ok () := by decide +kernel
  have houtline : Formula.parse Draft.halved.outline = .ok (.binary .divide
      (.binary .multiply (.number 2) (.number 0)) (.number 4)) := by decide +kernel
  obtain ⟨f, hf, _, hparse⟩ := hall.2.1 hcheck
  rw [houtline] at hf
  have hfinite : (-3 : Float).isFinite = true := by decide +kernel
  rw [(hparse (fun _ => -3) fun _ => hfinite).1, ← Except.ok.inj hf]
  exact ⟨hcheck, by decide +kernel⟩

end FormulaLedger
