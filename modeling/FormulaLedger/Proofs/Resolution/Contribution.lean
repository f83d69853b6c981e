import FormulaLedger.Proofs.Formula.Operand
import FormulaLedger.Proofs.Sheet.Aggregates
import FormulaLedger.Resolution.Basic

set_option autoImplicit false

namespace FormulaLedger

structure Contribution where
  number : Float
  reasons : List Reason

namespace Contribution

def none : Contribution := ⟨0, []⟩

def unresolved (oddity : Oddity) (subject : String) : Contribution := ⟨0, [.about oddity subject]⟩

/-- A number that is not finite contributes zero, and so does a zero of either sign. -/
def ofNumber (x : Float) (subject : String) : Contribution :=
  if x.isFinite then ⟨Number.unsignedZero x, []⟩ else unresolved .notFinite subject

def ofNested (options : Options) (uniqueId : String) (e : Evaluation) : Contribution :=
  match e.value with
  | .error => ⟨0, e.reasons⟩
  | .number x =>
    let shown := if options.includeNestedReasons then e.reasons else []
    ⟨(ofNumber x uniqueId).number, shown ++ (ofNumber x uniqueId).reasons⟩

end Contribution

namespace Setting

variable (s : Setting)

/-- The first sample at the company's location, or else, if that is allowed, the first at the
default location. -/
def constantContribution (uniqueId : String) : Option Constant → Contribution
  | none => .unresolved .constantUnresolved uniqueId
  | some c =>
    match c.samples.find? fun x => x.location == s.company.location with
    | some sample => .ofNumber sample.value uniqueId
    | none =>
      if s.options.fallbackToDefault then
        match c.samples.find? fun x => x.location == s.options.defaultLocation with
        | some sample => .ofNumber sample.value uniqueId
        | none => .unresolved .constantUnresolved uniqueId
      else .unresolved .constantUnresolved uniqueId

/-- The sheet that is given for the company and its period. -/
def sheetFor? (materialId : String) : Option Sheet :=
  (s.materials.find? fun entry => entry.1.companyId == s.company.id &&
    entry.1.period == s.company.period && entry.1.materialId == materialId).map Prod.snd

def cellContribution (materialId : String) (row column : Nat) : Contribution :=
  let subject := cellAddress materialId row column
  match s.sheetFor? materialId with
  | none => .unresolved .cellUnresolved subject
  | some sheet =>
    match sheet.placed.find? fun x => x.1 == (row, column) with
    | none => .unresolved .cellUnresolved subject
    | some (_, .empty) => .none
    | some (_, cell) =>
      match cell.reading?.filter Float.isFinite with
      | none => .unresolved .cellNotNumeric subject
      | some x => .ofNumber x subject

def aggregateContribution (materialId : String) (scope : Scope) (function : AggregateFunction) :
    Contribution :=
  match s.sheetFor? materialId with
  | none => .unresolved .materialUnresolved materialId
  | some sheet => .ofNumber (sheet.aggregate scope function) materialId

end Setting

theorem operandText_unsignedZero (x : Float) :
    operandText (Number.unsignedZero x) = operandText x := by
  rw [Number.unsignedZero]
  by_cases hzero : (x == 0) = true
  · have htext : operandText 0 = "0" := rfl
    rw [if_pos hzero, htext, operandText, if_pos hzero]
  · rw [if_neg hzero]

theorem unsignedZero_unsignedZero (x : Float) :
    Number.unsignedZero (Number.unsignedZero x) = Number.unsignedZero x := by
  by_cases hzero : (x == 0) = true
  · have h : Number.unsignedZero x = 0 := if_pos hzero
    rw [h]
    decide +kernel
  · have h : Number.unsignedZero x = x := if_neg hzero
    rw [h, h]

namespace Contribution

structure Plain (k : Contribution) : Prop where
  finite : k.number.isFinite = true
  unsigned : Number.unsignedZero k.number = k.number

theorem plain_zero (reasons : List Reason) : Plain ⟨0, reasons⟩ := by
  have hfinite : (0 : Float).isFinite = true := by decide +kernel
  have hunsigned : Number.unsignedZero 0 = 0 := by decide +kernel
  exact ⟨hfinite, hunsigned⟩

/-- A resolved operand stands for a contribution. -/
structure Stands (k : Contribution) (r : Resolution) : Prop where
  plain : k.Plain
  eq : r = ⟨operandText k.number, k.reasons⟩

theorem Stands.exists_operand {k : Contribution} {r : Resolution} (h : k.Stands r) :
    ∃ x : Float, x.isFinite = true ∧ r.text = operandText x := by
  have htext : r.text = operandText k.number := by rw [h.eq]
  exact ⟨k.number, h.plain.finite, htext⟩

theorem stands_zero (reasons : List Reason) : Stands ⟨0, reasons⟩ ⟨"0", reasons⟩ := by
  have htext : operandText 0 = "0" := rfl
  constructor
  · exact plain_zero reasons
  · rw [htext]

theorem stands_ofNumber (x : Float) (subject : String) :
    (ofNumber x subject).Stands (.ofNumber x subject) := by
  rw [ofNumber, Resolution.ofNumber]
  by_cases hx : x.isFinite = true
  · rw [if_pos hx, if_pos hx]
    constructor
    · exact ⟨Number.isFinite_unsignedZero hx, unsignedZero_unsignedZero x⟩
    · rw [operandText_unsignedZero]
  · rw [if_neg hx, if_neg hx]
    exact stands_zero _

theorem stands_ofNested (s : Setting) (uniqueId : String) (e : Evaluation) :
    (ofNested s.options uniqueId e).Stands (s.resolveNested uniqueId e) := by
  rw [ofNested, Setting.resolveNested]
  cases e.value with
  | error => exact stands_zero e.reasons
  | number x =>
    obtain ⟨hplain, heq⟩ := stands_ofNumber x uniqueId
    constructor
    · exact ⟨hplain.finite, hplain.unsigned⟩
    · simp only [heq]

end Contribution

namespace Setting

variable (s : Setting)

theorem stands_constant (uniqueId : String) (found : Option Constant) :
    (s.constantContribution uniqueId found).Stands (s.resolveConstant uniqueId (.ok found)) := by
  cases found with
  | none => exact Contribution.stands_zero _
  | some c =>
    unfold constantContribution resolveConstant
    dsimp only [Option.bind_some]
    rw [Constant.resolve?, defaultLocation?]
    rw [← Constant.sampleFor?, ← Constant.sampleFor?]
    cases c.sampleFor? s.company.location with
    | some sample => exact Contribution.stands_ofNumber sample.value uniqueId
    | none =>
      dsimp only [Option.none_or]
      by_cases hfallback : s.options.fallbackToDefault = true
      · rw [if_pos hfallback, if_pos hfallback, Option.bind_some]
        cases c.sampleFor? s.options.defaultLocation with
        | some sample => exact Contribution.stands_ofNumber sample.value uniqueId
        | none => exact Contribution.stands_zero _
      · rw [if_neg hfallback, if_neg hfallback, Option.bind_none]
        exact Contribution.stands_zero _

theorem sheetFor?_eq (materialId : String) :
    s.sheetFor? materialId = s.materials.sheet? s.company materialId := by
  rw [sheetFor?, Materials.sheet?]
  induction s.materials with
  | nil => rfl
  | cons entry entries ih =>
    obtain ⟨key, sheet⟩ := entry
    have hkey : (key.companyId == s.company.id && key.period == s.company.period &&
        key.materialId == materialId) =
          (⟨s.company.id, s.company.period, materialId⟩ == key) := by
      rw [Bool.eq_iff_iff, BEq.comm (a := (⟨s.company.id, s.company.period, materialId⟩ : SheetKey))]
      cases key with
      | mk companyId period material => simp [and_assoc]
    rw [List.find?_cons, List.lookup_cons, hkey]
    cases (⟨s.company.id, s.company.period, materialId⟩ : SheetKey) == key with
    | true => rfl
    | false => exact ih

theorem stands_reading (reading : Option Float) (subject : String) :
    Contribution.Stands
      (match reading with
        | none => .unresolved .cellNotNumeric subject
        | some x => .ofNumber x subject)
      (match reading with
        | some x => .ofNumber x subject
        | none => .zero .cellNotNumeric subject) := by
  cases reading with
  | none => exact Contribution.stands_zero _
  | some x => exact Contribution.stands_ofNumber x subject

theorem stands_cell (materialId : String) (row column : Nat) :
    (s.cellContribution materialId row column).Stands (s.resolveCell materialId row column) := by
  unfold cellContribution resolveCell
  rw [s.sheetFor?_eq]
  cases s.materials.sheet? s.company materialId with
  | none => exact Contribution.stands_zero _
  | some sheet =>
    rw [Option.bind_some, ← sheet.find?_placed]
    dsimp only
    cases sheet.placed.find? fun x => x.1 == (row, column) with
    | none => exact Contribution.stands_zero _
    | some found =>
      obtain ⟨place, cell⟩ := found
      rw [Option.map_some]
      cases cell with
      | empty => exact Contribution.stands_zero _
      | number x =>
        dsimp only
        rw [← Cell.number?_eq]
        exact stands_reading (Cell.number x).number? _
      | text t =>
        dsimp only
        rw [← Cell.number?_eq]
        generalize (Cell.text t).number? = reading
        exact stands_reading reading _

theorem stands_aggregate (materialId : String) (scope : Scope) (function : AggregateFunction) :
    (s.aggregateContribution materialId scope function).Stands
      (s.resolveAggregate materialId scope function) := by
  unfold aggregateContribution resolveAggregate
  rw [s.sheetFor?_eq]
  cases s.materials.sheet? s.company materialId with
  | none => exact Contribution.stands_zero _
  | some sheet =>
    dsimp only
    rw [sheet.aggregate_eq]
    exact Contribution.stands_ofNumber _ materialId

end Setting

end FormulaLedger
