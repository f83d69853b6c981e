import FormulaLedger.Proofs.Sheet.Criteria

set_option autoImplicit false

namespace FormulaLedger

theorem map_fst_filter_zipIdx {α : Type} (xs : List α) (i : Nat) :
    ((xs.zipIdx.filter fun x => x.2 == i).map Prod.fst) = xs[i]?.toList := by
  induction xs generalizing i with
  | nil => rfl
  | cons x xs ih =>
    rw [List.zipIdx_cons', List.filter_cons, List.filter_map]
    cases i with
    | zero => simp [Function.comp_def]
    | succ i => simp [Function.comp_def, ih]

def Text.Contains (text criteria : String) : Prop :=
  (∃ c ∈ lowerChars criteria.toList, isBlank c = false) ∧
    lowerChars criteria.toList <:+: lowerChars text.toList

instance (text criteria : String) : Decidable (Text.Contains text criteria) :=
  inferInstanceAs (Decidable (_ ∧ _))

namespace Cell

/-- The number in a cell, which need not be finite. -/
def reading? : Cell → Option Float
  | .number x => some x
  | .text t => Number.read? (Text.trim t)
  | .empty => none

def Shows (criteria : String) : Cell → Prop
  | .number x => Text.Contains (Number.text x) criteria
  | .text t => Text.Contains t criteria
  | .empty => False

instance (criteria : String) (cell : Cell) : Decidable (cell.Shows criteria) :=
  match cell with
  | .number _ => inferInstanceAs (Decidable (Text.Contains _ _))
  | .text _ => inferInstanceAs (Decidable (Text.Contains _ _))
  | .empty => inferInstanceAs (Decidable False)

theorem number?_eq (cell : Cell) : cell.number? = cell.reading?.filter Float.isFinite := by
  cases cell with
  | number x => rfl
  | text t =>
    rw [number?, reading?]
    cases Number.read? (Text.trim t) with
    | none => rfl
    | some x => rfl
  | empty => rfl

theorem shows_iff {criteria : String} {cell : Cell} :
    cell.Shows criteria ↔ meetsCriteria criteria cell = true := by
  have htext : ∀ t : String, Text.Contains t criteria ↔
      (!(Text.lowerChars criteria.toList).all Text.isBlank) = true ∧
        containsChars (Text.lowerChars criteria.toList) (Text.lowerChars t.toList) = true := by
    intro t
    rw [Text.Contains, containsChars_iff]
    simp
  cases cell with
  | number x => simp [Shows, meetsCriteria, isEmpty, display, htext]
  | text t => simp [Shows, meetsCriteria, isEmpty, display, htext]
  | empty => simp [Shows, meetsCriteria, isEmpty]

end Cell

def Scope.covers : Scope → Nat × Nat → Bool
  | .sheet, _ => true
  | .row r, place => place.1 == r
  | .column c, place => place.2 == c

namespace Sheet

variable (s : Sheet)

/-- The cells one row after the other, each with its row and column. -/
def placed : List ((Nat × Nat) × Cell) :=
  s.rows.zipIdx.flatMap fun row => row.1.zipIdx.map fun cell => ((row.2, cell.2), cell.1)

def covered (scope : Scope) : List Cell :=
  (s.placed.filter fun x => scope.covers x.1).map Prod.snd

def aggregate (scope : Scope) : AggregateFunction → Float
  | .sum =>
    ((s.covered scope).filterMap fun cell => cell.reading?.filter Float.isFinite).foldl (· + ·) 0
  | .countIf criteria => Float.ofNat ((s.covered scope).filter (·.Shows criteria)).length

theorem map_snd_filter_placed (p q : Nat → Bool) :
    ((s.placed.filter fun x => p x.1.1 && q x.1.2).map Prod.snd) =
      ((s.rows.zipIdx.filter fun row => p row.2).map Prod.fst).flatMap fun cells =>
        (cells.zipIdx.filter fun cell => q cell.2).map Prod.fst := by
  rw [placed]
  induction s.rows.zipIdx with
  | nil => rfl
  | cons row rows ih =>
    rw [List.flatMap_cons, List.filter_append, List.map_append, ih, List.filter_cons]
    cases hp : p row.2 with
    | false => simp [List.filter_map, Function.comp_def, hp]
    | true => simp [List.filter_map, Function.comp_def, hp]

theorem covered_eq (scope : Scope) : s.covered scope = s.scope scope := by
  cases scope with
  | sheet =>
    have h := s.map_snd_filter_placed (fun _ => true) (fun _ => true)
    simpa [covered, Scope.covers, scope, cells, List.flatMap_id'] using h
  | row r =>
    have h := s.map_snd_filter_placed (· == r) (fun _ => true)
    rw [map_fst_filter_zipIdx] at h
    rw [scope, row]
    cases hr : s.rows[r]? with
    | none => simpa [covered, Scope.covers, hr] using h
    | some cells => simpa [covered, Scope.covers, hr] using h
  | column c =>
    have h := s.map_snd_filter_placed (fun _ => true) (· == c)
    simpa [covered, Scope.covers, scope, column, map_fst_filter_zipIdx,
      List.filterMap_eq_flatMap_toList] using h

theorem find?_placed (row column : Nat) :
    (s.placed.find? fun x => x.1 == (row, column)).map Prod.snd = s.cell? row column := by
  have h := s.map_snd_filter_placed (· == row) (· == column)
  simp only [map_fst_filter_zipIdx] at h
  rw [← List.head?_filter, ← List.head?_map, cell?]
  refine (congrArg List.head? h).trans ?_
  cases s.rows[row]? with
  | none => rfl
  | some cells => simp

theorem aggregate_eq (scope : Scope) (function : AggregateFunction) :
    s.aggregate scope function = function.apply (s.scope scope) := by
  cases function with
  | sum =>
    rw [aggregate, covered_eq, AggregateFunction.apply, sumCells]
    simp only [← Cell.number?_eq]
  | countIf criteria =>
    rw [aggregate, covered_eq, AggregateFunction.apply, countCells, List.countP_eq_length_filter]
    simp only [Cell.shows_iff, Bool.decide_eq_true]

end Sheet

end FormulaLedger
