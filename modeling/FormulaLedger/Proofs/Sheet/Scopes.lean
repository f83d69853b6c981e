import FormulaLedger.Aggregate
import Mathlib.Algebra.BigOperators.Group.Finset.Basic
import Mathlib.Data.List.Nodup

set_option autoImplicit false

namespace FormulaLedger

section indexing

variable {α β : Type}

theorem filterMap_range_getElem? (xs : List α) (f : α → Option β) :
    ((List.range xs.length).filterMap fun i => xs[i]?.bind f) = xs.filterMap f := by
  induction xs with
  | nil => rfl
  | cons x xs ih =>
    rw [List.length_cons, List.range_succ_eq_map, List.filterMap_cons, List.filterMap_map]
    simp [ih, List.filterMap_cons]

theorem map_range_getElem? (xs : List α) :
    ((List.range xs.length).map fun i => xs[i]?) = xs.map some := by
  induction xs with
  | nil => rfl
  | cons x xs ih =>
    rw [List.length_cons, List.range_succ_eq_map, List.map_cons, List.map_map]
    simp [ih, Function.comp_def]

theorem flatMap_range_getElem? (xs : List (List α)) :
    ((List.range xs.length).flatMap fun i => xs[i]?.getD []) = xs.flatten := by
  induction xs with
  | nil => rfl
  | cons x xs ih =>
    rw [List.length_cons, List.range_succ_eq_map, List.flatMap_cons, List.flatMap_map]
    simp [ih]

theorem countP_flatMap_range (p : α → Bool) (f : Nat → List α) (n : Nat) :
    ((List.range n).flatMap f).countP p = ∑ i ∈ Finset.range n, (f i).countP p := by
  induction n with
  | zero => rfl
  | succ n ih =>
    rw [List.range_succ, List.flatMap_append, List.countP_append, ih, Finset.sum_range_succ,
      List.flatMap_singleton]

end indexing

/-- The finite number that a cell holds, as a number or spelled out with blanks around it. -/
inductive Cell.Holds : Cell → Float → Prop
  | number {x : Float} : x.isFinite = true → Holds (.number x) x
  | text {s : String} {x : Float} : Number.read? (Text.trim s) = some x → x.isFinite = true →
      Holds (.text s) x

theorem Cell.number?_eq_some_iff {c : Cell} {x : Float} : c.number? = some x ↔ c.Holds x := by
  constructor
  · intro h
    cases c with
    | number y =>
      rw [number?] at h
      split at h
      · next hfinite =>
        cases h
        exact .number hfinite
      · contradiction
    | text s =>
      rw [number?] at h
      split at h
      · next y hread =>
        split at h
        · next hfinite =>
          cases h
          exact .text hread hfinite
        · contradiction
      · contradiction
    | empty => contradiction
  · intro h
    cases h with
    | number hfinite => exact if_pos hfinite
    | text hread hfinite => simp [number?, hread, hfinite]

namespace Sheet

variable {s : Sheet} {p : Nat × Nat}

def width (s : Sheet) : Nat := (s.rows.map List.length).foldr max 0

def rowPlaces (s : Sheet) (r : Nat) : List (Nat × Nat) :=
  (List.range (s.row r).length).map (r, ·)

def places (s : Sheet) : Scope → List (Nat × Nat)
  | .row r => s.rowPlaces r
  | .column c => ((List.range s.rows.length).filter fun r => (s.cell? r c).isSome).map (·, c)
  | .sheet => (List.range s.rows.length).flatMap s.rowPlaces

theorem cell?_eq (s : Sheet) (r c : Nat) : s.cell? r c = (s.row r)[c]? := by
  rw [cell?, row]
  cases s.rows[r]? with
  | none => rfl
  | some cells => rfl

theorem cell?_isSome_iff {r c : Nat} : (s.cell? r c).isSome = true ↔ c < (s.row r).length := by
  rw [cell?_eq]
  simp

theorem row_of_le {r : Nat} (h : s.rows.length ≤ r) : s.row r = [] := by
  rw [row, List.getElem?_eq_none h, Option.getD_none]

theorem lt_of_cell? {r c : Nat} (h : (s.cell? r c).isSome = true) : r < s.rows.length := by
  by_contra hle
  rw [cell?_isSome_iff, row_of_le (Nat.le_of_not_lt hle)] at h
  contradiction

theorem length_row_le (s : Sheet) (r : Nat) : (s.row r).length ≤ s.width := by
  rw [row, width]
  generalize s.rows = rows
  induction rows generalizing r with
  | nil => exact Nat.zero_le _
  | cons cells rows ih =>
    cases r with
    | zero => exact Nat.le_max_left ..
    | succ r => exact (ih r).trans (Nat.le_max_right ..)

theorem column_of_le {c : Nat} (h : s.width ≤ c) : s.column c = [] := by
  rw [column, ← filterMap_range_getElem?, List.filterMap_eq_nil_iff]
  intro r _
  change s.cell? r c = none
  rw [cell?_eq, List.getElem?_eq_none ((s.length_row_le r).trans h)]

theorem mem_rowPlaces {r : Nat} :
    p ∈ s.rowPlaces r ↔ p.1 = r ∧ (s.cell? p.1 p.2).isSome = true := by
  obtain ⟨i, j⟩ := p
  simp only [rowPlaces, List.mem_map, List.mem_range, Prod.mk.injEq, cell?_isSome_iff]
  constructor
  · rintro ⟨c, hc, rfl, rfl⟩
    exact ⟨rfl, hc⟩
  · rintro ⟨rfl, hc⟩
    exact ⟨j, hc, rfl, rfl⟩

theorem mem_places_column {c : Nat} :
    p ∈ s.places (.column c) ↔ p.2 = c ∧ (s.cell? p.1 p.2).isSome = true := by
  obtain ⟨i, j⟩ := p
  simp only [places, List.mem_map, List.mem_filter, List.mem_range, Prod.mk.injEq]
  constructor
  · rintro ⟨r, ⟨_, hr⟩, rfl, rfl⟩
    exact ⟨rfl, hr⟩
  · rintro ⟨rfl, hr⟩
    exact ⟨i, ⟨lt_of_cell? hr, hr⟩, rfl, rfl⟩

theorem mem_places_sheet : p ∈ s.places .sheet ↔ (s.cell? p.1 p.2).isSome = true := by
  simp only [places, List.mem_flatMap, List.mem_range, mem_rowPlaces]
  constructor
  · rintro ⟨_, _, _, hcell⟩
    exact hcell
  · exact fun hcell => ⟨p.1, lt_of_cell? hcell, rfl, hcell⟩

theorem nodup_places (s : Sheet) (scope : Scope) : (s.places scope).Nodup := by
  have hrow : ∀ r, (s.rowPlaces r).Nodup := fun r =>
    List.nodup_range.map fun _ _ h => (Prod.mk.inj h).2
  cases scope with
  | row r => exact hrow r
  | column c => exact (List.nodup_range.filter _).map fun _ _ h => (Prod.mk.inj h).1
  | sheet =>
    refine List.nodup_flatMap.2 ⟨fun r _ => hrow r, List.nodup_range.imp fun hne p hp hq => ?_⟩
    exact hne ((mem_rowPlaces.1 hp).1.symm.trans (mem_rowPlaces.1 hq).1)

theorem perm_places (s : Sheet) :
    ((List.range s.width).flatMap fun c => s.places (.column c)).Perm (s.places .sheet) := by
  have hnodup : ((List.range s.width).flatMap fun c => s.places (.column c)).Nodup := by
    refine List.nodup_flatMap.2
      ⟨fun c _ => s.nodup_places _, List.nodup_range.imp fun hne p hp hq => ?_⟩
    exact hne ((mem_places_column.1 hp).1.symm.trans (mem_places_column.1 hq).1)
  refine (List.perm_ext_iff_of_nodup hnodup (s.nodup_places _)).2 fun p => ?_
  simp only [List.mem_flatMap, List.mem_range, mem_places_column, mem_places_sheet]
  constructor
  · rintro ⟨_, _, _, hcell⟩
    exact hcell
  · intro hcell
    have hcolumn := (cell?_isSome_iff.1 hcell).trans_le (s.length_row_le p.1)
    exact ⟨p.2, hcolumn, rfl, hcell⟩

theorem flatMap_row (s : Sheet) : (List.range s.rows.length).flatMap s.row = s.cells :=
  flatMap_range_getElem? s.rows

theorem filterMap_cell? (s : Sheet) (c : Nat) :
    ((List.range s.rows.length).filterMap fun r => s.cell? r c) = s.column c :=
  filterMap_range_getElem? s.rows _

theorem map_cell?_places (s : Sheet) (scope : Scope) :
    ((s.places scope).map fun p => s.cell? p.1 p.2) = (s.scope scope).map some := by
  have hrow : ∀ r, ((s.rowPlaces r).map fun p => s.cell? p.1 p.2) = (s.row r).map some := by
    intro r
    rw [rowPlaces, List.map_map, ← map_range_getElem?]
    exact List.map_congr_left fun c _ => s.cell?_eq r c
  cases scope with
  | row r => exact hrow r
  | column c =>
    rw [scope, ← filterMap_cell?, List.map_filterMap_some_eq_filter_map_isSome, places,
      List.map_map, List.filter_map]
    rfl
  | sheet =>
    rw [scope, ← flatMap_row, List.map_flatMap, places, List.map_flatMap]
    exact List.flatMap_congr fun r _ => hrow r

theorem scope_eq (s : Sheet) (scope : Scope) :
    s.scope scope = (s.places scope).filterMap fun p => s.cell? p.1 p.2 := by
  have hcells := congrArg (List.filterMap id) (s.map_cell?_places scope)
  rw [List.filterMap_map, List.filterMap_map] at hcells
  simpa using hcells.symm

theorem perm_columns (s : Sheet) :
    ((List.range s.width).flatMap fun c => s.scope (.column c)).Perm (s.scope .sheet) := by
  have hcells := s.perm_places.filterMap fun p => s.cell? p.1 p.2
  rw [List.filterMap_flatMap, ← scope_eq] at hcells
  simpa only [← scope_eq] using hcells

structure Partitioned (s : Sheet) : Prop where
  sheet : s.scope .sheet = (List.range s.rows.length).flatMap fun r => s.scope (.row r)
  row : ∀ r c, (s.scope (.row r))[c]? = s.cell? r c
  column : ∀ c, s.scope (.column c) = (List.range s.rows.length).filterMap fun r => s.cell? r c
  places : ∀ scope, ((s.places scope).map fun p => s.cell? p.1 p.2) = (s.scope scope).map some
  present : ∀ p, p ∈ s.places .sheet ↔ (s.cell? p.1 p.2).isSome = true
  once : (s.places .sheet).Nodup
  /-- Every place stands in one column once. -/
  columns : ((List.range s.width).flatMap fun c => s.places (.column c)).Perm (s.places .sheet)
  row_outside : ∀ r, s.rows.length ≤ r → s.scope (.row r) = []
  column_outside : ∀ c, s.width ≤ c → s.scope (.column c) = []

theorem partitioned (s : Sheet) : s.Partitioned where
  sheet := s.flatMap_row.symm
  row r c := (s.cell?_eq r c).symm
  column c := (s.filterMap_cell? c).symm
  places := s.map_cell?_places
  present _ := mem_places_sheet
  once := s.nodup_places .sheet
  columns := s.perm_places
  row_outside _ h := row_of_le h
  column_outside _ h := column_of_le h

theorem countCells_rows (s : Sheet) (criteria : String) : countCells criteria (s.scope .sheet) =
    ∑ r ∈ Finset.range s.rows.length, countCells criteria (s.scope (.row r)) := by
  rw [s.partitioned.sheet, countCells, countP_flatMap_range]
  rfl

theorem countCells_columns (s : Sheet) (criteria : String) :
    countCells criteria (s.scope .sheet) =
      ∑ c ∈ Finset.range s.width, countCells criteria (s.scope (.column c)) := by
  rw [countCells, ← s.perm_columns.countP_eq, countP_flatMap_range]
  rfl

def addends (s : Sheet) (scope : Scope) : List ((Nat × Nat) × Float) :=
  (s.places scope).filterMap fun p => ((s.cell? p.1 p.2).bind Cell.number?).map (p, ·)

theorem map_fst_addends_sublist (s : Sheet) (scope : Scope) :
    ((s.addends scope).map Prod.fst).Sublist (s.places scope) := by
  rw [addends]
  induction s.places scope with
  | nil => exact .slnil
  | cons p ps ih =>
    rw [List.filterMap_cons]
    cases (s.cell? p.1 p.2).bind Cell.number? with
    | none => exact ih.cons p
    | some x => exact ih.cons_cons p

theorem mem_addends {scope : Scope} {x : Float} : (p, x) ∈ s.addends scope ↔
    p ∈ s.places scope ∧ ∃ cell, s.cell? p.1 p.2 = some cell ∧ cell.Holds x := by
  simp only [addends, List.mem_filterMap, Option.map_eq_some_iff, Prod.mk.injEq,
    Option.bind_eq_some_iff, Cell.number?_eq_some_iff]
  constructor
  · rintro ⟨_, hplace, _, hcell, rfl, rfl⟩
    exact ⟨hplace, hcell⟩
  · exact fun ⟨hplace, hcell⟩ => ⟨p, hplace, x, hcell, rfl, rfl⟩

theorem sum_eq (s : Sheet) (scope : Scope) : AggregateFunction.sum.apply (s.scope scope) =
    ((s.addends scope).map Prod.snd).foldl (· + ·) 0 := by
  rw [AggregateFunction.apply, sumCells, scope_eq, List.filterMap_filterMap, addends,
    List.map_filterMap]
  simp only [Option.map_map, Function.comp_def, Option.map_id']

/-- The scopes of a sheet divide its places among them. So a count over the sheet is the sum of the
counts over its rows and of those over its columns, and a total takes in, in the order of the scope,
the cells of the scope that hold a finite number. -/
theorem scopes_partition (s : Sheet) : s.Partitioned ∧
    (∀ criteria, countCells criteria (s.scope .sheet) =
        ∑ r ∈ Finset.range s.rows.length, countCells criteria (s.scope (.row r)) ∧
      countCells criteria (s.scope .sheet) =
        ∑ c ∈ Finset.range s.width, countCells criteria (s.scope (.column c)) ∧
      ∀ scope, (AggregateFunction.countIf criteria).apply (s.scope scope) =
        Float.ofNat (countCells criteria (s.scope scope))) ∧
    ∀ scope, ∃ taken : List ((Nat × Nat) × Float),
      (taken.map Prod.fst).Sublist (s.places scope) ∧
      (∀ p x, (p, x) ∈ taken ↔
        p ∈ s.places scope ∧ ∃ cell, s.cell? p.1 p.2 = some cell ∧ cell.Holds x) ∧
      AggregateFunction.sum.apply (s.scope scope) = (taken.map Prod.snd).foldl (· + ·) 0 :=
  ⟨s.partitioned,
    fun criteria => ⟨s.countCells_rows criteria, s.countCells_columns criteria, fun _ => rfl⟩,
    fun scope => ⟨s.addends scope, s.map_fst_addends_sublist scope, fun _ _ => mem_addends,
      s.sum_eq scope⟩⟩

end Sheet

end FormulaLedger
