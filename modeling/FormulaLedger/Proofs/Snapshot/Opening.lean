import FormulaLedger.Proofs.Versioning.Admission
import FormulaLedger.Proofs.Versioning.Effect
import FormulaLedger.Snapshot
import Mathlib.Data.List.Induction

set_option autoImplicit false

namespace FormulaLedger

open Procedure Versioning

def MaterialEntry.key (e : MaterialEntry) : SheetKey :=
  ⟨e.companyId, e.period, e.sheet.materialId⟩

namespace Snapshot

inductive Entry
  | constant (c : Constant)
  | calculation (e : CalculationEntry)
  | report (e : ReportEntry)
  deriving DecidableEq, Repr

namespace Entry

def constant? : Entry → Option Constant
  | .constant c => some c
  | _ => none

def calculation? : Entry → Option CalculationEntry
  | .calculation e => some e
  | _ => none

def report? : Entry → Option ReportEntry
  | .report e => some e
  | _ => none

def enter : Entry → Procedure Unit
  | .constant c => createConstant c
  | .calculation e => e.enter
  | .report e => e.enter

end Entry

def entries (s : Snapshot) : List Entry :=
  s.constants.map .constant ++ s.calculations.map .calculation ++ s.reports.map .report

def ofEntries (es : List Entry) : Snapshot :=
  ⟨es.filterMap Entry.constant?, es.filterMap Entry.calculation?, [], es.filterMap Entry.report?⟩

def constantIds (s : Snapshot) : List String := s.constants.map (·.uniqueId)

def calculationIds (s : Snapshot) : List String := s.calculations.map (·.uniqueId)

def reportNames (s : Snapshot) : List String := s.reports.map (·.name)

def Entry.fault? (s : Snapshot) : Entry → Option LedgerError
  | .constant c =>
    if Text.isBlankText c.uniqueId then some (.invalid (.expression .blankId))
    else if c.uniqueId ∈ s.constantIds then some (.alreadyExists .constant c.uniqueId)
    else none
  | .calculation e =>
    match e.draft with
    | .error fault => some (.invalid fault)
    | .ok d =>
      match d.check e.uniqueId with
      | .error fault => some (.invalid (.expression fault))
      | .ok () =>
        if e.uniqueId ∈ s.calculationIds then some (.alreadyExists .calculation e.uniqueId)
        else none
  | .report e =>
    match e.calculations.find? fun u => u ∉ s.calculationIds with
    | some u => some (.calculationNotFound u)
    | none =>
      if e.name ∈ s.reportNames then some (.store (.duplicateReport e.name)) else none

/-- Every entry can be entered, wherever it stands. -/
structure Acceptable (s : Snapshot) : Prop where
  named : ∀ c ∈ s.constants, Text.isBlankText c.uniqueId = false
  constants : s.constantIds.Nodup
  drafts : ∀ e ∈ s.calculations, ∃ d, e.draft = .ok d ∧ d.WellFormed e.uniqueId
  calculations : s.calculationIds.Nodup
  listed : ∀ e ∈ s.reports, ∀ u ∈ e.calculations, u ∈ s.calculationIds
  reports : s.reportNames.Nodup

/-- The id of a calculation's row: calculations are numbered from one on. -/
def rowId (s : Snapshot) (u : String) : RowId := s.calculationIds.idxOf u + 1

/-- The store holds the constants, a row for each calculation, which is its first version and the
latest, and the reports with the ids of these rows. -/
structure HeldBy (s : Snapshot) (t : Store) : Prop where
  constants : t.constants = s.constants
  lastId : t.lastId = s.calculations.length
  rows : t.rows.map .ok =
    s.calculations.mapIdx fun i e => e.draft.map fun d => ⟨i + 1, e.uniqueId, 1, true, d⟩
  versions : t.versions = t.rows.map Calculation.indexEntry
  reports : t.reports = s.reports.map fun e => ⟨e.name, e.calculations.map s.rowId⟩

structure Opens (s : Snapshot) (t : Store) : Prop where
  acceptable : s.Acceptable
  held : s.HeldBy t
  chained : t.Chained

theorem opens_empty : (ofEntries []).Opens Store.empty where
  acceptable := ⟨by simp [ofEntries], .nil, by simp [ofEntries], .nil, by simp [ofEntries], .nil⟩
  held := ⟨rfl, rfl, rfl, rfl, rfl⟩
  chained := .empty

section

variable {s : Snapshot} {t : Store}

namespace HeldBy

theorem getElem?_rows (h : s.HeldBy t) {i : Nat} {c : Calculation} (hc : t.rows[i]? = some c) :
    ∃ e d, s.calculations[i]? = some e ∧ e.draft = .ok d ∧ c = ⟨i + 1, e.uniqueId, 1, true, d⟩ := by
  have hrow : (t.rows.map Except.ok)[i]? = some (.ok c : Except InputError Calculation) := by
    rw [List.getElem?_map, hc]
    rfl
  rw [h.rows, List.getElem?_mapIdx, Option.map_eq_some_iff] at hrow
  obtain ⟨e, he, hrow⟩ := hrow
  cases hdraft : e.draft with
  | error fault => simp [hdraft, Except.map] at hrow
  | ok d =>
    rw [hdraft] at hrow
    exact ⟨e, d, he, hdraft, (Except.ok.inj hrow).symm⟩

theorem length_rows (h : s.HeldBy t) : t.rows.length = s.calculations.length := by
  simpa using congrArg List.length h.rows

theorem uniqueIds (h : s.HeldBy t) : t.rows.map (·.uniqueId) = s.calculationIds := by
  refine List.ext_getElem? fun i => ?_
  rw [calculationIds, List.getElem?_map, List.getElem?_map]
  cases hc : t.rows[i]? with
  | some c =>
    obtain ⟨e, d, he, -, rfl⟩ := h.getElem?_rows hc
    rw [he]
    rfl
  | none =>
    have hnone : s.calculations[i]? = none := by
      rw [List.getElem?_eq_none_iff, ← h.length_rows]
      exact List.getElem?_eq_none_iff.1 hc
    rw [hnone]
    rfl

theorem reportNames (h : s.HeldBy t) : t.reportNames = s.reportNames := by
  rw [Store.reportNames, h.reports, List.map_map]
  rfl

theorem latestRows (h : s.HeldBy t) : t.latestRows = t.rows := by
  refine List.filter_eq_self.2 fun c hc => ?_
  obtain ⟨i, hi⟩ := List.mem_iff_getElem?.1 hc
  obtain ⟨e, d, -, -, rfl⟩ := h.getElem?_rows hi
  rfl

theorem revisions_eq_nil_iff (h : s.HeldBy t) {u : String} :
    t.revisions u = [] ↔ u ∉ s.calculationIds := by
  rw [← h.uniqueIds]
  simp [Store.revisions]

theorem oneLatest (h : s.HeldBy t) (hnodup : s.calculationIds.Nodup) : t.OneLatest :=
  Store.oneLatest_of_nodup (by rwa [h.latestRows, h.uniqueIds])

theorem latest?_eq (h : s.HeldBy t) (hnodup : s.calculationIds.Nodup) {u : String}
    (hu : u ∈ s.calculationIds) : ∃ c, t.latest? u = some c ∧ c.id = s.rowId u := by
  have hfound : (t.rows.map (·.uniqueId))[s.calculationIds.idxOf u]? = some u := by
    rw [h.uniqueIds]
    exact List.getElem?_idxOf hu
  rw [List.getElem?_map, Option.map_eq_some_iff] at hfound
  obtain ⟨c, hc, rfl⟩ := hfound
  refine ⟨c, (h.oneLatest hnodup).latest?_eq (h.latestRows ▸ List.mem_of_getElem? hc), ?_⟩
  obtain ⟨e, d, -, -, hrow⟩ := h.getElem?_rows hc
  exact congrArg Calculation.id hrow

theorem latest?_eq_none (h : s.HeldBy t) {u : String} (hu : u ∉ s.calculationIds) :
    t.latest? u = none := by
  rw [Store.latest?_eq_find?, h.revisions_eq_nil_iff.2 hu]
  rfl

end HeldBy

/-! ### One entry -/

theorem nodup_append_singleton {α : Type} {as : List α} {a : α} (h : as.Nodup) (ha : a ∉ as) :
    (as ++ [a]).Nodup :=
  List.nodup_append_comm.1 (List.nodup_cons.2 ⟨ha, h⟩)

theorem Opens.runOn_constant (h : s.Opens t) (c : Constant) :
    (createConstant c).runOn t =
      match (Entry.constant c).fault? s with
      | some e => (.error e, t)
      | none => (.ok (), { t with constants := t.constants ++ [c] }) := by
  have htaken : (t.constant? c.uniqueId).isSome = true ↔ c.uniqueId ∈ s.constantIds := by
    rw [Store.constant?_isSome_iff, h.held.constants, constantIds]
  rw [runOn_createConstant, Entry.fault?]
  split
  · rfl
  · by_cases hc : c.uniqueId ∈ s.constantIds
    · rw [if_pos hc]
      refine runOn_ask_of_error (e := .duplicateConstant c.uniqueId) ?_
      simp [Store.answer, Store.change, Store.insertConstant, htaken.2 hc]
    · rw [if_neg hc]
      refine runOn_ask_of_ok ?_
      simp [Store.answer, Store.change, Store.insertConstant, mt htaken.1 hc]

theorem Opens.add_constant (h : s.Opens t) {c : Constant}
    (hfault : (Entry.constant c).fault? s = none) :
    { s with constants := s.constants ++ [c] }.Opens
      { t with constants := t.constants ++ [c] } := by
  obtain ⟨hacceptable, hheld, hchained⟩ := h
  rw [Entry.fault?] at hfault
  split at hfault
  · contradiction
  · next hnamed =>
    split at hfault
    · contradiction
    · next hnew =>
      refine ⟨{ hacceptable with named := ?_, constants := ?_ }, { hheld with constants := ?_ },
        hchained.of_sameRows ⟨rfl, rfl, rfl⟩⟩
      · intro c' hc'
        obtain hc' | hc' := List.mem_append.1 hc'
        · exact hacceptable.named c' hc'
        · rw [List.mem_singleton.1 hc']
          exact Bool.eq_false_iff.2 hnamed
      · rw [constantIds, List.map_append]
        exact nodup_append_singleton hacceptable.constants hnew
      · exact congrArg (· ++ [c]) hheld.constants

theorem Opens.runOn_calculation (h : s.Opens t) (e : CalculationEntry) :
    e.enter.runOn t =
      match (Entry.calculation e).fault? s with
      | some e => (.error e, t)
      | none => (.ok (), e.draft.toOption.elim t fun d => t.withRow (.first e.uniqueId d)) := by
  rw [CalculationEntry.enter, Entry.fault?]
  cases hdraft : e.draft with
  | error fault => rfl
  | ok d =>
    dsimp only
    rw [runOn_bind, runOn_createCalculation h.chained]
    cases d.check e.uniqueId with
    | error fault => rfl
    | ok _ =>
      by_cases hu : e.uniqueId ∈ s.calculationIds
      · have hrows : t.revisions e.uniqueId ≠ [] := fun hnil =>
          h.held.revisions_eq_nil_iff.1 hnil hu
        simp [hu, hrows]
      · simp [hu, h.held.revisions_eq_nil_iff.2 hu]
        rfl

theorem rowId_append (e : CalculationEntry) {u : String} (hu : u ∈ s.calculationIds) :
    { s with calculations := s.calculations ++ [e] }.rowId u = s.rowId u := by
  have hids : { s with calculations := s.calculations ++ [e] }.calculationIds =
      s.calculationIds ++ [e.uniqueId] := List.map_append
  rw [rowId, hids, List.idxOf_append_of_mem hu, rowId]

theorem Opens.add_calculation (h : s.Opens t) {e : CalculationEntry} {d : Draft}
    (hdraft : e.draft = .ok d) (hfault : (Entry.calculation e).fault? s = none) :
    { s with calculations := s.calculations ++ [e] }.Opens (t.withRow (.first e.uniqueId d)) := by
  obtain ⟨hacceptable, hheld, hchained⟩ := h
  have hids : { s with calculations := s.calculations ++ [e] }.calculationIds =
      s.calculationIds ++ [e.uniqueId] := List.map_append
  simp only [Entry.fault?, hdraft] at hfault
  split at hfault
  · contradiction
  · next hcheck =>
    split at hfault
    · contradiction
    · next hnew =>
      have hrevisions := hheld.revisions_eq_nil_iff.2 hnew
      refine ⟨{ hacceptable with drafts := ?_, calculations := ?_, listed := ?_ },
        { hheld with lastId := ?_, rows := ?_, versions := ?_, reports := ?_ },
        hchained.withRow (by simp [NewRow.first, hrevisions]) (by simp [NewRow.first, hrevisions])⟩
      · intro e' he'
        obtain he' | he' := List.mem_append.1 he'
        · exact hacceptable.drafts e' he'
        · rw [List.mem_singleton.1 he']
          exact ⟨d, hdraft, Draft.check_eq_ok_iff.1 hcheck⟩
      · rw [hids]
        exact nodup_append_singleton hacceptable.calculations hnew
      · intro r hr u hu
        rw [hids]
        exact List.mem_append_left _ (hacceptable.listed r hr u hu)
      · simp [Store.withRow, hheld.lastId]
      · simp [Store.withRow, List.mapIdx_append, hheld.rows, hheld.lastId, hdraft, Except.map,
          NewRow.stored, NewRow.first]
      · rw [Store.withRow, List.map_append]
        exact congrArg (· ++ _) hheld.versions
      -- the reports list calculations that were there before, and these keep their ids
      · refine hheld.reports.trans (List.map_congr_left fun r hr => ?_)
        refine congrArg _ (List.map_congr_left fun u hu => ?_)
        exact (rowId_append e (hacceptable.listed r hr u hu)).symm

theorem runOn_mapM_latest (us : List String) : (us.mapM latest).runOn t =
    match us.find? fun u => (t.latest? u).isNone with
    | some u => (.error (.calculationNotFound u), t)
    | none => (.ok (us.filterMap t.latest?), t) := by
  induction us with
  | nil => rfl
  | cons u us ih =>
    rw [List.mapM_cons, runOn_bind, runOn_latest]
    cases hu : t.latest? u with
    | none => simp [hu]
    | some c =>
      dsimp only
      rw [runOn_bind, ih, List.find?_cons_of_neg (by simp [hu]), List.filterMap_cons_some hu]
      cases us.find? fun u => (t.latest? u).isNone with
      | some u' => rfl
      | none => rfl

theorem Opens.runOn_report (h : s.Opens t) (e : ReportEntry) :
    e.enter.runOn t =
      match (Entry.report e).fault? s with
      | some e => (.error e, t)
      | none =>
        (.ok (), { t with reports := t.reports ++ [⟨e.name, e.calculations.map s.rowId⟩] }) := by
  have hunknown (u : String) : (t.latest? u).isNone = decide (u ∉ s.calculationIds) := by
    by_cases hu : u ∈ s.calculationIds
    · obtain ⟨c, hc, -⟩ := h.held.latest?_eq h.acceptable.calculations hu
      simp [hu, hc]
    · simp [hu, h.held.latest?_eq_none hu]
  rw [ReportEntry.enter, runOn_bind, runOn_mapM_latest, Entry.fault?]
  simp only [hunknown]
  cases hfind : e.calculations.find? fun u => decide (u ∉ s.calculationIds) with
  | some u => rfl
  | none =>
    have hknown : ∀ u ∈ e.calculations, u ∈ s.calculationIds := by simpa using hfind
    have hids : (e.calculations.filterMap t.latest?).map (·.id) = e.calculations.map s.rowId := by
      rw [List.map_filterMap, ← List.filterMap_eq_map]
      refine List.filterMap_congr fun u hu => ?_
      obtain ⟨c, hc, hid⟩ := h.held.latest?_eq h.acceptable.calculations (hknown u hu)
      rw [hc, Option.map_some, hid]
      rfl
    have htaken : (t.report? e.name).isSome = true ↔ e.name ∈ s.reportNames := by
      rw [Store.report?_isSome_iff, h.held.reportNames]
    dsimp only
    rw [hids]
    by_cases he : e.name ∈ s.reportNames
    · rw [if_pos he]
      refine runOn_ask_of_error (e := .duplicateReport e.name) ?_
      simp [Store.answer, Store.change, Store.insertReport, htaken.2 he]
    · rw [if_neg he]
      refine runOn_ask_of_ok ?_
      simp [Store.answer, Store.change, Store.insertReport, mt htaken.1 he]

theorem Opens.add_report (h : s.Opens t) {e : ReportEntry}
    (hfault : (Entry.report e).fault? s = none) :
    Opens { s with reports := s.reports ++ [e] }
      { t with reports := t.reports ++ [⟨e.name, e.calculations.map s.rowId⟩] } := by
  obtain ⟨hacceptable, hheld, hchained⟩ := h
  rw [Entry.fault?] at hfault
  split at hfault
  · contradiction
  · next hknown =>
    split at hfault
    · contradiction
    · next hnew =>
      refine ⟨{ hacceptable with listed := ?_, reports := ?_ }, { hheld with reports := ?_ },
        hchained.of_sameRows ⟨rfl, rfl, rfl⟩⟩
      · intro r hr
        obtain hr | hr := List.mem_append.1 hr
        · exact hacceptable.listed r hr
        · rw [List.mem_singleton.1 hr]
          change ∀ u ∈ e.calculations, u ∈ s.calculationIds
          simpa using hknown
      · rw [reportNames, List.map_append]
        exact nodup_append_singleton hacceptable.reports hnew
      · rw [List.map_append]
        exact congrArg (· ++ _) hheld.reports

end

/-! ### All entries -/

section

variable {es : List Entry} {t : Store}

theorem Opens.enter (h : (ofEntries es).Opens t) (x : Entry) :
    (∀ e, x.fault? (ofEntries es) = some e → x.enter.runOn t = (.error e, t)) ∧
    (x.fault? (ofEntries es) = none →
      ∃ t', x.enter.runOn t = (.ok (), t') ∧ (ofEntries (es ++ [x])).Opens t') := by
  have hadd : ofEntries (es ++ [x]) =
      match x with
      | .constant c => { ofEntries es with constants := (ofEntries es).constants ++ [c] }
      | .calculation e => { ofEntries es with calculations := (ofEntries es).calculations ++ [e] }
      | .report e => { ofEntries es with reports := (ofEntries es).reports ++ [e] } := by
    cases x <;> simp [ofEntries, List.filterMap_append, Entry.constant?, Entry.calculation?,
      Entry.report?]
  rw [hadd]
  cases x with
  | constant c =>
    have hrun := h.runOn_constant c
    refine ⟨fun e he => ?_, fun hfault => ?_⟩
    · rw [he] at hrun
      exact hrun
    · rw [hfault] at hrun
      exact ⟨_, hrun, h.add_constant hfault⟩
  | calculation e =>
    have hrun := h.runOn_calculation e
    refine ⟨fun e' he => ?_, fun hfault => ?_⟩
    · rw [he] at hrun
      exact hrun
    · rw [hfault] at hrun
      cases hdraft : e.draft with
      | error fault => simp [Entry.fault?, hdraft] at hfault
      | ok d =>
        rw [hdraft] at hrun
        exact ⟨_, hrun, h.add_calculation hdraft hfault⟩
  | report e =>
    have hrun := h.runOn_report e
    refine ⟨fun e' he => ?_, fun hfault => ?_⟩
    · rw [he] at hrun
      exact hrun
    · rw [hfault] at hrun
      exact ⟨_, hrun, h.add_report hfault⟩

def Fit (before after : List Entry) : Prop :=
  ∀ earlier x later, after = earlier ++ x :: later →
    x.fault? (ofEntries (before ++ earlier)) = none

def Offends (before after : List Entry) (e : LedgerError) : Prop :=
  ∃ earlier x later, after = earlier ++ x :: later ∧
    x.fault? (ofEntries (before ++ earlier)) = some e ∧ Fit before earlier

theorem fit_cons {before after : List Entry} {x : Entry}
    (hx : x.fault? (ofEntries before) = none) (h : Fit (before ++ [x]) after) :
    Fit before (x :: after) := by
  rintro (_ | ⟨first, earlier⟩) y later heq
  · obtain ⟨rfl, rfl⟩ := List.cons.inj heq
    simpa using hx
  · obtain ⟨rfl, rfl⟩ := List.cons.inj heq
    simpa using h earlier y later rfl

theorem forM_cons {α : Type} (f : α → Procedure PUnit) (a : α) (as : List α) :
    (a :: as).forM f = f a >>= fun _ => as.forM f := rfl

theorem runOn_forM_enter (h : (ofEntries es).Opens t) (after : List Entry) :
    (∃ t', (after.forM Entry.enter).runOn t = (.ok (), t') ∧ (ofEntries (es ++ after)).Opens t' ∧
      Fit es after) ∨
    ∃ e t', (after.forM Entry.enter).runOn t = (.error e, t') ∧ Offends es after e := by
  -- `es` are those entered so far, and the store has them open
  induction after generalizing es t with
  | nil => exact .inl ⟨t, rfl, by rwa [List.append_nil], by simp [Fit]⟩
  | cons x after ih =>
    obtain ⟨hrefused, hentered⟩ := h.enter x
    cases hfault : x.fault? (ofEntries es) with
    | some e =>
      refine .inr ⟨e, t, ?_, [], x, after, rfl, by simpa using hfault, by simp [Fit]⟩
      rw [forM_cons, runOn_bind, hrefused e hfault]
    | none =>
      obtain ⟨t', hrun, hopens⟩ := hentered hfault
      obtain ⟨t'', hrest, hopens', hfit⟩ | ⟨e, t'', hrest, earlier, y, later, rfl, hy, hfit⟩ :=
        ih hopens
      · refine .inl ⟨t'', ?_, by simpa using hopens', fit_cons hfault hfit⟩
        rw [forM_cons, runOn_bind_of_ok hrun, hrest]
      · refine .inr ⟨e, t'', ?_, x :: earlier, y, later, rfl, by simpa using hy,
          fit_cons hfault hfit⟩
        rw [forM_cons, runOn_bind_of_ok hrun, hrest]

theorem forM_append {α : Type} (f : α → Procedure PUnit) (as bs : List α) (t : Store) :
    ((as ++ bs).forM f).runOn t = (as.forM f >>= fun _ => bs.forM f).runOn t := by
  induction as generalizing t with
  | nil => rw [runOn_bind]; rfl
  | cons a as ih =>
    rw [List.cons_append, forM_cons, forM_cons, runOn_bind, runOn_bind, runOn_bind]
    cases (f a).runOn t with
    | mk result t' =>
      cases result with
      | ok _ => exact (ih t').trans (runOn_bind _ _ _)
      | error e => rfl

theorem forM_map {α β : Type} (f : β → Procedure PUnit) (g : α → β) (as : List α) :
    (as.map g).forM f = as.forM fun a => f (g a) := by
  induction as with
  | nil => rfl
  | cons a as ih => rw [List.map_cons, forM_cons, forM_cons, ih]

/-- The three lists are entered as one. -/
theorem runOn_enter (s : Snapshot) (t : Store) :
    s.enter.runOn t = (s.entries.forM Entry.enter).runOn t := by
  rw [entries, forM_append, runOn_bind, forM_append, forM_map, forM_map, forM_map, enter,
    runOn_bind, runOn_bind]
  simp only [Entry.enter]
  cases (s.constants.forM createConstant).runOn t with
  | mk result t' =>
    cases result with
    | ok _ => exact runOn_bind _ _ _
    | error e => rfl

theorem ofEntries_entries (s : Snapshot) : ofEntries s.entries = { s with materials := [] } := by
  simp [ofEntries, entries, List.filterMap_append, List.filterMap_map, Function.comp_def,
    Entry.constant?, Entry.calculation?, Entry.report?]

theorem Opens.with_materials {s : Snapshot} (h : s.Opens t) (materials : List MaterialEntry) :
    { s with materials }.Opens t := by
  obtain ⟨⟨hnamed, hconstants, hdrafts, hcalculations, hlisted, hreports⟩, hheld, hchained⟩ := h
  exact ⟨⟨hnamed, hconstants, hdrafts, hcalculations, hlisted, hreports⟩,
    ⟨hheld.constants, hheld.lastId, hheld.rows, hheld.versions, hheld.reports⟩, hchained⟩

theorem opens_of_entries {s : Snapshot} (h : (ofEntries s.entries).Opens t) : s.Opens t := by
  rw [ofEntries_entries] at h
  exact h.with_materials s.materials

theorem pairwise_entries (s : Snapshot) :
    s.entries.Pairwise fun x y => x.report?.isSome = true → y.report?.isSome = true := by
  simp [entries, List.pairwise_append, List.pairwise_map, Entry.report?,
    List.pairwise_of_forall]

theorem not_mem_of_nodup_split {α : Type} {earlier later : List α} {a : α}
    (h : (earlier ++ a :: later).Nodup) : a ∉ earlier := fun ha =>
  (List.nodup_append.1 h).2.2 a ha a List.mem_cons_self rfl

theorem Acceptable.fit {s : Snapshot} (h : s.Acceptable) : Fit [] s.entries := by
  intro earlier x later hsplit
  rw [List.nil_append]
  have hof := ofEntries_entries s
  rw [hsplit] at hof
  simp only [ofEntries, List.filterMap_append, mk.injEq] at hof
  obtain ⟨hconstants, hcalculations, -, hreports⟩ := hof
  cases x with
  | constant c =>
    change _ ++ c :: later.filterMap Entry.constant? = s.constants at hconstants
    have hnodup := h.constants
    rw [constantIds, ← hconstants, List.map_append, List.map_cons] at hnodup
    have hnamed := h.named c (by rw [← hconstants]; simp)
    have hnew : c.uniqueId ∉ (ofEntries earlier).constantIds := not_mem_of_nodup_split hnodup
    simp [Entry.fault?, hnamed, hnew]
  | calculation e =>
    change _ ++ e :: later.filterMap Entry.calculation? = s.calculations at hcalculations
    have hnodup := h.calculations
    rw [calculationIds, ← hcalculations, List.map_append, List.map_cons] at hnodup
    obtain ⟨d, hdraft, hwf⟩ := h.drafts e (by rw [← hcalculations]; simp)
    have hnew : e.uniqueId ∉ (ofEntries earlier).calculationIds := not_mem_of_nodup_split hnodup
    simp [Entry.fault?, hdraft, Draft.check_eq_ok_iff.2 hwf, hnew]
  | report e =>
    change _ ++ e :: later.filterMap Entry.report? = s.reports at hreports
    have hnodup := h.reports
    rw [reportNames, ← hreports, List.map_append, List.map_cons] at hnodup
    have hnew : e.name ∉ (ofEntries earlier).reportNames := not_mem_of_nodup_split hnodup
    -- no calculation comes later, so those that came before are all
    have hlater : (Entry.report e :: later).filterMap Entry.calculation? = [] := by
      have hpairs := pairwise_entries s
      rw [hsplit] at hpairs
      have hafter := (List.pairwise_cons.1 (List.pairwise_append.1 hpairs).2.1).1
      refine List.filterMap_eq_nil_iff.2 fun y hy => ?_
      obtain rfl | hy := List.mem_cons.1 hy
      · rfl
      · have hreport := hafter y hy rfl
        cases y <;> first | rfl | simp [Entry.report?] at hreport
    rw [hlater, List.append_nil] at hcalculations
    have hids : (ofEntries earlier).calculationIds = s.calculationIds := by
      rw [calculationIds, calculationIds, ← hcalculations]
      rfl
    have hknown : (e.calculations.find? fun u => u ∉ (ofEntries earlier).calculationIds) =
        none := by
      rw [hids]
      simpa using h.listed e (by rw [← hreports]; simp)
    rw [Entry.fault?, hknown]
    exact if_neg hnew

theorem fault_unique {before earlier between later later' : List Entry} {x x' : Entry}
    {e e' : LedgerError} (hrest : x :: later = between ++ x' :: later')
    (hfault : x.fault? (ofEntries (before ++ earlier)) = some e)
    (hfault' : x'.fault? (ofEntries (before ++ (earlier ++ between))) = some e')
    (hfit : Fit before (earlier ++ between)) : e = e' := by
  cases between with
  | nil =>
    obtain ⟨rfl, -⟩ := List.cons.inj hrest
    rw [List.append_nil] at hfault'
    exact Option.some.inj (hfault.symm.trans hfault')
  | cons y between =>
    obtain ⟨rfl, -⟩ := List.cons.inj hrest
    rw [hfit earlier x between rfl] at hfault
    contradiction

theorem Offends.unique {before after : List Entry} {e e' : LedgerError}
    (h : Offends before after e) (h' : Offends before after e') : e = e' := by
  obtain ⟨earlier, x, later, hsplit, hfault, hfit⟩ := h
  obtain ⟨earlier', x', later', hsplit', hfault', hfit'⟩ := h'
  obtain ⟨between, rfl, hrest⟩ | ⟨between, rfl, hrest⟩ :=
    List.append_eq_append_iff.1 (hsplit.symm.trans hsplit')
  · exact fault_unique hrest hfault hfault' hfit'
  · exact (fault_unique hrest hfault' hfault hfit).symm

theorem Offends.not_fit {before after : List Entry} {e : LedgerError}
    (h : Offends before after e) : ¬ Fit before after := by
  obtain ⟨earlier, x, later, hsplit, hfault, -⟩ := h
  intro hfit
  rw [hfit earlier x later hsplit] at hfault
  contradiction

/-- A snapshot is opened if it is acceptable, and else its first offending entry is its failure. -/
theorem build_cases (s : Snapshot) :
    (s.Acceptable ∧ ∃ t, s.build = .ok (t, s.sheets) ∧ s.Opens t) ∨
    (¬ s.Acceptable ∧ ∃ e, s.build = .error e ∧ Offends [] s.entries e) := by
  rw [build, runOn_enter]
  obtain ⟨t, hrun, hopens, -⟩ | ⟨e, t, hrun, hoffends⟩ := runOn_forM_enter opens_empty s.entries
  · have hopens := opens_of_entries hopens
    rw [hrun]
    exact .inl ⟨hopens.acceptable, t, rfl, hopens⟩
  · rw [hrun]
    exact .inr ⟨fun h => hoffends.not_fit h.fit, e, rfl, hoffends⟩

theorem build_of_acceptable {s : Snapshot} (h : s.Acceptable) :
    ∃ t, s.build = .ok (t, s.sheets) ∧ s.Opens t := by
  obtain ⟨-, hopens⟩ | ⟨hnot, -⟩ := s.build_cases
  · exact hopens
  · exact absurd h hnot

theorem opens_of_build {s : Snapshot} {sheets : Materials} (h : s.build = .ok (t, sheets)) :
    s.Opens t ∧ sheets = s.sheets := by
  obtain ⟨-, t', hbuild, hopens⟩ | ⟨-, e, hbuild, -⟩ := s.build_cases
  · obtain ⟨rfl, rfl⟩ := Prod.mk.inj (Except.ok.inj (hbuild.symm.trans h))
    exact ⟨hopens, rfl⟩
  · rw [hbuild] at h
    contradiction

theorem offends_of_build {s : Snapshot} {e : LedgerError} (h : s.build = .error e) :
    Offends [] s.entries e := by
  obtain ⟨-, t, hbuild, -⟩ | ⟨-, e', hbuild, hoffends⟩ := s.build_cases
  · rw [hbuild] at h
    contradiction
  · rw [hbuild] at h
    exact Except.error.inj h ▸ hoffends

end

/-! ### Sheets -/

def lastSheet? (s : Snapshot) (key : SheetKey) : Option Sheet :=
  (s.materials.reverse.find? (·.key == key)).map (·.sheet)

theorem lookup_filter_ne (m : Materials) (old key : SheetKey) :
    List.lookup key (m.filter fun entry => entry.1 != old) =
      if old = key then none else m.lookup key := by
  rw [Store.lookup_filter_fst (· != old)]
  by_cases hkey : old = key
  · simp [hkey]
  · have hne : (key != old) = true := bne_iff_ne.2 (Ne.symm hkey)
    rw [if_neg hkey]
    cases m.lookup key with
    | none => rfl
    | some sheet => simp [hne]

theorem lookup_insert (m : Materials) (e : MaterialEntry) (key : SheetKey) :
    List.lookup key (m.insert e.companyId e.period e.sheet) =
      if e.key = key then some e.sheet else m.lookup key := by
  change List.lookup key (m.filter (fun entry => entry.1 != e.key) ++ [(e.key, e.sheet)]) = _
  rw [List.lookup_append, lookup_filter_ne]
  by_cases hkey : e.key = key
  · simp [hkey]
  · have hne : (key == e.key) = false := beq_false_of_ne (Ne.symm hkey)
    rw [if_neg hkey, if_neg hkey, List.lookup_cons, hne]
    exact Option.or_none

theorem nodup_insert {m : Materials} (h : (m.map Prod.fst).Nodup) (e : MaterialEntry) :
    ((m.insert e.companyId e.period e.sheet).map Prod.fst).Nodup := by
  change ((m.filter (fun entry => entry.1 != e.key) ++ [(e.key, e.sheet)]).map Prod.fst).Nodup
  rw [List.map_append]
  refine nodup_append_singleton (h.sublist (List.filter_sublist.map _)) fun hmem => ?_
  obtain ⟨entry, hentry, hkey⟩ := List.mem_map.1 hmem
  simpa [hkey] using (List.mem_filter.1 hentry).2

theorem sheets_exact (s : Snapshot) :
    (s.sheets.map Prod.fst).Nodup ∧ ∀ key, s.sheets.lookup key = s.lastSheet? key := by
  unfold sheets lastSheet?
  induction s.materials using List.reverseRecOn with
  | nil => exact ⟨List.nodup_nil, fun key => rfl⟩
  | append_singleton ms e ih =>
    obtain ⟨hnodup, hlookup⟩ := ih
    rw [List.foldl_append]
    refine ⟨nodup_insert hnodup e, fun key => (lookup_insert _ e key).trans ?_⟩
    rw [hlookup, List.reverse_append]
    by_cases hkey : e.key = key
    · simp [hkey]
    · simp [hkey]

/-- A snapshot is opened exactly if every entry is acceptable. The store then holds what it says,
and there is one sheet for each key, the one that was given last. Otherwise the failure is that of
the first entry that does not fit after those before it. -/
theorem build_exact (s : Snapshot) :
    ((∃ t sheets, s.build = .ok (t, sheets)) ↔ s.Acceptable) ∧
    (∀ t sheets, s.build = .ok (t, sheets) → s.HeldBy t ∧ (sheets.map Prod.fst).Nodup ∧
      ∀ key, sheets.lookup key = s.lastSheet? key) ∧
    ∀ e, s.build = .error e ↔ Offends [] s.entries e := by
  refine ⟨⟨fun ⟨t, sheets, h⟩ => (opens_of_build h).1.acceptable, fun h => ?_⟩,
    fun t sheets h => ?_, fun e => ⟨offends_of_build, fun h => ?_⟩⟩
  · obtain ⟨t, hbuild, -⟩ := build_of_acceptable h
    exact ⟨t, s.sheets, hbuild⟩
  · obtain ⟨hopens, rfl⟩ := opens_of_build h
    exact ⟨hopens.held, s.sheets_exact⟩
  · cases hbuild : s.build with
    | ok opened => exact absurd (opens_of_build hbuild).1.acceptable.fit h.not_fit
    | error e' => rw [(offends_of_build hbuild).unique h]

def forwardSnapshot : Snapshot where
  constants := [⟨"rate", 2024, "EUR", none, []⟩]
  calculations := [
    ⟨"total", "EUR", [{ PointerRecord.bare "calculation" with uniqueId := some "base" }]⟩,
    ⟨"base", "EUR", [{ PointerRecord.bare "literal" with value := some "1" }]⟩]
  materials := []
  reports := [⟨"summary", ["base", "total"]⟩]

theorem build_forwardSnapshot : ∃ t sheets, forwardSnapshot.build = .ok (t, sheets) := by
  have hopens : forwardSnapshot.build.toOption.isSome = true := by decide +kernel
  cases hbuild : forwardSnapshot.build with
  | ok opened => exact ⟨opened.1, opened.2, rfl⟩
  | error e =>
    rw [hbuild] at hopens
    contradiction

/-- The report gets the ids of the rows. A report on a constant is refused. -/
theorem build_exact_forward :
    (∃ t sheets, forwardSnapshot.build = .ok (t, sheets) ∧ forwardSnapshot.Acceptable ∧
      t.lastId = 2 ∧ t.reports = [⟨"summary", [2, 1]⟩]) ∧
    Offends [] { forwardSnapshot with reports := [⟨"summary", ["base", "rate"]⟩] }.entries
      (.calculationNotFound "rate") := by
  constructor
  · obtain ⟨hiff, hheld, -⟩ := build_exact forwardSnapshot
    obtain ⟨t, sheets, hbuild⟩ := build_forwardSnapshot
    obtain ⟨hheld, -⟩ := hheld t sheets hbuild
    exact ⟨t, sheets, hbuild, hiff.1 ⟨t, sheets, hbuild⟩, hheld.lastId,
      hheld.reports.trans (by decide)⟩
  · obtain ⟨-, -, herror⟩ :=
      build_exact { forwardSnapshot with reports := [⟨"summary", ["base", "rate"]⟩] }
    exact (herror _).1 (by decide +kernel)

end Snapshot

end FormulaLedger
