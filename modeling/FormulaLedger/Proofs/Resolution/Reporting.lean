import FormulaLedger.Proofs.Resolution.Agreement
import FormulaLedger.Proofs.Resolution.Reasons

set_option autoImplicit false

namespace FormulaLedger

def Reason.isStale : Reason → Bool
  | .about .staleRevision _ => true
  | _ => false

namespace Evaluation

def staleness (c : Calculation) : List Reason :=
  if c.latest then []
  else [.about .staleRevision (c.uniqueId ++ " v" ++ toString c.version)]

theorem noteStale_eq (e : Evaluation) (c : Calculation) :
    e.noteStale c = ⟨e.value, e.reasons ++ staleness c⟩ := by
  unfold noteStale staleness
  split
  · rw [List.append_nil]
  · rfl

theorem countP_staleness (c : Calculation) :
    (staleness c).countP Reason.isStale = if c.latest then 0 else 1 := by
  unfold staleness
  split
  · rfl
  · rfl

end Evaluation

theorem Value.eq_error_of_isError {value : Value} (h : value.isError = true) : value = .error := by
  cases value with
  | number x => contradiction
  | error => rfl

theorem reasons_evaluateText_ne_nil {text : String} {reasons : List Reason}
    (h : (evaluateText text reasons).value = .error) :
    (evaluateText text reasons).reasons ≠ [] := by
  unfold evaluateText at *
  cases hvalue : Formula.valueOf text with
  | ok value => simp [hvalue] at h
  | error f => simp

namespace ReportRow

def isStored (row : ReportRow) : Bool := row.identity.isSome

def errs (row : ReportRow) : Bool := row.isStored && row.evaluation.value.isError

def isOdd (row : ReportRow) : Bool := row.isStored && !row.evaluation.reasons.isEmpty

end ReportRow

namespace ReportStats

def of (rows : List ReportRow) : ReportStats where
  evaluated := rows.countP (·.isStored)
  errors := rows.countP (·.errs)
  withReasons := rows.countP (·.isOdd)
  missing := rows.countP (!·.isStored)

def tally (stats : ReportStats) (rows : List ReportRow) : ReportStats where
  evaluated := stats.evaluated + (of rows).evaluated
  errors := stats.errors + (of rows).errors
  withReasons := stats.withReasons + (of rows).withReasons
  missing := stats.missing + (of rows).missing

variable (stats : ReportStats) {row : ReportRow}

theorem tally_zero (rows : List ReportRow) : zero.tally rows = of rows := by
  simp [tally, zero]

theorem tally_cons (row : ReportRow) (rows : List ReportRow) :
    stats.tally (row :: rows) = (stats.tally [row]).tally rows := by
  simp only [tally, of, List.countP_cons, List.countP_nil, mk.injEq]
  omega

theorem evaluated_add_missing (rows : List ReportRow) :
    (of rows).evaluated + (of rows).missing = rows.length := by
  rw [List.length_eq_countP_add_countP (·.isStored)]
  simp [of]

theorem tally_missing (h : row.identity = none) :
    stats.tally [row] = { stats with missing := stats.missing + 1 } := by
  have hstored : row.isStored = false := congrArg Option.isSome h
  simp [tally, of, ReportRow.errs, ReportRow.isOdd, hstored]

theorem tally_stored {identity : RowIdentity} (h : row.identity = some identity) :
    stats.tally [row] = stats.count row.evaluation := by
  have hstored : row.isStored = true := congrArg Option.isSome h
  simp only [tally, of, count, ReportRow.errs, ReportRow.isOdd, hstored, List.countP_singleton,
    Bool.true_and]
  cases row.evaluation.value.isError <;> cases row.evaluation.reasons.isEmpty <;> rfl

end ReportStats

namespace Store

variable (store : Store) (s : Setting)

def reportRow (id : RowId) : ReportRow :=
  match store.row? id with
  | none => ⟨id, none, ⟨.error, [.about .rowMissing (rowName id)]⟩⟩
  | some c =>
    let e := store.evaluateRow s c
    ⟨id, some ⟨c.uniqueId, c.version, c.unit⟩, ⟨e.value, e.reasons ++ Evaluation.staleness c⟩⟩

theorem isStored_reportRow (id : RowId) :
    (store.reportRow s id).isStored = (store.row? id).isSome := by
  unfold reportRow
  cases store.row? id with
  | none => rfl
  | some c => rfl

def shownRows (ids : List RowId) : List ReportRow :=
  (if s.options.skipMissingRows then ids.filter fun id => (store.row? id).isSome else ids).map
    (store.reportRow s)

theorem shownRows_cons (id : RowId) (ids : List RowId) :
    store.shownRows s (id :: ids) =
      (if s.options.skipMissingRows && (store.row? id).isNone then []
      else [store.reportRow s id]) ++ store.shownRows s ids := by
  unfold shownRows
  cases s.options.skipMissingRows with
  | false => rfl
  | true =>
    cases hrow : store.row? id with
    | none => simp [hrow]
    | some c => simp [hrow]

theorem mem_shownRows {ids : List RowId} {row : ReportRow} (h : row ∈ store.shownRows s ids) :
    ∃ id ∈ ids, store.reportRow s id = row := by
  obtain ⟨id, hid, rfl⟩ := List.mem_map.1 h
  split at hid
  · exact ⟨id, List.mem_of_mem_filter hid, rfl⟩
  · exact ⟨id, hid, rfl⟩

/-- The rows are evaluated one by one, and each is shown and counted for itself. -/
theorem evaluateRows_eq (rows : List ReportRow) (stats : ReportStats) (ids : List RowId) :
    Calculator.evaluateRows (m := Id) store.lookups s store.depth rows stats ids =
      (.ok (rows ++ store.shownRows s ids, stats.tally (ids.map (store.reportRow s))) :
        Except LedgerError _) := by
  induction ids generalizing rows stats with
  | nil =>
    have hnil : store.shownRows s [] = [] := by simp [shownRows]
    rw [hnil, List.append_nil]
    rfl
  | cons id ids ih =>
    have hlook : store.lookups.row id = .ok (store.row? id) := rfl
    rw [Calculator.evaluateRows, hlook, shownRows_cons, List.map_cons, stats.tally_cons]
    cases hrow : store.row? id with
    | none =>
      have hshown : store.reportRow s id =
          ⟨id, none, ⟨.error, [.about .rowMissing (rowName id)]⟩⟩ := by rw [reportRow, hrow]
      refine (ih _ _).trans ?_
      rw [hshown, stats.tally_missing rfl]
      cases s.options.skipMissingRows with
      | false => simp
      | true => simp
    | some c =>
      have hshown : store.reportRow s id = ⟨id, some ⟨c.uniqueId, c.version, c.unit⟩,
          (store.evaluateRow s c).noteStale c⟩ := by
        rw [reportRow, hrow, Evaluation.noteStale_eq]
      refine (ih _ _).trans ?_
      rw [hshown, stats.tally_stored rfl, Option.isNone_some, Bool.and_false,
        if_neg Bool.false_ne_true, List.append_assoc]
      rfl

variable {store} in
theorem evaluateReport_of_none {name : String} (h : store.report? name = none) :
    store.evaluateReport s name = .error (.reportNotFound name) := by
  have hread : store.lookups.report name = .ok none := congrArg Except.ok h
  rw [Store.evaluateReport, Calculator.evaluateReport, Calculator.found, hread]
  rfl

theorem evaluateReport_eq {name : String} {r : Report} (h : store.report? name = some r) :
    store.evaluateReport s name = .ok ⟨name, store.shownRows s r.rows,
      .of (r.rows.map (store.reportRow s))⟩ := by
  have hname : r.name = name := by simpa using List.find?_some h
  have hread : store.lookups.report name = .ok (some r) := congrArg Except.ok h
  have hrows : store.evaluateReport s name =
      (Calculator.evaluateRows (m := Id) store.lookups s store.depth [] .zero r.rows).bind
        fun found => .ok ⟨r.name, found.1, found.2⟩ := by
    rw [Store.evaluateReport, Calculator.evaluateReport, Calculator.found, hread]
    rfl
  rw [hrows, evaluateRows_eq, ReportStats.tally_zero, hname]
  rfl

theorem reasons_ne_nil_of_error {depth : Nat} {path : List String} {c : Calculation}
    (h : (Id.run (evaluateWithin store.lookups s depth path c)).value = .error) :
    (Id.run (evaluateWithin store.lookups s depth path c)).reasons ≠ [] := by
  cases depth with
  | zero => exact List.cons_ne_nil _ _
  | succ depth =>
    rw [evaluateWithin_succ] at h ⊢
    exact reasons_evaluateText_ne_nil h

theorem countP_isStale (c : Calculation) :
    (store.evaluateRow s c).reasons.countP Reason.isStale = 0 := by
  refine List.countP_eq_zero.2 fun reason hmem hstale => ?_
  have harises := store.arises_evaluateWithin s _ _ c reason hmem
  cases reason with
  | about oddity subject =>
    cases oddity with
    | staleRevision => exact harises.1 rfl
    | _ => contradiction
  | failure f => contradiction
  | stated text => contradiction

theorem countP_isStale_reportRow {id : RowId} {c : Calculation} (h : store.row? id = some c) :
    (store.reportRow s id).evaluation.reasons.countP Reason.isStale =
      if c.latest then 0 else 1 := by
  have hrow : (store.reportRow s id).evaluation.reasons =
      (store.evaluateRow s c).reasons ++ Evaluation.staleness c := by rw [reportRow, h]
  rw [hrow, List.countP_append, countP_isStale, Evaluation.countP_staleness, Nat.zero_add]

theorem isOdd_of_errs {id : RowId} (h : (store.reportRow s id).errs = true) :
    (store.reportRow s id).isOdd = true := by
  obtain ⟨hstored, herror⟩ := Bool.and_eq_true_iff.1 h
  refine Bool.and_eq_true_iff.2 ⟨hstored, ?_⟩
  obtain ⟨c, hrow⟩ := Option.isSome_iff_exists.1 (store.isStored_reportRow s id ▸ hstored)
  have hshown : (store.reportRow s id).evaluation =
      ⟨(store.evaluateRow s c).value, (store.evaluateRow s c).reasons ++
        Evaluation.staleness c⟩ := by rw [reportRow, hrow]
  rw [hshown] at herror ⊢
  have hreasons : (store.evaluateRow s c).reasons ≠ [] :=
    store.reasons_ne_nil_of_error s (Value.eq_error_of_isError herror)
  rw [List.isEmpty_eq_false_iff.2 (List.append_ne_nil_of_left_ne_nil hreasons _)]
  rfl

theorem countP_shownRows {p : ReportRow → Bool} (hp : ∀ row, p row = true → row.isStored = true)
    (ids : List RowId) :
    (store.shownRows s ids).countP p = (ids.map (store.reportRow s)).countP p := by
  unfold shownRows
  split
  · rw [List.countP_map, List.countP_map, List.countP_filter]
    refine List.countP_congr fun id _ => ?_
    have hid := hp (store.reportRow s id)
    rw [isStored_reportRow] at hid
    simpa using hid
  · rfl

end Store

/-- Every listed row is shown by itself, in the order and as often as it is listed, and counted by
what it shows. -/
theorem Store.report_rowwise (store : Store) (s : Setting) {name : String} {r : Report}
    (h : store.report? name = some r) :
    ∃ e, store.evaluateReport s name = .ok e ∧ e.report = name ∧
      e.rows = (if s.options.skipMissingRows then r.rows.filter fun id => (store.row? id).isSome
        else r.rows).map (store.reportRow s) ∧
      (∀ id c, store.row? id = some c →
        (store.reportRow s id).evaluation.reasons.countP Reason.isStale =
          if c.latest then 0 else 1) ∧
      e.stats.evaluated = r.rows.countP (fun id => (store.row? id).isSome) ∧
      e.stats.missing = r.rows.countP (fun id => (store.row? id).isNone) ∧
      e.stats.evaluated + e.stats.missing = r.rows.length ∧
      e.stats.errors = e.rows.countP (·.errs) ∧ e.stats.withReasons = e.rows.countP (·.isOdd) ∧
      e.stats.errors ≤ e.stats.withReasons ∧ e.stats.withReasons ≤ e.stats.evaluated := by
  refine ⟨_, store.evaluateReport_eq s h, rfl, rfl, fun id c => store.countP_isStale_reportRow s,
    ?_⟩
  have hstored : (r.rows.map (store.reportRow s)).countP (·.isStored) =
      r.rows.countP fun id => (store.row? id).isSome := by
    rw [List.countP_map]
    exact List.countP_congr fun id _ => by rw [Function.comp_apply, isStored_reportRow]
  have hmissing : (r.rows.map (store.reportRow s)).countP (!·.isStored) =
      r.rows.countP fun id => (store.row? id).isNone := by
    rw [List.countP_map]
    refine List.countP_congr fun id _ => ?_
    rw [Function.comp_apply, isStored_reportRow]
    simp
  have herrs := store.countP_shownRows s (p := ReportRow.errs)
    (fun row herr => (Bool.and_eq_true_iff.1 herr).1) r.rows
  have hodd := store.countP_shownRows s (p := ReportRow.isOdd)
    (fun row hrow => (Bool.and_eq_true_iff.1 hrow).1) r.rows
  refine ⟨hstored, hmissing, ?_, herrs.symm, hodd.symm, ?_, ?_⟩
  · exact (ReportStats.evaluated_add_missing _).trans (List.length_map _)
  -- A row without a value gives a reason, so every error is counted among the odd rows too.
  · exact List.countP_mono_left fun row hrow => by
      obtain ⟨id, _, rfl⟩ := List.mem_map.1 hrow
      exact store.isOdd_of_errs s
  · exact List.countP_mono_left fun row _ hrow => (Bool.and_eq_true_iff.1 hrow).1

def Store.mixedStore : Store :=
  { crossed with
    rows := crossed.rows ++
      [⟨3, "whole", 1, false, "t", [.of (.literal "1 /"), .of (.constant "none")]⟩,
        ⟨4, "whole", 2, true, "t", [.of (.literal "1")]⟩]
    reports := [⟨"mixed", [1, 3, 9, 1, 4]⟩] }

/-- One row is listed twice, one is stale and has no value, and one is not there. -/
theorem Store.report_rowwise_mixed :
    ∃ e, mixedStore.evaluateReport plainSetting "mixed" = .ok e ∧
      e.rows.map (·.id) = [1, 3, 9, 1, 4] ∧ e.stats.evaluated = 4 ∧ e.stats.errors = 1 ∧
      e.stats.withReasons = 3 ∧ e.stats.missing = 1 := by
  have hreport : mixedStore.report? "mixed" = some ⟨"mixed", [1, 3, 9, 1, 4]⟩ := by
    decide +kernel
  obtain ⟨e, heq, _, hrows, _, hevaluated, hmissing, _, herrors, hreasons, _⟩ :=
    mixedStore.report_rowwise plainSetting hreport
  rw [hrows] at herrors hreasons
  refine ⟨e, heq, ?_, hevaluated.trans ?_, herrors.trans ?_, hreasons.trans ?_,
    hmissing.trans ?_⟩
  · rw [hrows]
    decide +kernel
  · decide +kernel
  · decide +kernel
  · decide +kernel
  · decide +kernel

end FormulaLedger
