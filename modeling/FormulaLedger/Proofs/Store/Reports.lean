import FormulaLedger.Proofs.Store.Request

set_option autoImplicit false

namespace FormulaLedger

namespace Report

variable {r : Report} {old new : RowId}

theorem name_replace : (r.replace old new).name = r.name := rfl

theorem replace_of_not_mem (h : old ∉ r.rows) : r.replace old new = r := by
  have hrows : r.rows.map (fun id => if id = old then new else id) = r.rows := by
    refine (List.map_congr_left fun id hid => if_neg ?_).trans (List.map_id' _)
    rintro rfl
    exact h hid
  rw [replace, hrows]

theorem replace_self : r.replace old old = r := by
  have hrows : r.rows.map (fun id => if id = old then old else id) = r.rows := by
    refine (List.map_congr_left fun id _ => ?_).trans (List.map_id' _)
    split
    · next h => exact h.symm
    · rfl
  rw [replace, hrows]

theorem mem_replace {id : RowId} : id ∈ (r.replace old new).rows ↔
    id = new ∧ old ∈ r.rows ∨ id ≠ old ∧ id ∈ r.rows := by
  rw [replace, List.mem_map]
  constructor
  · rintro ⟨x, hx, rfl⟩
    by_cases heq : x = old
    · exact .inl ⟨if_pos heq, heq ▸ hx⟩
    · rw [if_neg heq]
      exact .inr ⟨heq, hx⟩
  · rintro (⟨rfl, hold⟩ | ⟨hne, hid⟩)
    · exact ⟨old, hold, if_pos rfl⟩
    · exact ⟨id, hid, if_neg hne⟩

theorem not_mem_replace (hne : old ≠ new) : old ∉ (r.replace old new).rows := by
  rw [mem_replace]
  rintro (⟨heq, _⟩ | ⟨hself, _⟩)
  · exact hne heq
  · exact hself rfl

end Report

def Request.writesReports : Request → Bool
  | .insertReport _ | .updateReport _ => true
  | _ => false

namespace Store

variable {s : Store} {old new : RowId}

def Named (s : Store) : Prop := s.reportNames.Nodup

theorem named_empty : Store.empty.Named := List.nodup_nil

theorem Named.eq_of_name (h : s.Named) {a b : Report} (ha : a ∈ s.reports) (hb : b ∈ s.reports)
    (hname : a.name = b.name) : a = b :=
  List.inj_on_of_nodup_map h ha hb hname

theorem reportsListing_singleton (s : Store) (id : RowId) :
    s.reportsListing [id] = s.reports.filter fun r => decide (id ∈ r.rows) := by
  rw [reportsListing]
  exact List.filter_congr fun r _ => by simp

theorem forall₂_reports {t : Store} {related : Report → Report → Prop}
    (hnames : t.reportNames = s.reportNames)
    (h : ∀ r ∈ s.reports, ∀ q ∈ t.reports, q.name = r.name → related r q) :
    List.Forall₂ related s.reports t.reports := by
  rw [reportNames, reportNames] at hnames
  have hlength : t.reports.length = s.reports.length := by
    simpa using congrArg List.length hnames
  refine List.forall₂_iff_get.2 ⟨hlength.symm, fun i hi hi' => ?_⟩
  refine h _ (List.get_mem _ _) _ (List.get_mem _ _) ?_
  simpa [hi, hi'] using congrArg (·[i]?) hnames

def withReport (s : Store) (r : Report) : Store :=
  { s with reports := s.reports.map fun old => if old.name = r.name then r else old }

theorem reportNames_withReport (s : Store) (r : Report) :
    (s.withReport r).reportNames = s.reportNames := by
  rw [reportNames, withReport, List.map_map]
  refine List.map_congr_left fun old _ => ?_
  by_cases h : old.name = r.name
  · simp [h]
  · simp [h]

theorem answer_updateReport_of_mem {r : Report} (h : r.name ∈ s.reportNames) :
    s.answer (.updateReport r) = (.ok (), s.withReport r) := by
  have hsome : (s.report? r.name).isNone = false := by
    rw [Option.isNone_eq_false_iff]
    exact (s.report?_isSome_iff r.name).2 h
  simp only [answer, change, updateReport, withReport, hsome, Bool.false_eq_true, ↓reduceIte]

theorem mem_withReport {r q : Report} (hq : q ∈ (s.withReport r).reports) :
    q = r ∨ q ∈ s.reports ∧ q.name ≠ r.name := by
  obtain ⟨p, hp, rfl⟩ := List.mem_map.1 hq
  by_cases hname : p.name = r.name
  · exact .inl (if_pos hname)
  · rw [if_neg hname]
    exact .inr ⟨hp, hname⟩

theorem answer_reports (s : Store) {r : Request} (h : r.writesReports = false) :
    (s.answer r).2.reports = s.reports := by
  have hs : s.reports = s.reports := rfl
  cases r with
  | insertReport _ | updateReport _ => simp [Request.writesReports] at h
  | insertRow row =>
    exact changeWith_induction (p := fun t => t.reports = _) hs fun a t ht => by grind [insertRow]
  | setLatest id latest =>
    exact changeWith_induction (p := fun t => t.reports = _) hs fun a t ht => by
      grind [setLatest, modifyRow]
  | updateLatest id draft =>
    exact change_induction (p := fun t => t.reports = _) hs fun t ht => by
      grind [updateLatest, modifyRow]
  | insertConstant c =>
    exact change_induction (p := fun t => t.reports = _) hs fun t ht => by grind [insertConstant]
  | updateConstant u c =>
    exact change_induction (p := fun t => t.reports = _) hs fun t ht => by grind [updateConstant]
  | deleteConstant u =>
    exact change_induction (p := fun t => t.reports = _) hs fun t ht => by grind [deleteConstant]
  | _ => exact hs

theorem Named.answer (hs : s.Named) (r : Request) : (s.answer r).2.Named := by
  by_cases hr : r.writesReports = false
  · rw [Named, reportNames, s.answer_reports hr]
    exact hs
  · cases r with
    | insertReport r =>
      refine change_induction hs fun t ht => ?_
      unfold insertReport at ht
      split at ht
      · contradiction
      · next hnew =>
        have hnot : r.name ∉ s.reportNames := fun hmem =>
          hnew ((s.report?_isSome_iff r.name).2 hmem)
        cases ht
        rw [Named, reportNames, List.map_append]
        exact List.nodup_append_comm.1 (List.nodup_cons.2 ⟨hnot, hs⟩)
    | updateReport r =>
      refine change_induction hs fun t ht => ?_
      unfold updateReport at ht
      split at ht
      · contradiction
      · cases ht
        change (s.withReport r).Named
        rw [Named, reportNames_withReport]
        exact hs
    | _ => exact absurd rfl hr

/-- One row stands in every place of another. -/
def redirected (s : Store) (old new : RowId) : Store :=
  { s with reports := s.reports.map (·.replace old new) }

theorem redirected_of_forall (h : ∀ r ∈ s.reports, r.replace old new = r) :
    s.redirected old new = s := by
  rw [redirected, (List.map_congr_left h).trans (List.map_id' _)]

/-- A report that is redirected first is not changed by the rest. -/
theorem redirected_withReport (hs : s.Named) (hne : old ≠ new) {r : Report} (hr : r ∈ s.reports) :
    (s.withReport (r.replace old new)).redirected old new = s.redirected old new := by
  rw [redirected, redirected, withReport, List.map_map]
  congr 1
  refine List.map_congr_left fun q hq => ?_
  rw [Function.comp_apply, Report.name_replace]
  by_cases hname : q.name = r.name
  · obtain rfl := hs.eq_of_name hq hr hname
    rw [if_pos rfl]
    exact Report.replace_of_not_mem (Report.not_mem_replace hne)
  · rw [if_neg hname]

end Store

end FormulaLedger
