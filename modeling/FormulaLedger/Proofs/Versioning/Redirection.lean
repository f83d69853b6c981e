import FormulaLedger.Proofs.Procedure.Execution
import FormulaLedger.Proofs.Store.Reports
import FormulaLedger.Versioning

set_option autoImplicit false

namespace FormulaLedger

namespace Versioning

open Procedure

variable {s : Store} {old new : RowId}

theorem runOn_redirectEach (hne : old ≠ new) {rs : List Report}
    (hnames : (rs.map (·.name)).Nodup) (hs : s.Named) (hrs : ∀ r ∈ rs, r ∈ s.reports)
    (hall : ∀ r ∈ s.reports, old ∈ r.rows → r ∈ rs) :
    (redirectEach old new rs).runOn s =
      (.ok (rs.countP (·.rows.contains old)), s.redirected old new) := by
  induction rs generalizing s with
  | nil =>
    have hnone : ∀ r ∈ s.reports, r.replace old new = r := fun r hr =>
      Report.replace_of_not_mem fun hold => absurd (hall r hr hold) List.not_mem_nil
    rw [Store.redirected_of_forall hnone]
    rfl
  | cons r rs ih =>
    obtain ⟨hnew, hrest⟩ := List.nodup_cons.1 hnames
    have hr := hrs r List.mem_cons_self
    rw [redirectEach]
    by_cases hold : r.rows.contains old = true
    · -- the other reports in the list are stored as they were, and this one is done with
      have hnamed : (s.withReport (r.replace old new)).Named := by
        rw [Store.Named, Store.reportNames_withReport]
        exact hs
      have hkept : ∀ q ∈ rs, q ∈ (s.withReport (r.replace old new)).reports := by
        intro q hq
        have hname : q.name ≠ r.name := fun heq => hnew (List.mem_map.2 ⟨q, hq, heq⟩)
        exact List.mem_map.2 ⟨q, hrs q (List.mem_cons_of_mem _ hq), if_neg hname⟩
      have hleft : ∀ q ∈ (s.withReport (r.replace old new)).reports, old ∈ q.rows → q ∈ rs := by
        intro q hq hmem
        rcases Store.mem_withReport hq with rfl | ⟨hq, hname⟩
        · exact absurd hmem (Report.not_mem_replace hne)
        · rcases List.mem_cons.1 (hall q hq hmem) with rfl | hq
          · exact absurd rfl hname
          · exact hq
      have hupdate := Store.answer_updateReport_of_mem (s := s) (r := r.replace old new)
        (List.mem_map.2 ⟨r, hr, rfl⟩)
      rw [if_pos hold, runOn_bind_of_ok (runOn_ask_of_ok hupdate),
        runOn_bind_of_ok (ih hrest hnamed hkept hleft), Store.redirected_withReport hs hne hr,
        List.countP_cons, if_pos hold]
      rfl
    · rw [if_neg hold, List.countP_cons, if_neg hold]
      refine ih hrest hs (fun q hq => hrs q (List.mem_cons_of_mem _ hq)) fun q hq hmem => ?_
      rcases List.mem_cons.1 (hall q hq hmem) with rfl | hq
      · exact absurd (List.contains_iff_mem.2 hmem) hold
      · exact hq

theorem runOn_redirectReports (hs : s.Named) (old new : RowId) :
    (redirectReports old new).runOn s =
      (.ok (if old = new then 0 else (s.reportsListing [old]).length), s.redirected old new) := by
  rw [redirectReports]
  by_cases hne : old = new
  · rw [if_pos hne, if_pos hne, ← hne, Store.redirected_of_forall fun _ _ => Report.replace_self]
    rfl
  · have hlisted : ∀ r, r ∈ s.reportsListing [old] ↔ r ∈ s.reports ∧ old ∈ r.rows := by
      simp [Store.reportsListing]
    have hsub : (s.reportsListing [old]).Sublist s.reports := List.filter_sublist
    have hcount : (s.reportsListing [old]).countP (·.rows.contains old) =
        (s.reportsListing [old]).length := by
      rw [List.countP_eq_length]
      exact fun r hr => List.contains_iff_mem.2 ((hlisted r).1 hr).2
    rw [if_neg hne, if_neg hne, runOn_bind_of_ok (runOn_ask_of_ok rfl), ← hcount]
    exact runOn_redirectEach hne (hs.sublist (hsub.map _)) hs
      (fun r hr => ((hlisted r).1 hr).1) fun r hr hold => (hlisted r).2 ⟨hr, hold⟩

end Versioning

end FormulaLedger
