import FormulaLedger.Proofs.Versioning.Session

set_option autoImplicit false

namespace FormulaLedger

open Versioning

namespace Store

variable {s : Store} {cur : Calculation}

theorem Chained.succeeded_redirected (hs : s.Chained) (hcur : cur ∈ s.rows) (d : Draft) :
    (s.succeeded cur d).redirected cur.id (s.lastId + 1) =
      { lastId := s.lastId + 1
        rows := (s.rows.map fun c => if c.id = cur.id then { cur with latest := false } else c) ++
          [⟨s.lastId + 1, cur.uniqueId, cur.version + 1, true, d⟩]
        versions := s.versions ++ [((cur.uniqueId, cur.version + 1), s.lastId + 1)]
        constants := s.constants
        reports := s.reports.map fun r =>
          { r with rows := r.rows.map fun id => if id = cur.id then s.lastId + 1 else id } } := by
  rw [hs.succeeded_eq hcur rfl]
  rfl

end Store

/-- An edit of a calculation with a latest row, after any run. `R` are the calculations that refer
to it. -/
theorem Run.edit_exact {es : List Episode} {held : List Calculation} {s : Store}
    (h : Run es held s) {u : String} {cur : Calculation} {d : Draft}
    (hcur : s.latest? u = some cur) (hd : d.check u = .ok ()) :
    ∃ R : List String, R.Pairwise (· < ·) ∧
      (∀ x, x ∈ R ↔ x ≠ u ∧ s.PointsAt x (.calculation u)) ∧
      (d.unit ≠ cur.unit ∧ R ≠ [] →
        (editCalculation u d).runOn s =
          (.error (.referenced .calculation u (R.map .calculation)), s)) ∧
      (R = [] ∧ (∀ r ∈ s.reports, ¬ s.Lists r u) →
        (editCalculation u d).runOn s = (.ok (.inPlace cur.id),
          { s with
            rows := s.rows.map fun c => if c.id = cur.id then { cur with draft := d } else c })) ∧
      ((d.unit = cur.unit ∨ R = []) ∧ (R ≠ [] ∨ ∃ r ∈ s.reports, s.Lists r u) →
        ∃ (new : RowId) (t : Store),
          (∀ c ∈ s.rows, c.id < new) ∧ (∀ c ∈ held, c.id < new) ∧
          (editCalculation u d).runOn s = (.ok (.versioned cur.id new (cur.version + 1)
            (s.reports.countP fun r => cur.id ∈ r.rows)), t) ∧
          t.latest? u = some ⟨new, u, cur.version + 1, true, d⟩ ∧
          t =
            { lastId := new
              rows :=
                (s.rows.map fun c => if c.id = cur.id then { cur with latest := false } else c) ++
                  [⟨new, u, cur.version + 1, true, d⟩]
              versions := s.versions ++ [((u, cur.version + 1), new)]
              constants := s.constants
              reports := s.reports.map fun r =>
                { r with rows := r.rows.map fun id => if id = cur.id then new else id } }) := by
  have hs := h.sound.chained
  obtain ⟨hlatest, rfl⟩ := Store.latest?_mem_latestRows hcur
  have hrow := (Store.mem_latestRows.1 hlatest).1
  have hrun := runOn_editCalculation hs h.named cur.uniqueId d
  rw [hd, hcur] at hrun
  dsimp only at hrun
  have hunused : s.referrers .calculation cur.uniqueId = [] ↔
      s.referring .calculation cur.uniqueId = [] ∧ ∀ r ∈ s.reports, ¬ s.Lists r cur.uniqueId := by
    rw [Store.referrers_calculation_eq_nil, Store.reporting_eq_nil]
  refine ⟨s.referring .calculation cur.uniqueId, Store.pairwise_referring,
    fun x => hs.oneLatest.mem_referring_calculation, ?_, ?_, ?_⟩
  · rintro ⟨hunit, hreferring⟩
    rw [hrun, if_pos ⟨hunit.symm, hreferring⟩]
  · rintro ⟨hreferring, hreports⟩
    rw [hrun, if_neg fun hrefused => hrefused.2 hreferring,
      if_pos (hunused.2 ⟨hreferring, hreports⟩), hs.modifyRow_eq hrow]
  · -- the unit may change and the calculation is used, so neither guard applies
    rintro ⟨hkept, hused⟩
    have hallowed : ¬ (cur.unit ≠ d.unit ∧ s.referring .calculation cur.uniqueId ≠ []) := by
      rintro ⟨hunit, hreferring⟩
      exact hkept.elim (fun heq => hunit heq.symm) hreferring
    have hversioned : s.referrers .calculation cur.uniqueId ≠ [] := by
      rw [Ne, hunused]
      rintro ⟨hreferring, hreports⟩
      rcases hused with hne | ⟨r, hr, hlists⟩
      · exact hne hreferring
      · exact hreports r hr hlists
    refine ⟨s.lastId + 1, _, fun c hc => Nat.lt_succ_of_le (hs.issued c hc),
      fun c hc => Nat.lt_succ_of_le (h.sound.held c hc).1, ?_, ?_, rfl⟩
    · rw [hrun, if_neg hallowed, if_neg hversioned, Store.reportsListing_singleton,
        ← List.countP_eq_length_filter, hs.succeeded_redirected hrow]
    · rw [← hs.succeeded_redirected hrow]
      exact (Store.stillLatest_of_mem hlatest).latest?_succeeded hs d

namespace Run

def referringDraft (u : String) : Draft := ⟨"", [.of (.calculation u)]⟩

def revisedStore : Store :=
  ⟨3, [⟨1, "a", 1, false, plainDraft⟩, ⟨2, "a", 2, true, plainDraft⟩,
      ⟨3, "b", 1, true, referringDraft "a"⟩],
    [(("a", 1), 1), (("a", 2), 2), (("b", 1), 3)], [], [⟨"both", [2, 1, 2]⟩]⟩

theorem run_revisedStore : ∃ es, Run es [] revisedStore := by
  let ops : List Operation := [.change (.create "a" plainDraft), .change (.bump "a" plainDraft),
    .change (.create "b" (referringDraft "a")), .insertReport ⟨"both", [2, 1, 2]⟩]
  have hops : ∀ op ∈ ops, op.StartsFrom [] := by
    simp [ops, Operation.StartsFrom, Change.StartsFrom]
  have hstore : ops.foldl (fun s op => (op.procedure.runOn s).2) Store.empty = revisedStore := by
    decide +kernel
  rw [← hstore]
  exact Run.start.runOn_all hops

/-- The calculation that is referred to keeps its unit. An edit that leaves the unit alone stores a
third version, and the report lists it in the two places of the second. -/
theorem edit_exact_revised :
    (∃ es, Run es [] revisedStore) ∧
    (∃ R : List String, "b" ∈ R ∧
      (editCalculation "a" ⟨"USD", plainDraft.expression⟩).runOn revisedStore =
        (.error (.referenced .calculation "a" (R.map .calculation)), revisedStore)) ∧
    ∃ new t, 3 < new ∧ (editCalculation "a" plainDraft).runOn revisedStore =
        (.ok (.versioned 2 new 3 1), t) ∧
      t.reports = [⟨"both", [new, 1, new]⟩] := by
  obtain ⟨es, hrun⟩ := run_revisedStore
  have hcur : revisedStore.latest? "a" = some ⟨2, "a", 2, true, plainDraft⟩ := by decide +kernel
  have hb : "b" ≠ "a" ∧ revisedStore.PointsAt "b" (.calculation "a") :=
    ⟨by decide, ⟨3, "b", 1, true, referringDraft "a"⟩, by decide +kernel, _, List.mem_cons_self,
      rfl⟩
  refine ⟨⟨es, hrun⟩, ?_, ?_⟩
  · obtain ⟨R, _, hR, hrefused, _, _⟩ := hrun.edit_exact hcur
      (show Draft.check ⟨"USD", plainDraft.expression⟩ "a" = .ok () by decide +kernel)
    have hmem := (hR "b").2 hb
    exact ⟨R, hmem, hrefused ⟨by decide, List.ne_nil_of_mem hmem⟩⟩
  · obtain ⟨R, _, hR, _, _, hversioned⟩ := hrun.edit_exact hcur
      (show plainDraft.check "a" = .ok () by decide +kernel)
    obtain ⟨new, t, hfresh, _, heq, _, rfl⟩ :=
      hversioned ⟨.inl rfl, .inl (List.ne_nil_of_mem ((hR "b").2 hb))⟩
    exact ⟨new, _, hfresh ⟨3, "b", 1, true, referringDraft "a"⟩ (by decide), heq, rfl⟩

end Run

end FormulaLedger
