import FormulaLedger.Proofs.Resolution.Reporting
import FormulaLedger.Proofs.Versioning.Session

set_option autoImplicit false

namespace FormulaLedger

namespace Store

variable {s t : Store} {ids : List RowId}

def AllLatest (s : Store) (ids : List RowId) : Prop := ∀ id ∈ ids, ∃ c ∈ s.latestRows, c.id = id

instance (s : Store) (ids : List RowId) : Decidable (s.AllLatest ids) :=
  inferInstanceAs (Decidable (∀ id ∈ ids, ∃ c ∈ s.latestRows, c.id = id))

def ListsLatest (s : Store) : Prop := ∀ r ∈ s.reports, s.AllLatest r.rows

instance (s : Store) : Decidable s.ListsLatest :=
  inferInstanceAs (Decidable (∀ r ∈ s.reports, s.AllLatest r.rows))

theorem AllLatest.mono (h : s.AllLatest ids)
    (hkept : ∀ c ∈ s.latestRows, ∃ d ∈ t.latestRows, d.id = c.id) : t.AllLatest ids := by
  intro id hid
  obtain ⟨c, hc, rfl⟩ := h id hid
  exact hkept c hc

theorem AllLatest.succeeded (h : s.AllLatest ids) (c : Calculation) (d : Draft) :
    ∀ id ∈ ids, id ≠ c.id → ∃ b ∈ (s.succeeded c d).latestRows, b.id = id := by
  intro id hid hne
  obtain ⟨b, hb, rfl⟩ := h id hid
  exact ⟨b, mem_latestRows_withRow _ (mem_latestRows_modifyRow_of_ne _ hb hne), rfl⟩

theorem ListsLatest.versioned (h : s.ListsLatest) (c : Calculation) (d : Draft) :
    ((s.succeeded c d).redirected c.id (s.lastId + 1)).ListsLatest := by
  intro r hr
  obtain ⟨q, hq, rfl⟩ := List.mem_map.1 hr
  intro id hid
  rcases Report.mem_replace.1 hid with ⟨rfl, _⟩ | ⟨hne, hid⟩
  · exact ⟨_, stored_mem_latestRows rfl, rfl⟩
  · exact (h q hq).succeeded c d id hid hne

theorem ListsLatest.deleteCalculation {u : String} (h : s.ListsLatest)
    (hfree : s.reporting u = []) : (s.deleteCalculation u).2.ListsLatest := by
  intro r hr id hid
  obtain ⟨c, hc, rfl⟩ := h r hr id hid
  have hne : c.uniqueId ≠ u := by
    intro hu
    have hrev := mem_revisions.2 ⟨(mem_latestRows.1 hc).1, hu⟩
    have hlisted := mem_reporting (s := s).2 ⟨hr, c, hrev, hid⟩
    rw [hfree] at hlisted
    contradiction
  exact ⟨c, mem_latestRows_deleteCalculation hc hne, rfl⟩

theorem ListsLatest.editInPlace (h : s.ListsLatest) (id : RowId) (d : Draft) :
    (s.modifyRow id fun c => { c with draft := d }).ListsLatest := by
  refine fun r hr => (h r hr).mono fun c hc => ?_
  by_cases hid : c.id = id
  · subst hid
    exact ⟨_, mem_latestRows_modifyRow_self hc (mem_latestRows.1 hc).2, rfl⟩
  · exact ⟨c, mem_latestRows_modifyRow_of_ne _ hc hid, rfl⟩

theorem ListsLatest.answer (h : s.ListsLatest) {r : Request} (hrows : r.writesRows = false)
    (hreports : r.writesReports = false) : (s.answer r).2.ListsLatest := by
  intro q hq
  rw [s.answer_reports hreports] at hq
  rw [AllLatest, latestRows_of_rows_eq (s.answer_sameRows hrows).1]
  exact h q hq

end Store

namespace Operation

/-- The operation is no bump, and a report is given latest rows only. -/
def ListsLatest (s : Store) : Operation → Prop
  | .change (.bump _ _) | .change (.bumpFrom _ _) => False
  | .insertReport r | .updateReport r => s.AllLatest r.rows
  | _ => True

theorem ListsLatest.startsFrom {s : Store} {op : Operation} (h : op.ListsLatest s) :
    op.StartsFrom [] := by
  cases op with
  | change x =>
    cases x with
    | bumpFrom copy d => exact h.elim
    | create u d => trivial
    | bump u d => trivial
    | edit u d => trivial
  | _ => trivial

theorem Effect.listsLatest {s t : Store} {op : Operation} (h : op.Effect s t)
    (hop : op.ListsLatest s) (hs : s.ListsLatest) : t.ListsLatest := by
  cases h with
  | refused => exact hs
  | created _ _ =>
    exact fun r hr => (hs r hr).mono fun c hc => ⟨c, Store.mem_latestRows_withRow _ hc, rfl⟩
  | bumped _ _ => exact hop.elim
  | bumpedFrom _ _ _ _ => exact hop.elim
  | @edited c d _ _ _ => exact hs.editInPlace c.id d
  | @versioned c d _ _ _ => exact hs.versioned c d
  | removed hfree => exact hs.deleteCalculation (Store.referrers_calculation_eq_nil.1 hfree).2
  | constantCreated _ => exact hs.answer rfl rfl
  | constantEdited _ _ => exact hs.answer rfl rfl
  | constantRemoved _ => exact hs.answer rfl rfl
  | reportInserted r =>
    refine Store.change_induction hs fun t ht => ?_
    unfold Store.insertReport at ht
    split at ht
    · contradiction
    · cases ht
      intro q hq
      rcases List.mem_append.1 hq with hq | hq
      · exact hs q hq
      · obtain rfl := List.mem_singleton.1 hq
        exact hop
  | reportUpdated r =>
    refine Store.change_induction hs fun t ht => ?_
    unfold Store.updateReport at ht
    split at ht
    · contradiction
    · cases ht
      intro q hq
      rcases Store.mem_withReport hq with rfl | ⟨hq, _⟩
      · exact hop
      · exact hs q hq

end Operation

theorem Session.listsLatest {s : Store} (h : Session (fun s op => op.ListsLatest s) s) :
    s.ListsLatest := by
  induction h with
  | start => exact fun r hr => absurd hr List.not_mem_nil
  | perform hsession hop ih =>
    obtain ⟨es, hrun, _⟩ := hsession.run fun s op => Operation.ListsLatest.startsFrom
    have heffect := Operation.effect hrun.sound.chained hrun.named hrun.sound.held hop.startsFrom
    exact heffect.listsLatest hop ih

namespace Store

variable {s : Store} (setting : Setting)

/-- A row of an evaluated report is one of a latest revision, and its evaluation is that of the
revision with nothing added. -/
def Shows (s : Store) (row : ReportRow) : Prop :=
  ∃ c ∈ s.latestRows, c.id = row.id ∧ row.identity = some ⟨c.uniqueId, c.version, c.unit⟩ ∧
    row.evaluation = s.evaluateRow setting c

theorem Shows.not_stale {row : ReportRow} (h : s.Shows setting row) (x : String) :
    Reason.about .staleRevision x ∉ row.evaluation.reasons := by
  obtain ⟨c, _, _, _, heq⟩ := h
  rw [heq]
  intro hmem
  exact (s.arises_evaluateWithin setting _ _ c _ hmem).1 rfl

theorem Chained.shows_reportRow (hs : s.Chained) {ids : List RowId} (hids : s.AllLatest ids)
    {id : RowId} (hid : id ∈ ids) : s.Shows setting (s.reportRow setting id) := by
  obtain ⟨c, hc, rfl⟩ := hids id hid
  obtain ⟨hmem, hlatest⟩ := mem_latestRows.1 hc
  have hstaleness : Evaluation.staleness c = [] := if_pos hlatest
  refine ⟨c, hc, ?_⟩
  rw [reportRow, hs.row?_of_mem hmem]
  dsimp only
  rw [hstaleness, List.append_nil]
  exact ⟨rfl, rfl, rfl⟩

theorem Chained.evaluateReport (hs : s.Chained) (hlists : s.ListsLatest) {r : Report}
    (hr : r ∈ s.reports) :
    ∃ e, s.evaluateReport setting r.name = .ok e ∧ e.stats.missing = 0 ∧
      ∀ row ∈ e.rows, s.Shows setting row := by
  have hname : (s.report? r.name).isSome = true :=
    (s.report?_isSome_iff r.name).2 (List.mem_map_of_mem hr)
  obtain ⟨q, hq⟩ := Option.isSome_iff_exists.1 hname
  have hshows (id : RowId) (hid : id ∈ q.rows) : s.Shows setting (s.reportRow setting id) :=
    hs.shows_reportRow setting (hlists q (List.mem_of_find?_eq_some hq)) hid
  refine ⟨_, s.evaluateReport_eq setting hq, List.countP_eq_zero.2 fun row hrow => ?_,
    fun row hrow => ?_⟩
  · obtain ⟨id, hid, rfl⟩ := List.mem_map.1 hrow
    obtain ⟨c, _, _, hidentity, _⟩ := hshows id hid
    rw [ReportRow.isStored, hidentity]
    exact Bool.false_ne_true
  · obtain ⟨id, hid, rfl⟩ := s.mem_shownRows setting hrow
    exact hshows id hid

end Store

/-- Where operations other than bumps are done and reports are given latest rows, every report goes
on to list latest rows: its evaluation misses none and finds none stale. -/
theorem Session.reports_current {s : Store} (h : Session (fun s op => op.ListsLatest s) s) :
    (∀ r ∈ s.reports, ∀ id ∈ r.rows, ∃ c, s.row? id = some c ∧ c.latest = true) ∧
      ∀ (setting : Setting), ∀ r ∈ s.reports, ∃ e, s.evaluateReport setting r.name = .ok e ∧
        e.stats.missing = 0 ∧ ∀ row ∈ e.rows, s.Shows setting row ∧
          ∀ x, Reason.about .staleRevision x ∉ row.evaluation.reasons := by
  obtain ⟨es, hrun, _⟩ := h.run fun s op => Operation.ListsLatest.startsFrom
  have hs := hrun.sound.chained
  constructor
  · intro r hr id hid
    obtain ⟨c, hc, rfl⟩ := h.listsLatest r hr id hid
    obtain ⟨hmem, hlatest⟩ := Store.mem_latestRows.1 hc
    exact ⟨c, hs.row?_of_mem hmem, hlatest⟩
  · intro setting r hr
    obtain ⟨e, heq, hmissing, hrows⟩ := hs.evaluateReport setting h.listsLatest hr
    exact ⟨e, heq, hmissing, fun row hrow => ⟨hrows row hrow, (hrows row hrow).not_stale⟩⟩

/-- A calculation that a report lists is edited, and the report lists its new version. -/
theorem Session.reports_current_edited :
    ∃ s, Session (fun s op => op.ListsLatest s) s ∧ s.reports = [⟨"summary", [2]⟩] ∧
      ∃ c, s.row? 2 = some c ∧ c.latest = true := by
  let create : Operation := .change (.create "a" Run.plainDraft)
  let insert : Operation := .insertReport ⟨"summary", [1]⟩
  let edit : Operation := .change (.edit "a" Run.plainDraft)
  let created := (create.procedure.runOn Store.empty).2
  let listed := (insert.procedure.runOn created).2
  let edited := (edit.procedure.runOn listed).2
  have hlatest : ∀ id ∈ [1], ∃ c ∈ created.latestRows, c.id = id := by decide +kernel
  have hcreated : Session (fun s op => op.ListsLatest s) created := .perform .start trivial
  have hlisted : Session (fun s op => op.ListsLatest s) listed := .perform hcreated hlatest
  have hedited : Session (fun s op => op.ListsLatest s) edited := .perform hlisted trivial
  have hreports : edited.reports = [⟨"summary", [2]⟩] := by decide +kernel
  have hmem : ⟨"summary", [2]⟩ ∈ edited.reports := by
    rw [hreports]
    exact List.mem_cons_self
  exact ⟨edited, hedited, hreports,
    hedited.reports_current.1 _ hmem 2 List.mem_cons_self⟩

end FormulaLedger
