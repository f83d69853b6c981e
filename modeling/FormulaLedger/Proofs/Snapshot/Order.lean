import FormulaLedger.Proofs.Resolution.Locality
import FormulaLedger.Proofs.Resolution.Reporting
import FormulaLedger.Proofs.Resolution.Wording
import FormulaLedger.Proofs.Snapshot.Opening
import FormulaLedger.Proofs.Versioning.Guards

/-!
The order of the constants and of the calculations in a snapshot. It decides which ids the rows get
and nothing else: whether the snapshot opens, what calculations and reports come to, and what refers
to what are the same in every order.
-/

set_option autoImplicit false

namespace FormulaLedger

def ReportRow.shown (row : ReportRow) : Option RowIdentity × Evaluation :=
  (row.identity, row.evaluation)

def ReportEvaluation.shown (e : ReportEvaluation) :
    String × List (Option RowIdentity × Evaluation) × ReportStats :=
  (e.report, e.rows.map ReportRow.shown, e.stats)

theorem ReportStats.of_congr {rows rows' : List ReportRow}
    (h : rows.map ReportRow.shown = rows'.map ReportRow.shown) : of rows = of rows' := by
  have hcount (p : Option RowIdentity × Evaluation → Bool) :
      rows.countP (p ∘ ReportRow.shown) = rows'.countP (p ∘ ReportRow.shown) := by
    rw [← List.countP_map, h, List.countP_map]
  simp only [of, mk.injEq]
  exact ⟨hcount fun x => x.1.isSome, hcount fun x => x.1.isSome && x.2.value.isError,
    hcount fun x => x.1.isSome && !x.2.reasons.isEmpty, hcount fun x => !x.1.isSome⟩

theorem ReportEvaluation.map_said_shown (wording : Wording)
    (x : Except LedgerError ReportEvaluation) :
    (x.map (said wording)).map shown =
      (x.map shown).map fun e =>
        (e.1, e.2.1.map (Prod.map id (Evaluation.said wording)), e.2.2) := by
  cases x with
  | error e => rfl
  | ok e => simp [Except.map, shown, said, ReportRow.shown, ReportRow.said]

namespace Store

def sayLatest (store : Store) (wording : Wording) (setting : Setting) (uniqueId : String) :
    Except LedgerError Evaluation :=
  wording.sayLatest store.lookups setting store.depth uniqueId

def sayReport (store : Store) (wording : Wording) (setting : Setting) (name : String) :
    Except LedgerError ReportEvaluation :=
  wording.sayReport store.lookups setting store.depth name

theorem map_eq_map {α β : Type} (f : α → β) (x : ExceptT LedgerError Id α) :
    (f <$> x : ExceptT LedgerError Id β) = Except.map f x := by
  cases (x : Except LedgerError α) with
  | ok a => rfl
  | error e => rfl

theorem sayLatest_eq (store : Store) (wording : Wording) (setting : Setting) (uniqueId : String) :
    store.sayLatest wording setting uniqueId =
      (store.evaluateLatest setting uniqueId).map (Evaluation.said wording) :=
  (wording.sayLatest_eq store.lookups setting store.depth uniqueId).trans (map_eq_map _ _)

theorem sayReport_eq (store : Store) (wording : Wording) (setting : Setting) (name : String) :
    store.sayReport wording setting name =
      (store.evaluateReport setting name).map (ReportEvaluation.said wording) :=
  (wording.sayReport_eq store.lookups setting store.depth name).trans (map_eq_map _ _)

end Store

theorem find?_perm {α : Type} {as bs : List α} (h : as.Perm bs) {key : α → String}
    (hnodup : (as.map key).Nodup) (k : String) :
    as.find? (fun a => key a == k) = bs.find? fun a => key a == k := by
  cases hfound : as.find? fun a => key a == k with
  | none =>
    refine (List.find?_eq_none.2 fun b hb => ?_).symm
    exact List.find?_eq_none.1 hfound b (h.mem_iff.2 hb)
  | some a =>
    have ha := List.mem_of_find?_eq_some hfound
    have hkey : key a = k := by simpa using List.find?_some hfound
    obtain ⟨b, hb⟩ := Option.isSome_iff_exists.1
      ((List.find?_isSome (p := fun a => key a == k)).2
        ⟨a, h.mem_iff.1 ha, beq_iff_eq.2 hkey⟩)
    have hkey' : key b = k := by simpa using List.find?_some hb
    rw [hb, List.inj_on_of_nodup_map hnodup ha (h.mem_iff.2 (List.mem_of_find?_eq_some hb))
      (hkey.trans hkey'.symm)]

namespace Snapshot

/-! ### A snapshot that is open -/

section

variable {s : Snapshot} {t : Store}

theorem Opens.latest?_entry (h : s.Opens t) {e : CalculationEntry} {d : Draft}
    (he : e ∈ s.calculations) (hdraft : e.draft = .ok d) :
    t.latest? e.uniqueId = some ⟨s.rowId e.uniqueId, e.uniqueId, 1, true, d⟩ := by
  obtain ⟨c, hc, hid⟩ := h.held.latest?_eq h.acceptable.calculations (List.mem_map_of_mem he)
  obtain ⟨hmem, hu⟩ := Store.mem_of_latest? hc
  obtain ⟨i, hi⟩ := List.mem_iff_getElem?.1 hmem
  obtain ⟨e', d', he', hdraft', rfl⟩ := h.held.getElem?_rows hi
  obtain rfl := List.inj_on_of_nodup_map h.acceptable.calculations (List.mem_of_getElem? he') he hu
  obtain rfl := Except.ok.inj (hdraft'.symm.trans hdraft)
  rw [hc, ← hid]

theorem Opens.row?_rowId (h : s.Opens t) {u : String} (hu : u ∈ s.calculationIds) :
    t.row? (s.rowId u) = t.latest? u := by
  obtain ⟨c, hc, hid⟩ := h.held.latest?_eq h.acceptable.calculations hu
  rw [hc, ← hid]
  exact h.chained.row?_of_mem (Store.mem_of_latest? hc).1

theorem Opens.lists_iff (h : s.Opens t) {e : ReportEntry} (he : e ∈ s.reports) (u : String) :
    t.Lists ⟨e.name, e.calculations.map s.rowId⟩ u ↔ u ∈ e.calculations := by
  constructor
  · rintro ⟨c, hc, rfl, hid⟩
    obtain ⟨v, hv, hid⟩ := List.mem_map.1 hid
    obtain ⟨b, hb, hbid⟩ := h.held.latest?_eq h.acceptable.calculations
      (h.acceptable.listed e he v hv)
    obtain ⟨hmem, hbu⟩ := Store.mem_of_latest? hb
    obtain rfl := h.chained.eq_of_id hmem hc (hbid.trans hid)
    rwa [hbu]
  · intro hu
    obtain ⟨c, hc, hid⟩ := h.held.latest?_eq h.acceptable.calculations
      (h.acceptable.listed e he u hu)
    obtain ⟨hmem, hcu⟩ := Store.mem_of_latest? hc
    exact ⟨c, hmem, hcu, List.mem_map.2 ⟨u, hu, hid.symm⟩⟩

theorem Opens.report?_eq (h : s.Opens t) (name : String) : t.report? name =
    (s.reports.find? fun e => e.name == name).map fun e =>
      ⟨e.name, e.calculations.map s.rowId⟩ := by
  rw [Store.report?, h.held.reports, List.find?_map]
  rfl

theorem Opens.shownRows_eq (h : s.Opens t) (setting : Setting) {us : List String}
    (hus : ∀ u ∈ us, u ∈ s.calculationIds) :
    t.shownRows setting (us.map s.rowId) = us.map fun u => t.reportRow setting (s.rowId u) := by
  have hstored : (us.map s.rowId).filter (fun id => (t.row? id).isSome) = us.map s.rowId := by
    refine List.filter_eq_self.2 fun id hid => ?_
    obtain ⟨u, hu, rfl⟩ := List.mem_map.1 hid
    obtain ⟨c, hc, -⟩ := h.held.latest?_eq h.acceptable.calculations (hus u hu)
    rw [h.row?_rowId (hus u hu), hc]
    rfl
  rw [Store.shownRows, hstored, ite_self, List.map_map]
  rfl

theorem Opens.names_reporting (h : s.Opens t) (u : String) :
    (t.reporting u).map (·.name) =
      (s.reports.filter fun e => decide (u ∈ e.calculations)).map (·.name) := by
  rw [Store.reporting_eq, h.held.reports, List.filter_map, List.map_map]
  refine congrArg _ (List.filter_congr fun e he => ?_)
  rw [Bool.eq_iff_iff, decide_eq_true_iff, Function.comp_apply, decide_eq_true_iff]
  exact h.lists_iff he u

end

/-! ### Two orders -/

theorem Acceptable.perm {s s' : Snapshot} (h : s.Acceptable)
    (hconstants : s.constants.Perm s'.constants)
    (hcalculations : s.calculations.Perm s'.calculations) (hreports : s'.reports = s.reports) :
    s'.Acceptable where
  named c hc := h.named c (hconstants.mem_iff.2 hc)
  constants := (hconstants.map _).nodup_iff.1 h.constants
  drafts e he := h.drafts e (hcalculations.mem_iff.2 he)
  calculations := (hcalculations.map _).nodup_iff.1 h.calculations
  listed e he u hu := by
    rw [hreports] at he
    exact (hcalculations.map _).mem_iff.1 (h.listed e he u hu)
  reports := by
    rw [reportNames, hreports]
    exact h.reports

section

variable {s s' : Snapshot} {t t' : Store} (h : s.Opens t) (h' : s'.Opens t')
  (hconstants : s.constants.Perm s'.constants)
  (hcalculations : s.calculations.Perm s'.calculations) (hreports : s'.reports = s.reports)

include h h'

include hcalculations in
/-- The latest row of a calculation is the same but for its id. -/
theorem latest?_perm (u : String) :
    (u ∉ s.calculationIds ∧ t.latest? u = none ∧ t'.latest? u = none) ∨
    ∃ d, t.latest? u = some ⟨s.rowId u, u, 1, true, d⟩ ∧
      t'.latest? u = some ⟨s'.rowId u, u, 1, true, d⟩ := by
  by_cases hu : u ∈ s.calculationIds
  · obtain ⟨e, he, rfl⟩ := List.mem_map.1 hu
    obtain ⟨d, hdraft, -⟩ := h.acceptable.drafts e he
    exact .inr ⟨d, h.latest?_entry he hdraft,
      h'.latest?_entry (hcalculations.mem_iff.1 he) hdraft⟩
  · have hu' : u ∉ s'.calculationIds := mt (hcalculations.map _).mem_iff.2 hu
    exact .inl ⟨hu, h.held.latest?_eq_none hu, h'.held.latest?_eq_none hu'⟩

include hconstants in
theorem constant?_perm (k : String) : t.constant? k = t'.constant? k := by
  rw [Store.constant?, Store.constant?, h.held.constants, h'.held.constants]
  exact find?_perm hconstants h.acceptable.constants k

include hconstants hcalculations in
theorem showsAlike_perm (company : Company) (sheets : Materials) (u : String) :
    Store.ShowsAlike company t t' sheets sheets Set.univ u := by
  obtain ⟨-, hnone, hnone'⟩ | ⟨d, hsome, hsome'⟩ := latest?_perm h h' hcalculations u
  · exact .inl ⟨hnone, hnone'⟩
  · refine .inr ⟨_, _, hsome, hsome', rfl, fun p _ => ?_⟩
    obtain ⟨label, target⟩ := p
    cases target with
    | literal text => trivial
    | constant k => exact congrArg _ (constant?_perm h h' hconstants k)
    | calculation v => trivial
    | cell materialId row column => rfl
    | aggregate materialId scope function => rfl

include hconstants hcalculations in
theorem evaluateRow_perm (setting : Setting) {u : String} {c c' : Calculation}
    (hc : t.latest? u = some c) (hc' : t'.latest? u = some c') :
    t.evaluateRow setting c = t'.evaluateRow setting c' :=
  Store.evaluateWithin_congr setting.options
    (fun v _ => showsAlike_perm h h' hconstants hcalculations setting.company setting.materials v)
    (Set.mem_univ u) hc hc' (Nat.lt_succ_of_le List.countP_le_length)
    (Nat.lt_succ_of_le List.countP_le_length)

include hconstants hcalculations in
theorem evaluateLatest_perm (setting : Setting) (u : String) :
    t.evaluateLatest setting u = t'.evaluateLatest setting u := by
  obtain ⟨-, hnone, hnone'⟩ | ⟨d, hsome, hsome'⟩ := latest?_perm h h' hcalculations u
  · rw [Store.evaluateLatest_of_none setting hnone, Store.evaluateLatest_of_none setting hnone']
  · rw [Store.evaluateLatest_of_some setting hsome, Store.evaluateLatest_of_some setting hsome',
      evaluateRow_perm h h' hconstants hcalculations setting hsome hsome']

include hconstants hcalculations in
theorem shown_reportRow_perm (setting : Setting) {u : String} (hu : u ∈ s.calculationIds) :
    (t.reportRow setting (s.rowId u)).shown = (t'.reportRow setting (s'.rowId u)).shown := by
  have hu' : u ∈ s'.calculationIds := (hcalculations.map _).mem_iff.1 hu
  obtain ⟨hnot, -⟩ | ⟨d, hsome, hsome'⟩ := latest?_perm h h' hcalculations u
  · exact absurd hu hnot
  · have heval := evaluateRow_perm h h' hconstants hcalculations setting hsome hsome'
    rw [Store.reportRow, h.row?_rowId hu, hsome, Store.reportRow, h'.row?_rowId hu', hsome']
    simp only [ReportRow.shown, heval]
    rfl

include hconstants hcalculations hreports in
theorem evaluateReport_perm (setting : Setting) (name : String) :
    (t.evaluateReport setting name).map ReportEvaluation.shown =
      (t'.evaluateReport setting name).map ReportEvaluation.shown := by
  have hfound := h.report?_eq name
  have hfound' := h'.report?_eq name
  rw [hreports] at hfound'
  cases hentry : s.reports.find? fun e => e.name == name with
  | none =>
    rw [hentry] at hfound hfound'
    rw [Store.evaluateReport_of_none setting hfound, Store.evaluateReport_of_none setting hfound']
  | some e =>
    have he := List.mem_of_find?_eq_some hentry
    have hknown := h.acceptable.listed e he
    have hknown' : ∀ u ∈ e.calculations, u ∈ s'.calculationIds := fun u hu =>
      (hcalculations.map _).mem_iff.1 (hknown u hu)
    rw [hentry] at hfound hfound'
    rw [t.evaluateReport_eq setting hfound, t'.evaluateReport_eq setting hfound',
      h.shownRows_eq setting hknown, h'.shownRows_eq setting hknown']
    have hrows : (e.calculations.map fun u => t.reportRow setting (s.rowId u)).map
          ReportRow.shown =
        (e.calculations.map fun u => t'.reportRow setting (s'.rowId u)).map ReportRow.shown := by
      rw [List.map_map, List.map_map]
      exact List.map_congr_left fun u hu =>
        shown_reportRow_perm h h' hconstants hcalculations setting (hknown u hu)
    have hstats : ReportStats.of ((e.calculations.map s.rowId).map (t.reportRow setting)) =
        ReportStats.of ((e.calculations.map s'.rowId).map (t'.reportRow setting)) := by
      rw [List.map_map, List.map_map]
      exact ReportStats.of_congr hrows
    simp only [Except.map, ReportEvaluation.shown, hrows, hstats]

include hcalculations in
theorem referring_perm (kind : EntityKind) (u : String) :
    t.referring kind u = t'.referring kind u := by
  have hone := h.held.oneLatest h.acceptable.calculations
  have hone' := h'.held.oneLatest h'.acceptable.calculations
  have hnodup {store : Store} : (store.referring kind u).Nodup :=
    Store.pairwise_referring.imp fun {a b} hlt heq => by
      subst heq
      exact String.lt_irrefl a hlt
  -- both are sorted and free of repetition, so it is enough that the same calculations refer
  refine List.Perm.eq_of_pairwise (fun x y _ _ hlt hgt => ?_) Store.pairwise_referring
    Store.pairwise_referring ((List.perm_ext_iff_of_nodup hnodup hnodup).2 fun x => ?_)
  · exact absurd (String.lt_trans hlt hgt) (String.lt_irrefl x)
  · rw [hone.mem_referring_iff, hone'.mem_referring_iff]
    refine and_congr_right fun _ => ?_
    obtain ⟨-, hnone, hnone'⟩ | ⟨d, hsome, hsome'⟩ := latest?_perm h h' hcalculations x
    · simp [Store.PointsAt, hnone, hnone']
    · simp [Store.PointsAt, hsome, hsome', Calculation.expression]

include hcalculations hreports in
theorem referrers_perm (kind : EntityKind) (u : String) :
    t.referrers kind u = t'.referrers kind u := by
  have hnames : (t.reporting u).map (·.name) = (t'.reporting u).map (·.name) := by
    rw [h.names_reporting, h'.names_reporting, hreports]
  unfold Store.referrers
  rw [referring_perm h h' hcalculations]
  cases kind with
  | constant => rfl
  | calculation =>
    have hreferrers (r : List Report) : r.map (fun r => Referrer.report r.name) =
        (r.map (·.name)).map Referrer.report := by rw [List.map_map]; rfl
    dsimp only
    rw [hreferrers, hreferrers, hnames]

end

/-- A snapshot that opens opens as well with its constants and its calculations in another order,
and to the same sheets. For every company and all options, in every wording, calculations come to
the same, and so do reports, the ids of their rows aside. What refers to an entity is the same too,
in the same order. -/
theorem order_immaterial (s : Snapshot) {constants : List Constant}
    {calculations : List CalculationEntry} (hconstants : s.constants.Perm constants)
    (hcalculations : s.calculations.Perm calculations) {t : Store} {sheets : Materials}
    (h : s.build = .ok (t, sheets)) :
    ∃ t', ({ s with constants, calculations } : Snapshot).build = .ok (t', sheets) ∧
      (∀ (company : Company) (options : Options),
        (∀ u, t.evaluateLatest ⟨sheets, company, options⟩ u =
          t'.evaluateLatest ⟨sheets, company, options⟩ u) ∧
        (∀ name, (t.evaluateReport ⟨sheets, company, options⟩ name).map ReportEvaluation.shown =
          (t'.evaluateReport ⟨sheets, company, options⟩ name).map ReportEvaluation.shown) ∧
        ∀ wording : Wording,
          (∀ u, t.sayLatest wording ⟨sheets, company, options⟩ u =
            t'.sayLatest wording ⟨sheets, company, options⟩ u) ∧
          ∀ name, (t.sayReport wording ⟨sheets, company, options⟩ name).map
              ReportEvaluation.shown =
            (t'.sayReport wording ⟨sheets, company, options⟩ name).map ReportEvaluation.shown) ∧
      ∀ (kind : EntityKind) (u : String),
        ((Versioning.referrers kind u).runOn t).1 = ((Versioning.referrers kind u).runOn t').1 := by
  obtain ⟨hopens, rfl⟩ := opens_of_build h
  have hacceptable : Acceptable { s with constants, calculations } :=
    hopens.acceptable.perm hconstants hcalculations rfl
  obtain ⟨t', hbuild', hopens'⟩ := build_of_acceptable hacceptable
  refine ⟨t', hbuild', fun company options => ?_, fun kind u => ?_⟩
  · have hlatest := evaluateLatest_perm hopens hopens' hconstants hcalculations
      ⟨s.sheets, company, options⟩
    have hreport := evaluateReport_perm hopens hopens' hconstants hcalculations rfl
      ⟨s.sheets, company, options⟩
    refine ⟨hlatest, hreport, fun wording => ⟨fun u => ?_, fun name => ?_⟩⟩
    · rw [Store.sayLatest_eq, Store.sayLatest_eq, hlatest]
    · rw [Store.sayReport_eq, Store.sayReport_eq, ReportEvaluation.map_said_shown,
        ReportEvaluation.map_said_shown, hreport]
  · rw [Versioning.runOn_referrers, Versioning.runOn_referrers,
      referrers_perm hopens hopens' hcalculations rfl]

/-- The rows get other ids, and the report lists them in the order in which it did. -/
theorem order_immaterial_reversed : ∃ t t' sheets,
    forwardSnapshot.build = .ok (t, sheets) ∧
    { forwardSnapshot with calculations := forwardSnapshot.calculations.reverse }.build =
      .ok (t', sheets) ∧
    t.reports = [⟨"summary", [2, 1]⟩] ∧ t'.reports = [⟨"summary", [1, 2]⟩] ∧
    ∀ company options, t.evaluateLatest ⟨sheets, company, options⟩ "total" =
      t'.evaluateLatest ⟨sheets, company, options⟩ "total" := by
  obtain ⟨t, sheets, hbuild⟩ := build_forwardSnapshot
  obtain ⟨t', hbuild', hsame, -⟩ := order_immaterial forwardSnapshot (List.Perm.refl _)
    (List.reverse_perm _).symm hbuild
  refine ⟨t, t', sheets, hbuild, hbuild', ?_, ?_,
    fun company options => (hsame company options).1 "total"⟩
  · exact (opens_of_build hbuild).1.held.reports.trans (by decide)
  · exact (opens_of_build hbuild').1.held.reports.trans (by decide)

end Snapshot

end FormulaLedger
