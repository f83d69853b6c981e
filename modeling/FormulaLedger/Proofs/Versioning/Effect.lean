import FormulaLedger.Proofs.Store.Latest
import FormulaLedger.Proofs.Versioning.Guards
import FormulaLedger.Proofs.Versioning.Redirection
import FormulaLedger.Proofs.Versioning.Run

set_option autoImplicit false

namespace FormulaLedger

namespace Store

def succeeded (s : Store) (c : Calculation) (d : Draft) : Store :=
  (s.modifyRow c.id fun c => { c with latest := false }).withRow
    ⟨c.uniqueId, c.version + 1, true, d⟩

/-- A row that was read is a latest one, whatever it says by now. -/
def StillLatest (s : Store) (copy : Calculation) : Prop :=
  ∃ c ∈ s.latestRows, c.id = copy.id ∧ c.uniqueId = copy.uniqueId ∧ c.version = copy.version

section

variable {s : Store} {copy : Calculation}

theorem stillLatest_of_mem {c : Calculation} (h : c ∈ s.latestRows) : s.StillLatest c :=
  ⟨c, h, rfl, rfl, rfl⟩

theorem StillLatest.row? (hs : s.Chained) (h : s.StillLatest copy) :
    ∃ c, s.row? copy.id = some c ∧ c.latest = true := by
  obtain ⟨c, hc, hid, _, _⟩ := h
  obtain ⟨hmem, hlatest⟩ := mem_latestRows.1 hc
  exact ⟨c, hs.row?_eq_some_iff.2 ⟨hmem, hid⟩, hlatest⟩

theorem Agrees.stillLatest_iff (hcopy : s.Agrees copy) (hs : s.Chained) :
    (s.row? copy.id).any (·.latest) = true ↔ s.StillLatest copy := by
  rw [Option.any_eq_true]
  constructor
  · rintro ⟨c, hrow, hlatest⟩
    obtain ⟨hmem, hid⟩ := hs.row?_eq_some_iff.1 hrow
    exact ⟨c, mem_latestRows.2 ⟨hmem, hlatest⟩, hid, hcopy.2 c hmem hid⟩
  · exact fun h => h.row? hs

theorem StillLatest.lookup_next (hs : s.Chained) (h : s.StillLatest copy) :
    s.versions.lookup (copy.uniqueId, copy.version + 1) = none := by
  obtain ⟨c, hc, _, hu, hv⟩ := h
  rw [← hu, ← hv, hs.lookup_next hc]

theorem StillLatest.answer_version (hs : s.Chained) (h : s.StillLatest copy) :
    s.answer (.version copy.uniqueId (copy.version + 1)) = (.ok none, s) := by
  rw [Store.answer, version?, h.lookup_next hs, Option.bind_none]

theorem StillLatest.answer_freeze (hs : s.Chained) (h : s.StillLatest copy) :
    s.answer (.setLatest copy.id false) =
      (.ok true, s.modifyRow copy.id fun c => { c with latest := false }) := by
  obtain ⟨c, hrow, hlatest⟩ := h.row? hs
  rw [answer_setLatest_of_some hrow, hlatest]

theorem StillLatest.answer_insertNext (hs : s.Chained) (h : s.StillLatest copy) (d : Draft) :
    (s.modifyRow copy.id fun c => { c with latest := false }).answer
      (.insertRow ⟨copy.uniqueId, copy.version + 1, true, d⟩) =
      (.ok (s.lastId + 1), s.succeeded copy d) := by
  refine answer_insertRow_of_free _ ?_
  change (s.versions.lookup (copy.uniqueId, copy.version + 1)).isSome = false
  rw [h.lookup_next hs]
  rfl

theorem StillLatest.moves (hs : s.Chained) (h : s.StillLatest copy) (d : Draft) :
    (Change.bumpFrom copy d).Move s .idle (.frozen copy.id) none
        (s.modifyRow copy.id fun c => { c with latest := false }) ∧
      ∃ i, (Change.bumpFrom copy d).Move (s.modifyRow copy.id fun c => { c with latest := false })
        (.frozen copy.id) (.stored (s.lastId + 1)) i (s.succeeded copy d) := by
  obtain ⟨c, hc, hid, hu, hv⟩ := h
  obtain ⟨hmem, hlatest⟩ := mem_latestRows.1 hc
  have hrev : c ∈ s.revisions copy.uniqueId := mem_revisions.2 ⟨hmem, hu⟩
  have hnext : (Change.bumpFrom copy d).nextRow
      (s.modifyRow c.id fun c => { c with latest := false }) =
        ⟨copy.uniqueId, copy.version + 1, true, d⟩ := by
    rw [Change.nextRow, Change.uniqueId, revisions_modifyRow _ _ (keepsKey_latest false),
      List.length_map, ← (hs.chain copy.uniqueId).last_of_latest c hrev hlatest, hv]
    rfl
  rw [succeeded, ← hid, ← hnext]
  exact ⟨.freeze hrev hlatest, _, .store (.inr rfl)⟩

theorem StillLatest.frozen (hs : s.Chained) (h : s.StillLatest copy) :
    (s.modifyRow copy.id fun c => { c with latest := false }).Frozen copy.uniqueId :=
  (h.moves hs copy.draft).1.frozen hs (fun h => by contradiction) rfl

theorem StillLatest.latest?_frozen (hs : s.Chained) (h : s.StillLatest copy) :
    (s.modifyRow copy.id fun c => { c with latest := false }).latest? copy.uniqueId = none :=
  latest?_eq_none_iff.2 (h.frozen hs).2

theorem StillLatest.row?_frozen (hs : s.Chained) (h : s.StillLatest copy) :
    ∃ c : Calculation, (s.modifyRow copy.id fun c => { c with latest := false }).row? copy.id =
      some { c with latest := false } := by
  have hchained : (s.modifyRow copy.id fun c => { c with latest := false }).Chained :=
    hs.modifyRow (keepsKey_latest false) fun _ _ _ h => by contradiction
  obtain ⟨c, hc, hid, _, _⟩ := h
  exact ⟨c, hchained.row?_eq_some_iff.2
    ⟨List.mem_map.2 ⟨c, (mem_latestRows.1 hc).1, if_pos hid⟩, hid⟩⟩

theorem StillLatest.restored (hs : s.Chained) (h : s.StillLatest copy) :
    (s.modifyRow copy.id fun c => { c with latest := false }).modifyRow copy.id
      (fun c => { c with latest := true }) = s := by
  obtain ⟨c, hc, hid, _, _⟩ := h
  obtain ⟨hmem, hlatest⟩ := mem_latestRows.1 hc
  have hrows : (s.rows.map fun b => if b.id = copy.id then { b with latest := false } else b).map
      (fun b => if b.id = copy.id then { b with latest := true } else b) = s.rows := by
    rw [List.map_map]
    refine (List.map_congr_left fun b hb => ?_).trans (List.map_id _)
    by_cases heq : b.id = copy.id
    · obtain rfl := hs.eq_of_id hb hmem (heq.trans hid.symm)
      simp only [Function.comp_apply, heq, ↓reduceIte, id_eq]
      rw [← hlatest, ← heq]
    · simp [heq]
  exact congrArg (fun rows => { s with rows }) hrows

theorem StillLatest.latest?_succeeded (hs : s.Chained) (h : s.StillLatest copy) (d : Draft) :
    (s.succeeded copy d).latest? copy.uniqueId =
      some ⟨s.lastId + 1, copy.uniqueId, copy.version + 1, true, d⟩ :=
  latest?_withRow_of_none rfl (h.latest?_frozen hs)

theorem Chained.modifyRow_eq (hs : s.Chained) {c : Calculation} (hc : c ∈ s.rows)
    (f : Calculation → Calculation) : s.modifyRow c.id f =
      { s with rows := s.rows.map fun b => if b.id = c.id then f c else b } := by
  have hrows : s.rows.map (fun b => if b.id = c.id then f b else b) =
      s.rows.map fun b => if b.id = c.id then f c else b := by
    refine List.map_congr_left fun b hb => ?_
    by_cases hid : b.id = c.id
    · rw [hs.eq_of_id hb hc hid]
    · rw [if_neg hid, if_neg hid]
  rw [Store.modifyRow, hrows]

/-- The row that a copy was made of is frozen, its successor comes last, and the index says so. -/
theorem Chained.succeeded_eq (hs : s.Chained) {c : Calculation} (hc : c ∈ s.rows)
    (hid : c.id = copy.id) (d : Draft) : s.succeeded copy d =
      { lastId := s.lastId + 1
        rows := (s.rows.map fun b => if b.id = copy.id then { c with latest := false } else b) ++
          [⟨s.lastId + 1, copy.uniqueId, copy.version + 1, true, d⟩]
        versions := s.versions ++ [((copy.uniqueId, copy.version + 1), s.lastId + 1)]
        constants := s.constants
        reports := s.reports } := by
  rw [succeeded, ← hid, hs.modifyRow_eq hc]
  rfl

end

end Store

namespace Versioning

open Procedure

variable {s : Store}

theorem runOn_createCalculation (hs : s.Chained) (u : String) (d : Draft) :
    (createCalculation u d).runOn s =
      match d.check u with
      | .error fault => (.error (.invalid (.expression fault)), s)
      | .ok () =>
        if s.revisions u = [] then (.ok (s.lastId + 1), s.withRow (.first u d))
        else (.error (.alreadyExists .calculation u), s) := by
  rw [createCalculation, runOn_bind, runOn_validate]
  cases d.check u with
  | error fault => rfl
  | ok _ =>
    simp only [Except.mapError]
    rw [runOn_bind_of_ok (runOn_ask_of_ok rfl), hs.history_eq]
    cases hrows : s.revisions u with
    | cons c cs => rfl
    | nil =>
      have hfree : (s.versions.lookup (u, 1)).isSome = false := by
        rw [Bool.eq_false_iff, Ne, hs.lookup_isSome_iff, hrows, List.length_nil]
        omega
      exact runOn_ask_of_ok (Store.answer_insertRow_of_free _ hfree)

theorem runOn_bumpFrom (hs : s.Chained) {copy : Calculation} (hcopy : s.Agrees copy) (d : Draft) :
    (bumpFrom copy d).runOn s =
      if (s.row? copy.id).any (·.latest) = true then (.ok (s.lastId + 1), s.succeeded copy d)
      else (.error (.stale copy.uniqueId copy.id), s) := by
  unfold bumpFrom
  rw [runOn_bind_of_ok (runOn_ask_of_ok rfl)]
  by_cases hlatest : (s.row? copy.id).any (·.latest) = true
  · have hstill := (hcopy.stillLatest_iff hs).1 hlatest
    rw [if_pos hlatest, hlatest]
    simp only [Bool.not_true, Bool.false_eq_true, ↓reduceIte]
    rw [runOn_bind_of_ok (runOn_ask_of_ok (hstill.answer_version hs))]
    simp only [Option.isSome_none, Bool.false_eq_true, ↓reduceIte]
    rw [runOn_bind_of_ok (runOn_ask_of_ok (hstill.answer_freeze hs))]
    simp only [Bool.not_true, Bool.false_eq_true, ↓reduceIte]
    rw [insertNext, runOn_bind_of_ok (runOn_attempt _ _), hstill.answer_insertNext hs]
    rfl
  · rw [if_neg hlatest, Bool.eq_false_iff.2 hlatest]
    rfl

theorem runOn_bumpFrom_latest (hs : s.Chained) {u : String} {c : Calculation}
    (hc : s.latest? u = some c) (d : Draft) :
    (bumpFrom c d).runOn s = (.ok (s.lastId + 1), s.succeeded c d) := by
  obtain ⟨hmem, hlatest⟩ := Store.mem_latestRows.1 (Store.latest?_mem_latestRows hc).1
  rw [runOn_bumpFrom hs (hs.agrees hmem), hs.row?_of_mem hmem]
  exact if_pos hlatest

theorem runOn_bumpVersion (hs : s.Chained) (u : String) (d : Draft) :
    (bumpVersion u d).runOn s =
      match d.check u with
      | .error fault => (.error (.invalid (.expression fault)), s)
      | .ok () =>
        match s.latest? u with
        | some c => (.ok (s.lastId + 1), s.succeeded c d)
        | none => (.error (s.noLatest u), s) := by
  rw [bumpVersion, runOn_bind, runOn_validate]
  cases d.check u with
  | error fault => rfl
  | ok _ =>
    simp only [Except.mapError]
    rw [runOn_bind, runOn_latestForEdit]
    cases hlatest : s.latest? u with
    | none => rfl
    | some c => exact runOn_bumpFrom_latest hs hlatest d

theorem runOn_editInPlace (hs : s.Chained) {u : String} {c : Calculation}
    (hc : s.latest? u = some c) (d : Draft) : (editInPlace c d).runOn s =
      (.ok (.inPlace c.id), s.modifyRow c.id fun c => { c with draft := d }) := by
  obtain ⟨hmem, hlatest⟩ := Store.mem_latestRows.1 (Store.latest?_mem_latestRows hc).1
  have hupdate : s.answer (.updateLatest c.id d) =
      (.ok (), s.modifyRow c.id fun c => { c with draft := d }) := by
    rw [Store.answer_updateLatest_of_some (hs.row?_of_mem hmem), if_pos hlatest]
  rw [editInPlace, runOn_bind_of_ok (runOn_attempt _ _), hupdate]
  rfl

theorem runOn_editAsVersion (hs : s.Chained) (hn : s.Named) {u : String} {c : Calculation}
    (hc : s.latest? u = some c) (d : Draft) : (editAsVersion c d).runOn s =
      (.ok (.versioned c.id (s.lastId + 1) (c.version + 1) (s.reportsListing [c.id]).length),
        (s.succeeded c d).redirected c.id (s.lastId + 1)) := by
  have hold : c.id ≠ s.lastId + 1 := by
    have hle := hs.issued c (Store.mem_latestRows.1 (Store.latest?_mem_latestRows hc).1).1
    exact Nat.ne_of_lt (Nat.lt_succ_of_le hle)
  have hnamed : (s.succeeded c d).Named := hn
  rw [editAsVersion, runOn_bind_of_ok (runOn_bumpFrom_latest hs hc d),
    runOn_bind_of_ok (runOn_redirectReports hnamed _ _), if_neg hold]
  rfl

/-- The unit stays as it is, or no other calculation refers to the edited one. What nothing uses is
changed where it stands. -/
theorem runOn_editCalculation (hs : s.Chained) (hn : s.Named) (u : String) (d : Draft) :
    (editCalculation u d).runOn s =
      match d.check u with
      | .error fault => (.error (.invalid (.expression fault)), s)
      | .ok () =>
        match s.latest? u with
        | none => (.error (s.noLatest u), s)
        | some c =>
          if c.unit ≠ d.unit ∧ s.referring .calculation u ≠ [] then
            (.error (.referenced .calculation u ((s.referring .calculation u).map .calculation)), s)
          else if s.referrers .calculation u = [] then
            (.ok (.inPlace c.id), s.modifyRow c.id fun c => { c with draft := d })
          else
            (.ok (.versioned c.id (s.lastId + 1) (c.version + 1)
              (s.reportsListing [c.id]).length),
              (s.succeeded c d).redirected c.id (s.lastId + 1)) := by
  unfold editCalculation
  rw [runOn_bind, runOn_validate]
  cases d.check u with
  | error fault => rfl
  | ok _ =>
    simp only [Except.mapError]
    rw [runOn_bind, runOn_latestForEdit]
    cases hlatest : s.latest? u with
    | none => rfl
    | some c =>
      obtain ⟨_, rfl⟩ := Store.latest?_mem_latestRows hlatest
      have hguard : ((c.identity.difference? ⟨c.uniqueId, d.unit⟩).isSome &&
          !((s.referring .calculation c.uniqueId).map Referrer.calculation).isEmpty) = true ↔
          c.unit ≠ d.unit ∧ s.referring .calculation c.uniqueId ≠ [] := by
        rw [Bool.and_eq_true, ← Option.not_isNone, Bool.not_eq_true', Bool.eq_false_iff, Ne,
          Identity.difference?_isNone]
        simp [Calculation.identity]
      dsimp only
      rw [runOn_bind_of_ok (runOn_expressionReferrers _ _ _)]
      by_cases hrefused : c.unit ≠ d.unit ∧ s.referring .calculation c.uniqueId ≠ []
      · rw [if_pos hrefused, if_pos (hguard.2 hrefused)]
        rfl
      · rw [if_neg hrefused, if_neg (mt hguard.1 hrefused),
          runOn_bind_of_ok (runOn_isUnused _ _)]
        by_cases hunused : s.referrers .calculation c.uniqueId = []
        · rw [if_pos hunused, if_pos (List.isEmpty_iff.2 hunused)]
          exact runOn_editInPlace hs hlatest d
        · rw [if_neg hunused, if_neg (mt List.isEmpty_iff.1 hunused)]
          exact runOn_editAsVersion hs hn hlatest d

theorem runOn_deleteCalculation (s : Store) (u : String) : (deleteCalculation u).runOn s =
    match s.latest? u with
    | none => (.error (.calculationNotFound u), s)
    | some _ =>
      if s.referrers .calculation u = [] then
        (.ok (s.deleteCalculation u).1, (s.deleteCalculation u).2)
      else (.error (.referenced .calculation u (s.referrers .calculation u)), s) := by
  rw [deleteCalculation, runOn_bind, runOn_latest]
  cases s.latest? u with
  | none => rfl
  | some c =>
    dsimp only
    rw [runOn_bind, runOn_assertDeletable]
    by_cases hfree : s.referrers .calculation u = []
    · rw [if_pos hfree, if_pos hfree]
      exact runOn_ask_of_ok rfl
    · rw [if_neg hfree, if_neg hfree]

theorem store_of_deleteCalculation {u : String} {n : Nat} {t : Store}
    (h : (deleteCalculation u).runOn s = (.ok n, t)) : t = (s.deleteCalculation u).2 := by
  rw [runOn_deleteCalculation] at h
  split at h
  · cases h
  · split at h
    · cases h
      rfl
    · cases h

theorem runOn_createConstant (s : Store) (c : Constant) : (createConstant c).runOn s =
    if Text.isBlankText c.uniqueId = true then (.error (.invalid (.expression .blankId)), s)
    else (ask (.insertConstant c)).runOn s := by
  rw [createConstant]
  by_cases hblank : Text.isBlankText c.uniqueId = true
  · rw [if_pos hblank, if_pos hblank]
    rfl
  · rw [if_neg hblank, if_neg hblank]

theorem runOn_editConstant (s : Store) (u : String) (c : Constant) : (editConstant u c).runOn s =
    match s.constant? u with
    | none => (.error (.constantNotFound u), s)
    | some old =>
      if old.identity = c.identity ∨ s.referring .constant u = [] then
        (ask (.updateConstant u c)).runOn s
      else
        (.error (.referenced .constant u ((s.referring .constant u).map .calculation)), s) := by
  rw [editConstant, runOn_bind, runOn_assertIdentityEditable, Store.identityOf]
  cases s.constant? u with
  | none => rfl
  | some old =>
    dsimp only
    by_cases hfree : old.identity = c.identity ∨ s.referring .constant u = []
    · rw [if_pos hfree, if_pos hfree]
    · rw [if_neg hfree, if_neg hfree]

theorem runOn_deleteConstant (s : Store) (u : String) : (deleteConstant u).runOn s =
    match s.constant? u with
    | none => (.error (.constantNotFound u), s)
    | some _ =>
      if s.referring .constant u = [] then (ask (.deleteConstant u)).runOn s
      else (.error (.referenced .constant u (s.referrers .constant u)), s) := by
  unfold deleteConstant
  rw [runOn_bind_of_ok (runOn_ask_of_ok rfl)]
  cases s.constant? u with
  | none => rfl
  | some c =>
    dsimp only [Option.isNone_some]
    rw [if_neg Bool.false_ne_true, runOn_bind, runOn_assertDeletable]
    by_cases hfree : s.referring .constant u = []
    · rw [if_pos hfree, if_pos (Store.referrers_constant_eq_nil.2 hfree)]
    · rw [if_neg hfree, if_neg (mt Store.referrers_constant_eq_nil.1 hfree)]

end Versioning

end FormulaLedger
