import FormulaLedger.Proofs.Versioning.Moment
import FormulaLedger.Proofs.Versioning.Rollback

/-!
Copies of rows that were read before. A version is stored after a copy while the row that was copied
is the latest, and this is the end of it: the row is frozen then, and it is never the latest again.
A deletion takes the row away for good, and the rows that are stored under the same name later have
other ids.
-/

set_option autoImplicit false

namespace FormulaLedger

open Procedure Versioning

namespace Store

variable {s : Store} {id : RowId} {copy : Calculation}

/-- No row with the id will be the latest again: it has been superseded, or it is gone. -/
structure Spent (s : Store) (id : RowId) : Prop where
  issued : id ≤ s.lastId
  superseded : ∀ c ∈ s.rows, c.id = id → s.Superseded c

theorem Spent.not_stillLatest (h : s.Spent copy.id) : ¬ s.StillLatest copy := by
  rintro ⟨c, hc, hid, _⟩
  obtain ⟨hmem, hlatest⟩ := mem_latestRows.1 hc
  exact (h.superseded c hmem hid).ne_of_latest hlatest rfl

theorem spent_succeeded (hs : s.Chained) (h : s.StillLatest copy) (d : Draft) :
    (s.succeeded copy d).Spent copy.id := by
  obtain ⟨c, hc, hid, hu, hv⟩ := h
  have hmem := (mem_latestRows.1 hc).1
  have hissued : copy.id ≤ s.lastId := hid ▸ hs.issued c hmem
  refine ⟨Nat.le_succ_of_le hissued, fun b hb hbid => ?_⟩
  rcases List.mem_append.1 hb with hold | hnew
  · obtain ⟨a, ha, rfl⟩ := List.mem_map.1 hold
    by_cases haid : a.id = copy.id
    · obtain rfl := hs.eq_of_id ha hmem (haid.trans hid.symm)
      rw [if_pos haid] at hb ⊢
      exact ⟨hb, rfl, _, List.mem_append_right _ List.mem_cons_self, hu.symm,
        hv ▸ Nat.lt_succ_self _⟩
    · rw [if_neg haid] at hbid
      exact absurd hbid haid
  · obtain rfl := List.mem_singleton.1 hnew
    exact absurd hbid (Nat.ne_of_gt (Nat.lt_succ_of_le hissued))

end Store

namespace Moment

variable {m m' : Moment} {id : RowId}

theorem Step.spent (h : m.Step m') (hm : m.OfRun) (hs : m.store.Spent id) :
    m'.store.Spent id := by
  refine ⟨Nat.le_trans hs.issued h.keepsIds.lastId_le, fun c hc hid => ?_⟩
  -- a row with an id that was given before is the old row
  obtain ⟨b, hb, hbid, hu, _⟩ := h.keepsIds.old c hc (hid.symm ▸ hs.issued)
  rcases h.superseded hm (hs.superseded b hb (hbid.trans hid)) with hlater | hremoved
  · obtain rfl := (h.ofRun hm).orderly.rows.eq_of_id hlater.mem hc hbid
    exact hlater
  · have hrev : c ∈ m'.store.revisions b.uniqueId := Store.mem_revisions.2 ⟨hc, hu.symm⟩
    rw [hremoved.gone] at hrev
    contradiction

theorem LeadsTo.spent (h : m.LeadsTo m') (hm : m.OfRun) (hs : m.store.Spent id) :
    m'.store.Spent id := by
  induction h with
  | refl => exact hs
  | tail hbefore hstep ih => exact hstep.spent (LeadsTo.ofRun hbefore hm) ih

end Moment

namespace Versioning

variable {s t : Store} {copy : Calculation} {d : Draft}

theorem bumpFrom_stale_alone (hlatest : ¬ (s.row? copy.id).any (·.latest) = true) (log : Log) :
    (bumpFrom copy d).Obeys .alone (fun result _ _ => ∀ i, result ≠ .ok i) log s := by
  unfold bumpFrom
  refine obeys_alone_read rfl (fun reread _ hreread _ => ?_) fun e _ _ i h => by contradiction
  obtain rfl : s.row? copy.id = reread := Except.ok.inj hreread
  rw [Bool.eq_false_iff.2 hlatest]
  exact fun i h => by contradiction

theorem bumpFrom_done (hs : s.Chained) (hcopy : s.Agrees copy) {log : Log} {o : Outcome}
    (hr : (Operation.change (.bumpFrom copy d)).Reaches s log (.done (.ok o)) t) :
    s.StillLatest copy ∧ t = s.succeeded copy d := by
  have hobeys : (Operation.change (.bumpFrom copy d)).procedure.Obeys .alone
      (fun result _ t => ∀ o, result = .ok o → s.StillLatest copy ∧ t = s.succeeded copy d)
      [] s := by
    change (bumpFrom copy d >>= _).Obeys _ _ _ _
    rw [obeys_bind]
    by_cases hlatest : (s.row? copy.id).any (·.latest) = true
    · refine (bumpFrom_alone hs hcopy rfl).mono fun result log t h => ?_
      cases result with
      | ok i => exact fun _ _ => ⟨(hcopy.stillLatest_iff hs).1 hlatest, h.2.2⟩
      | error e => exact fun o h => by contradiction
    · refine (bumpFrom_stale_alone hlatest []).mono fun result log t h => ?_
      cases result with
      | ok i => exact absurd rfl (h i)
      | error e => exact fun o h => by contradiction
  exact hobeys.ends hr o rfl

end Versioning

def Episode.bumpedRow? (e : Episode) : Option RowId :=
  match e.operation, e.result with
  | .change (.bumpFrom copy _), .ok _ => some copy.id
  | _, _ => none

theorem Episode.bumpedRow?_eq_some {e : Episode} {id : RowId} (h : e.bumpedRow? = some id) :
    ∃ copy d o, e.operation = .change (.bumpFrom copy d) ∧ e.result = .ok o ∧ copy.id = id := by
  unfold bumpedRow? at h
  split at h
  · next copy d o hop hresult => exact ⟨copy, d, o, hop, hresult, Option.some.inj h⟩
  · contradiction

namespace Run

variable {es : List Episode} {held : List Calculation} {s : Store}

/-- The rows whose copies were bumped in a run are spent, and no two of them are one row. -/
theorem bumpedRows_spent (h : Run es held s) :
    (es.filterMap Episode.bumpedRow?).Nodup ∧
      ∀ id ∈ es.filterMap Episode.bumpedRow?, s.Spent id := by
  induction h with
  | start => exact ⟨List.nodup_nil, fun id hid => absurd hid List.not_mem_nil⟩
  | read c _ _ ih => exact ih
  | @perform es held s t op log result hrun ho hr ih =>
    obtain ⟨hnodup, hspent⟩ := ih
    have hlater : ∀ id ∈ es.filterMap Episode.bumpedRow?, t.Spent id := fun id hid =>
      (Moment.leadsTo_of_done ho hr).spent ⟨es, hrun⟩ (hspent id hid)
    rw [List.filterMap_append, List.filterMap_cons, List.filterMap_nil]
    cases hbumped : Episode.bumpedRow? ⟨op, log, result⟩ with
    | none =>
      rw [List.append_nil]
      exact ⟨hnodup, hlater⟩
    | some id =>
      obtain ⟨copy, d, o, rfl, rfl, rfl⟩ := Episode.bumpedRow?_eq_some hbumped
      have hs := hrun.sound.chained
      obtain ⟨hstill, rfl⟩ := bumpFrom_done hs (hrun.sound.held copy ho) hr
      -- a row that had been bumped before would be spent, and its copy refused
      have hnew : copy.id ∉ es.filterMap Episode.bumpedRow? := fun hid =>
        (hspent copy.id hid).not_stillLatest hstill
      refine ⟨List.nodup_append_comm.1 (List.nodup_cons.2 ⟨hnew, hnodup⟩), fun id hid => ?_⟩
      rcases List.mem_append.1 hid with hid | hid
      · exact hlater id hid
      · obtain rfl := List.mem_singleton.1 hid
        exact Store.spent_succeeded hs hstill d

theorem held_agree (h : Run es held s) : ∀ a ∈ held, ∀ b ∈ held, a.id = b.id →
    a.uniqueId = b.uniqueId ∧ a.version = b.version := by
  induction h with
  | start => exact fun a ha => absurd ha List.not_mem_nil
  | perform _ _ _ ih => exact ih
  | read c hrun hc ih =>
    intro a ha b hb hid
    rcases List.mem_cons.1 ha with rfl | ha'
    · rcases List.mem_cons.1 hb with rfl | hb'
      · exact ⟨rfl, rfl⟩
      · exact (hrun.sound.held b hb').2 a hc hid
    · rcases List.mem_cons.1 hb with rfl | hb'
      · obtain ⟨hu, hv⟩ := (hrun.sound.held a ha').2 b hc hid.symm
        exact ⟨hu.symm, hv.symm⟩
      · exact ih a ha' b hb' hid

end Run

namespace Store

variable {s : Store} {copy : Calculation}

theorem Agrees.latest_iff (hcopy : s.Agrees copy) :
    (∃ c ∈ s.rows, c.id = copy.id ∧ c.latest = true) ↔ s.StillLatest copy := by
  constructor
  · rintro ⟨c, hmem, hid, hlatest⟩
    exact ⟨c, mem_latestRows.2 ⟨hmem, hlatest⟩, hid, hcopy.2 c hmem hid⟩
  · rintro ⟨c, hc, hid, _⟩
    obtain ⟨hmem, hlatest⟩ := mem_latestRows.1 hc
    exact ⟨c, hmem, hid, hlatest⟩

theorem Agrees.not_mem_deleted (hcopy : s.Agrees copy) :
    ∀ c ∈ (s.deleteCalculation copy.uniqueId).2.rows, c.id ≠ copy.id := by
  intro c hc hid
  obtain ⟨hmem, hne⟩ := List.mem_filter.1 hc
  exact bne_iff_ne.1 hne (hcopy.2 c hmem hid).1

end Store

/-- A row that is not in the store while its id has been given does not come back. -/
theorem Moment.LeadsTo.not_mem {m m' : Moment} (h : m.LeadsTo m') {id : RowId}
    (hid : id ≤ m.store.lastId) (hgone : ∀ c ∈ m.store.rows, c.id ≠ id) :
    ∀ c ∈ m'.store.rows, c.id ≠ id := by
  intro c hc heq
  obtain ⟨b, hb, hbid, _⟩ := (LeadsTo.keepsIds h).old c hc (heq.symm ▸ hid)
  exact hgone b hb (hbid.trans heq)

theorem Run.runOn_bumpFrom_of_gone {es : List Episode} {held : List Calculation} {s : Store}
    (h : Run es held s) {copy : Calculation} (hissued : copy.id ≤ s.lastId)
    (hgone : ∀ c ∈ s.rows, c.id ≠ copy.id) (d : Draft) :
    (bumpFrom copy d).runOn s = (.error (.stale copy.uniqueId copy.id), s) := by
  have hagrees : s.Agrees copy := ⟨hissued, fun c hc hid => absurd hid (hgone c hc)⟩
  have hnone : s.row? copy.id = none := List.find?_eq_none.2 fun c hc => by simpa using hgone c hc
  rw [runOn_bumpFrom h.sound.chained hagrees, hnone]
  rfl

/-- A copy of a row that was read at any point of a run, whatever was done after that. -/
theorem Run.copy_bumped_once {es : List Episode} {held : List Calculation} {s : Store}
    (h : Run es held s) {copy : Calculation} (hcopy : copy ∈ held) :
    (∀ d : Draft,
      ((∃ i t, (bumpFrom copy d).runOn s = (.ok i, t)) ↔
        ∃ c ∈ s.rows, c.id = copy.id ∧ c.latest = true) ∧
      (∀ c ∈ s.rows, c.id = copy.id → c.latest = true → ∃ (i : RowId) (t : Store),
        (bumpFrom copy d).runOn s = (.ok i, t) ∧ (∀ b ∈ s.rows, b.id < i) ∧
        t.latest? copy.uniqueId = some ⟨i, copy.uniqueId, copy.version + 1, true, d⟩ ∧
        t =
          { lastId := i
            rows :=
              (s.rows.map fun b => if b.id = copy.id then { c with latest := false } else b) ++
                [⟨i, copy.uniqueId, copy.version + 1, true, d⟩]
            versions := s.versions ++ [((copy.uniqueId, copy.version + 1), i)]
            constants := s.constants
            reports := s.reports }) ∧
      ((¬ ∃ c ∈ s.rows, c.id = copy.id ∧ c.latest = true) →
        (bumpFrom copy d).runOn s = (.error (.stale copy.uniqueId copy.id), s))) ∧
    (∀ other ∈ held, other.id = copy.id →
      other.uniqueId = copy.uniqueId ∧ other.version = copy.version) ∧
    (es.filterMap Episode.bumpedRow?).Nodup ∧
    ∀ n gone, (deleteCalculation copy.uniqueId).runOn s = (.ok n, gone) →
      ∀ held' t, Moment.LeadsTo ⟨held, none, gone⟩ ⟨held', none, t⟩ →
        (∀ c ∈ t.rows, c.id ≠ copy.id) ∧
          ∀ d, (bumpFrom copy d).runOn t = (.error (.stale copy.uniqueId copy.id), t) := by
  have hs := h.sound.chained
  have hagrees := h.sound.held copy hcopy
  have hrun : ∀ d : Draft, (bumpFrom copy d).runOn s =
      if (s.row? copy.id).any (·.latest) = true then (.ok (s.lastId + 1), s.succeeded copy d)
      else (.error (.stale copy.uniqueId copy.id), s) := runOn_bumpFrom hs hagrees
  have hlatest := (hagrees.stillLatest_iff hs).trans (hagrees.latest_iff).symm
  refine ⟨fun d => ⟨?_, fun c hc hid hl => ?_, fun hnone => ?_⟩,
    fun other ho => h.held_agree other ho copy hcopy, h.bumpedRows_spent.1,
    fun n gone hgone held' t hlater => ?_⟩
  · rw [hrun d, ← hlatest]
    by_cases hstill : (s.row? copy.id).any (·.latest) = true
    · rw [if_pos hstill]
      exact iff_of_true ⟨_, _, rfl⟩ hstill
    · rw [if_neg hstill]
      exact iff_of_false nofun hstill
  · have hstill := hagrees.latest_iff.1 ⟨c, hc, hid, hl⟩
    refine ⟨s.lastId + 1, _, ?_, fun b hb => Nat.lt_succ_of_le (hs.issued b hb), ?_, rfl⟩
    · rw [hrun d, if_pos ((hagrees.stillLatest_iff hs).2 hstill), hs.succeeded_eq hc hid]
    · rw [← hs.succeeded_eq hc hid]
      exact hstill.latest?_succeeded hs d
  · rw [hrun d, if_neg (mt hlatest.1 hnone)]
  · -- the id was given before the deletion, so no row that is stored later has it
    obtain rfl := store_of_deleteCalculation hgone
    have hrows : ∀ c ∈ t.rows, c.id ≠ copy.id := hlater.not_mem hagrees.1 hagrees.not_mem_deleted
    have hlast : copy.id ≤ t.lastId :=
      Nat.le_trans hagrees.1 (Moment.LeadsTo.keepsIds hlater).lastId_le
    obtain ⟨_, hnext⟩ : Moment.OfRun ⟨held', none, t⟩ := by
      obtain ⟨e, _, hdeleted⟩ := h.runOn
        (show Operation.StartsFrom held (.deleteCalculation copy.uniqueId) from trivial)
      rw [Operation.procedure, runOn_bind_pure, hgone] at hdeleted
      exact hlater.ofRun ⟨_, hdeleted⟩
    exact ⟨hrows, hnext.runOn_bumpFrom_of_gone hlast hrows⟩

/-- The one copy of a row is bumped, is stale when it is bumped again, and does nothing to the
calculation that is stored under the same name after a deletion. -/
theorem Run.copy_bumped_once_recreated :
    (∃ es, Run es [firstRow true] (firstStore true)) ∧
    (∃ i t, (bumpFrom (firstRow true) plainDraft).runOn (firstStore true) = (.ok i, t) ∧
      t.latest? "a" = some ⟨i, "a", 2, true, plainDraft⟩) ∧
    (∃ es, Run es [firstRow true] Moment.secondStore) ∧
    (bumpFrom (firstRow true) plainDraft).runOn Moment.secondStore =
      (.error (.stale "a" 1), Moment.secondStore) ∧
    Moment.thirdStore.latest? "a" = some ⟨3, "a", 1, true, plainDraft⟩ ∧
    (bumpFrom (firstRow true) plainDraft).runOn Moment.thirdStore =
      (.error (.stale "a" 1), Moment.thirdStore) := by
  let held := [firstRow true]
  let bump : Operation := .change (.bumpFrom (firstRow true) plainDraft)
  let create : Operation := .change (.create "a" plainDraft)
  have hcreated := Run.perform Run.start (show create.StartsFrom [] from trivial) create_reaches
  have hfirst := hcreated.read (firstRow true) List.mem_cons_self
  obtain ⟨_, _, hsecond⟩ := hfirst.runOn (show bump.StartsFrom held from List.mem_cons_self)
  have hbumped : (bump.procedure.runOn (firstStore true)).2 = Moment.secondStore := by
    decide +kernel
  rw [hbumped] at hsecond
  obtain ⟨hdone, _, _, _⟩ := hfirst.copy_bumped_once List.mem_cons_self
  obtain ⟨hstale, _, _, hafter⟩ := hsecond.copy_bumped_once List.mem_cons_self
  obtain ⟨i, t, ht, _, hlatest, _⟩ :=
    (hdone plainDraft).2.1 (firstRow true) List.mem_cons_self rfl rfl
  refine ⟨⟨_, hfirst⟩, ⟨i, t, ht, hlatest⟩, ⟨_, hsecond⟩, ?_, by decide +kernel, ?_⟩
  · exact (hstale plainDraft).2.2 (by decide +kernel)
  · let gone : Store := ⟨2, [], [], [], []⟩
    have hgone : (deleteCalculation "a").runOn Moment.secondStore = (.ok 2, gone) := by
      rw [runOn_deleteCalculation]
      decide +kernel
    have hlater := Moment.leadsTo_of_runOn (show create.StartsFrom held from trivial) gone
    have hstored : (create.procedure.runOn gone).2 = Moment.thirdStore := by decide +kernel
    rw [hstored] at hlater
    exact (hafter 2 gone hgone held Moment.thirdStore hlater).2 plainDraft

end FormulaLedger
