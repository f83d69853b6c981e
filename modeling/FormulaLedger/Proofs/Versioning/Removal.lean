import FormulaLedger.Proofs.Procedure.Interleaving
import FormulaLedger.Proofs.Versioning.Session

/-!
A calculation that is deleted while it is bumped. The deletion removes the rows that are there when
it comes to that, and the bump does not look at them again after it has frozen the latest one. So a
deletion between the freeze and the insertion leaves the new version alone, without those before it.
Every other order of the steps leaves a whole chain or nothing.
-/

set_option autoImplicit false

namespace FormulaLedger

open Procedure Versioning

def Exchange.removed? : Exchange → Option Nat
  | .answered (.deleteCalculation _) (.ok n) => some n
  | _ => none

def Log.removed? (log : Log) : Option Nat := log.findSome? Exchange.removed?

@[simp] theorem Log.removed?_append (log : Log) (x : Exchange) :
    Log.removed? (log ++ [x]) = (Log.removed? log).or x.removed? := by
  cases h : x.removed? with
  | none => simp [Log.removed?, h]
  | some n => simp [Log.removed?, h]

theorem Exchange.removed?_of_isRead {r : Request} (h : r.isRead = true) (a : r.Result) :
    (Exchange.answered r a).removed? = none := by
  cases r <;> trivial

/-- A program that nothing can go on with keeps every discipline. -/
theorem Program.obeys_of_no_meantime {α : Type} {d : Discipline} {post : α → Log → Store → Prop}
    (p : Program α) {log : Log} {s : Store} (hd : ∀ t, ¬ d.meantime log s t)
    (hpost : ∀ a, post a log s) : p.Obeys d post log s := by
  cases p with
  | done a => exact hpost a
  | ask r next => exact fun t ht => absurd ht (hd t)

/-- A calculation that is deleted while the version after its latest row is stored. -/
structure Removal where
  start : Store
  row : Calculation
  draft : Draft
  chained : start.Chained
  orderly : start.Orderly
  latest : start.latest? row.uniqueId = some row

namespace Removal

variable (p : Removal)

def found : List Calculation := p.start.revisions p.row.uniqueId

def frozenStore : Store := p.start.modifyRow p.row.id fun c => { c with latest := false }

def frozen : List Calculation := p.frozenStore.revisions p.row.uniqueId

def next : NewRow := ⟨p.row.uniqueId, p.row.version + 1, true, p.draft⟩

/-- The revisions by how far the bump has come and how many rows have been removed. -/
inductive Stands : Phase → Option Nat → List Calculation → Prop
  | found : Stands .idle none p.found
  | frozen : Stands (.frozen p.row.id) none p.frozen
  | stored (id : RowId) : Stands (.stored id) none (p.frozen ++ [p.next.stored id])
  | gone : Stands .idle (some p.found.length) []
  | goneFrozen : Stands (.frozen p.row.id) (some p.found.length) []
  | alone (id : RowId) : Stands (.stored id) (some p.found.length) [p.next.stored id]
  | goneStored (id : RowId) : Stands (.stored id) (some (p.found.length + 1)) []

structure At (phase : Phase) (removed : Option Nat) (s : Store) : Prop where
  orderly : s.Orderly
  agrees : s.Agrees p.row
  stands : p.Stands phase removed (s.revisions p.row.uniqueId)

variable {p : Removal} {phase : Phase} {removed : Option Nat} {s : Store} {log : Log}

theorem row_mem : p.row ∈ p.found ∧ p.row.latest = true := Store.mem_of_latest?_eq_some p.latest

theorem row_stillLatest : p.start.StillLatest p.row :=
  Store.stillLatest_of_mem (Store.latest?_mem_latestRows p.latest).1

theorem version_row : p.row.version = p.found.length :=
  (p.chained.chain p.row.uniqueId).last_of_latest p.row p.row_mem.1 p.row_mem.2

theorem frozen_eq :
    p.frozen = p.found.map fun c => if c.id = p.row.id then { c with latest := false } else c :=
  Store.revisions_modifyRow p.start p.row.id (keepsKey_latest false) p.row.uniqueId

theorem length_frozen : p.frozen.length = p.found.length := by
  rw [frozen_eq, List.length_map]

theorem isChain_frozen : IsChain p.frozen := by
  have hchained : p.frozenStore.Chained :=
    p.chained.modifyRow (keepsKey_latest false) fun _ _ _ hl => by simp at hl
  exact hchained.chain p.row.uniqueId

theorem latest_of_mem_frozen {c : Calculation} (hc : c ∈ p.frozen) : c.latest = false :=
  (p.row_stillLatest.frozen p.chained).2 c hc

theorem at_start (p : Removal) : p.At .idle none p.start :=
  ⟨p.orderly, p.chained.agrees (Store.mem_revisions.1 p.row_mem.1).1, .found⟩

namespace At

theorem rows (h : p.At phase removed s) :
    ∃ rows, s.revisions p.row.uniqueId = rows ∧ p.Stands phase removed rows := ⟨_, rfl, h.stands⟩

theorem answered {next : Phase} {removed' : Option Nat} (h : p.At phase removed s) (r : Request)
    (hstands : p.Stands next removed' ((s.answer r).2.revisions p.row.uniqueId)) :
    p.At next removed' (s.answer r).2 :=
  ⟨h.orderly.answer r, h.agrees.keepsIds (s.rowStep_answer r).keepsIds, hstands⟩

theorem latest?_eq (h : p.At .idle removed s) :
    s.latest? p.row.uniqueId = some p.row ∨ s.latest? p.row.uniqueId = none := by
  obtain ⟨rows, hrows, hstands⟩ := h.rows
  rw [Store.latest?_eq_find?, hrows]
  cases hstands with
  | found => exact .inl ((p.start.latest?_eq_find? _).symm.trans p.latest)
  | gone => exact .inr rfl

theorem freeze (h : p.At .idle removed s) :
    ((s.answer (.setLatest p.row.id false)).1 = .ok true ∧
      p.At (.frozen p.row.id) removed (s.answer (.setLatest p.row.id false)).2) ∨
    ∃ e, (s.answer (.setLatest p.row.id false)).1 = .error e ∧
      (s.answer (.setLatest p.row.id false)).2 = s := by
  obtain ⟨rows, hrows, hstands⟩ := h.rows
  cases hstands with
  | found =>
    have hmem : p.row ∈ s.revisions p.row.uniqueId := by
      rw [hrows]
      exact p.row_mem.1
    have hrow := h.orderly.rows.row?_eq_some_iff.2 ⟨(Store.mem_revisions.1 hmem).1, rfl⟩
    have hanswer := Store.answer_setLatest_of_some hrow false
    rw [p.row_mem.2] at hanswer
    refine .inl ⟨congrArg Prod.fst hanswer, h.answered _ ?_⟩
    rw [hanswer, Store.revisions_modifyRow s p.row.id (keepsKey_latest false), hrows, ← frozen_eq]
    exact .frozen
  | gone =>
    have hnone : s.row? p.row.id = none := by
      rw [Option.eq_none_iff_forall_ne_some]
      intro c hc
      obtain ⟨hmem, hid⟩ := h.orderly.rows.row?_eq_some_iff.1 hc
      have hrev := Store.mem_revisions.2 ⟨hmem, (h.agrees.2 c hmem hid).1⟩
      rw [hrows] at hrev
      contradiction
    rw [Store.answer_setLatest_of_none hnone]
    exact .inr ⟨_, rfl, rfl⟩

/-- After the freeze nothing stands in the way of the insertion, not even that the rows before are
gone. -/
theorem insert (h : p.At (.frozen p.row.id) removed s) :
    (s.answer (.insertRow p.next)).1 = .ok (s.lastId + 1) ∧
      p.At (.stored (s.lastId + 1)) removed (s.answer (.insertRow p.next)).2 := by
  obtain ⟨rows, hrows, hstands⟩ := h.rows
  have hfree : (s.versions.lookup (p.next.uniqueId, p.next.version)).isSome = false := by
    rw [Bool.eq_false_iff, Ne, h.orderly.rows.lookup_isSome_iff]
    rintro ⟨c, hc, hu, hv⟩
    have hmem := Store.mem_revisions.2 ⟨hc, hu⟩
    change c ∈ s.revisions p.row.uniqueId at hmem
    change c.version = p.row.version + 1 at hv
    rw [hrows] at hmem
    cases hstands with
    | frozen =>
      have hbound := (p.isChain_frozen.version_bounds hmem).2
      rw [p.length_frozen, ← p.version_row] at hbound
      omega
    | goneFrozen => contradiction
  have hanswer := Store.answer_insertRow_of_free p.next hfree
  have hstored : (s.withRow p.next).revisions p.row.uniqueId =
      rows ++ [p.next.stored (s.lastId + 1)] := by
    rw [Store.revisions_withRow, hrows]
    exact congrArg (rows ++ ·) (if_pos rfl)
  refine ⟨congrArg Prod.fst hanswer, h.answered _ ?_⟩
  rw [hanswer, hstored]
  cases hstands with
  | frozen => exact .stored _
  | goneFrozen => exact .alone _

theorem delete (h : p.At phase none s) :
    ∃ n, (s.answer (.deleteCalculation p.row.uniqueId)).1 = .ok n ∧
      p.At phase (some n) (s.answer (.deleteCalculation p.row.uniqueId)).2 := by
  refine ⟨(s.revisions p.row.uniqueId).length, congrArg Except.ok List.countP_eq_length_filter,
    h.answered _ ?_⟩
  have hnone : (s.answer (.deleteCalculation p.row.uniqueId)).2.revisions p.row.uniqueId = [] :=
    (Store.revisions_deleteCalculation s _ _).trans (if_pos rfl)
  obtain ⟨rows, hrows, hstands⟩ := h.rows
  rw [hnone, hrows]
  cases hstands with
  | found => exact .gone
  | frozen =>
    rw [p.length_frozen]
    exact .goneFrozen
  | stored id =>
    rw [List.length_append, p.length_frozen]
    exact .goneStored id

end At

inductive MayBump (p : Removal) : Phase → Request → Prop
  | read {phase : Phase} {r : Request} : r.isRead = true → MayBump p phase r
  | freeze : MayBump p .idle (.setLatest p.row.id false)
  | insert : MayBump p (.frozen p.row.id) (.insertRow p.next)

variable (p) in
/-- A bump between whose requests the rows may be removed. -/
def bumping : Discipline where
  allowed log _ r := p.MayBump (Log.phase log) r
  meantime log _ t := Log.faultless log = true ∧ ∃ removed, p.At (Log.phase log) removed t

variable (p) in
/-- A deletion, which removes the rows at most once and does not mind what else is done to them. -/
def deleting : Discipline where
  allowed log _ r :=
    r.isRead = true ∨ Log.removed? log = none ∧ r = .deleteCalculation p.row.uniqueId
  meantime log _ _ := Log.faultless log = true

def endPhase : Except LedgerError RowId → Phase
  | .ok id => .stored id
  | .error _ => .idle

def BumpEnds (result : Except LedgerError RowId) (log : Log) (_ : Store) : Prop :=
  Log.faultless log = true → Log.phase log = endPhase result

def DeleteEnds (result : Except LedgerError Nat) (log : Log) (_ : Store) : Prop :=
  Log.faultless log = true → Log.removed? log = result.toOption

theorem bumpEnds_failed (result : Except LedgerError RowId) (r : Request) (e : StoreError) :
    BumpEnds result (log ++ [.failed r e]) s := by
  intro hlog
  simp at hlog

theorem throw_obeys (hlog : Log.phase log = .idle) (e : LedgerError) :
    (throw e : Procedure RowId).Obeys p.bumping BumpEnds log s := fun _ => hlog

theorem look_obeys {r : Request} (hr : r.isRead = true) (hlog : Log.phase log = .idle)
    {f : r.Answer → Procedure RowId}
    (next : ∀ a log' t, Log.phase log' = .idle → (∃ removed, p.At .idle removed t) →
      t.answer r = (.ok a, t) → (f a).Obeys p.bumping BumpEnds log' t) :
    (ask r >>= f).Obeys p.bumping BumpEnds log s := by
  rw [obeys_bind, obeys_ask]
  rintro t ⟨_, ht⟩
  rw [hlog] at ht
  obtain ⟨a, ha⟩ := t.answer_eq_of_isRead hr
  refine ⟨.read hr, ?_, fun e hfaulty => by simp at hfaulty⟩
  rw [ha]
  refine next a _ t ?_ ht ha
  rw [Log.phase_append, Phase.after_of_isRead _ hr, hlog]

theorem insertNext_obeys (hlog : Log.phase log = .frozen p.row.id) :
    (insertNext p.row p.draft).Obeys p.bumping BumpEnds log s := by
  rw [insertNext, obeys_bind, obeys_attempt]
  rintro t ⟨_, removed, ht⟩
  rw [hlog] at ht
  have hanswer := ht.insert.1
  have hallowed : p.MayBump (Log.phase log) (.insertRow p.next) := by
    rw [hlog]
    exact .insert
  refine ⟨hallowed, ?_, fun e => ?_⟩
  · change andThen _ _ _ (.ok (t.answer (.insertRow p.next)).1)
      (log ++ [.answered (.insertRow p.next) (t.answer (.insertRow p.next)).1]) _
    rw [hanswer]
    intro _
    rw [Log.phase_append]
    rfl
  · exact Program.obeys_of_no_meantime _ (fun t ht => by simpa using ht.1)
      fun result => bumpEnds_failed result _ _

theorem bumpFrom_obeys (hlog : Log.phase log = .idle) :
    (bumpFrom p.row p.draft).Obeys p.bumping BumpEnds log s := by
  unfold bumpFrom
  refine look_obeys rfl hlog fun reread log s hlog _ _ => ?_
  split
  · exact throw_obeys hlog _
  refine look_obeys rfl hlog fun taken log s hlog _ _ => ?_
  split
  · exact throw_obeys hlog _
  rw [obeys_bind, obeys_ask]
  rintro t ⟨_, removed, ht⟩
  rw [hlog] at ht
  have hallowed : p.MayBump (Log.phase log) (.setLatest p.row.id false) := by
    rw [hlog]
    exact .freeze
  refine ⟨hallowed, ?_, fun e hfaulty => by simp at hfaulty⟩
  rcases ht.freeze with ⟨hanswer, _⟩ | ⟨e, hanswer, _⟩
  · rw [hanswer]
    refine insertNext_obeys ?_
    rw [Log.phase_append, hlog]
    rfl
  · rw [hanswer]
    intro _
    rw [Log.phase_append, hlog, Phase.after_refused]
    rfl

theorem bumpVersion_obeys (p : Removal) :
    (bumpVersion p.row.uniqueId p.draft).Obeys p.bumping BumpEnds [] p.start := by
  unfold bumpVersion validate
  cases p.draft.check p.row.uniqueId with
  | error fault => exact throw_obeys rfl _
  | ok _ =>
    change ((latestForEdit p.row.uniqueId >>= _) : Procedure RowId).Obeys _ _ _ _
    unfold latestForEdit
    rw [LawfulMonad.bind_assoc]
    refine look_obeys rfl rfl fun found log t hlog ⟨removed, ht⟩ hanswer => ?_
    have hfound : found = t.latest? p.row.uniqueId := by
      cases hanswer
      rfl
    rcases ht.latest?_eq with hrow | hnone
    · rw [hfound, hrow]
      exact bumpFrom_obeys hlog
    · rw [hfound, hnone]
      change ((ask (.history p.row.uniqueId) >>= _) >>= _ : Procedure RowId).Obeys _ _ _ _
      rw [LawfulMonad.bind_assoc]
      refine look_obeys rfl hlog fun rows log s hlog _ _ => ?_
      cases rows.getLast? with
      | none => exact throw_obeys hlog _
      | some newest => exact throw_obeys hlog _

theorem reads_obey {α : Type} {q : Procedure α} (hq : q.Asks fun r => r.isRead = true)
    {f : α → Procedure Nat} (hlog : Log.faultless log = true → Log.removed? log = none)
    (next : ∀ a log' s, (Log.faultless log' = true → Log.removed? log' = none) →
      (f a).Obeys p.deleting DeleteEnds log' s) : (q >>= f).Obeys p.deleting DeleteEnds log s := by
  rw [obeys_bind]
  have hreads : q.Obeys p.deleting
      (fun _ log _ => Log.faultless log = true → Log.removed? log = none) log s := by
    refine Program.Asks.obeys (d := p.deleting)
      (fun log _ => Log.faultless log = true → Log.removed? log = none) hq
      (fun _ _ _ _ _ _ hr => Or.inl hr) (fun log _ _ r h _ hr => ?_) (fun _ _ _ _ _ _ _ _ => ?_)
      (fun _ _ _ h => h) hlog
    · rw [Log.faultless_append_answered, Log.removed?_append, Exchange.removed?_of_isRead hr,
        Option.or_none]
      exact h
    · simp
  refine hreads.mono fun result log s h => ?_
  cases result with
  | ok a => exact next a log s h
  | error e => exact h

theorem deleteCalculation_obeys (p : Removal) :
    (deleteCalculation p.row.uniqueId).Obeys p.deleting DeleteEnds [] p.start := by
  unfold deleteCalculation
  refine reads_obey (latest_asks _) (fun _ => rfl) fun _ log s hlog => ?_
  refine reads_obey (assertDeletable_asks _ _) hlog fun _ log s hlog => ?_
  refine (obeys_ask (r := .deleteCalculation p.row.uniqueId) log s).2 fun t ht => ?_
  have hnone := hlog ht
  refine ⟨.inr ⟨hnone, rfl⟩, fun _ => ?_, fun e hfaulty => by simp at hfaulty⟩
  rw [Log.removed?_append, hnone]
  rfl

/-- Both have come to one store, and no request has failed by itself. -/
structure Together (p : Removal) (deletion bump : Log) (s : Store) : Prop where
  deletes : Log.faultless deletion = true
  bumps : Log.faultless bump = true
  stands : p.At (Log.phase bump) (Log.removed? deletion) s

namespace Together

variable {deletion bump : Log} {r : Request}

theorem delete (h : p.Together deletion bump s) (hr : p.deleting.allowed deletion s r) :
    p.Together (deletion ++ [.answered r (s.answer r).1]) bump (s.answer r).2 := by
  refine ⟨by simpa using h.deletes, h.bumps, ?_⟩
  rw [Log.removed?_append]
  rcases hr with hread | ⟨hnone, rfl⟩
  · rw [Exchange.removed?_of_isRead hread, Option.or_none, s.answer_of_isRead hread]
    exact h.stands
  · have hstands := h.stands
    rw [hnone] at hstands
    obtain ⟨n, hanswer, hnext⟩ := hstands.delete
    rw [hnone, hanswer]
    exact hnext

theorem step (h : p.Together deletion bump s) (hr : p.bumping.allowed bump s r) :
    p.Together deletion (bump ++ [.answered r (s.answer r).1]) (s.answer r).2 := by
  refine ⟨h.deletes, by simpa using h.bumps, ?_⟩
  have hstands := h.stands
  have hmay : p.MayBump (Log.phase bump) r := hr
  rw [Log.phase_append]
  generalize Log.phase bump = phase at hstands hmay
  cases hmay with
  | read hread =>
    rw [Phase.after_of_isRead _ hread, s.answer_of_isRead hread]
    exact hstands
  | freeze =>
    rcases hstands.freeze with ⟨hanswer, hnext⟩ | ⟨e, hanswer, hsame⟩
    · rw [hanswer]
      exact hnext
    · rw [hanswer, hsame, Phase.after_refused]
      exact hstands
  | insert =>
    obtain ⟨hanswer, hnext⟩ := hstands.insert
    rw [hanswer]
    exact hnext

end Together

theorem interleaved (p : Removal) {deleted : Except LedgerError Nat}
    {bumped : Except LedgerError RowId} {t : Store}
    (h : Program.Interleaves (ExceptT.run (deleteCalculation p.row.uniqueId))
      (ExceptT.run (bumpVersion p.row.uniqueId p.draft)) p.start deleted bumped t) :
    p.Stands (endPhase bumped) deleted.toOption (t.revisions p.row.uniqueId) := by
  have hdeleting : p.deleting.Steady DeleteEnds := ⟨fun _ h => h, fun _ h => h⟩
  have hbumping : p.bumping.Steady BumpEnds := ⟨fun _ h => h, fun _ h => h⟩
  obtain ⟨deletion, bump, htogether, hdeletion, hbump⟩ := Program.Interleaves.sound hdeleting
    hbumping p.Together (fun _ _ s h => ⟨h.deletes, h.bumps, _, h.stands⟩)
    (fun _ _ s r h hr => ⟨h.delete hr, (h.delete hr).bumps, _, (h.delete hr).stands⟩)
    (fun _ _ s r h hr => ⟨h.step hr, h.deletes⟩) h p.deleteCalculation_obeys p.bumpVersion_obeys
    ⟨rfl, rfl, p.at_start⟩
  have hstands := htogether.stands.stands
  rw [hdeletion htogether.deletes, hbump htogether.bumps] at hstands
  exact hstands

end Removal

/-- When a calculation is deleted and bumped at the same time, it has no rows afterwards if the
deletion ended well, and a whole chain if that was refused. One order of the steps is apart: when
the rows are removed between the freeze and the insertion, both end well, and the new version is
left without those before it. -/
theorem Run.deleted_beside_bump {es : List Episode} {held : List Calculation} {s t : Store}
    {u : String} {c : Calculation} {d : Draft} {deleted : Except LedgerError Nat}
    {bumped : Except LedgerError RowId} (hrun : Run es held s) (hc : s.latest? u = some c)
    (h : Program.Interleaves (ExceptT.run (deleteCalculation u)) (ExceptT.run (bumpVersion u d)) s
      deleted bumped t) :
    ((∃ n, deleted = .ok n) ∧ t.revisions u = []) ∨
    ((∃ e, deleted = .error e) ∧ t.revisions u ≠ [] ∧
      (t.revisions u).map (·.version) = List.range' 1 (t.revisions u).length ∧
      ∀ r ∈ t.revisions u, r.latest = true ↔ r.version = (t.revisions u).length) ∨
    (deleted = .ok (s.revisions u).length ∧
      ∃ id, bumped = .ok id ∧ t.revisions u = [⟨id, u, c.version + 1, true, d⟩]) := by
  obtain ⟨_, rfl⟩ := Store.latest?_mem_latestRows hc
  let p : Removal := ⟨s, c, d, hrun.sound.chained, hrun.orderly, hc⟩
  have hstands : p.Stands (Removal.endPhase bumped) deleted.toOption (t.revisions c.uniqueId) :=
    p.interleaved h
  have hwhole : ∀ rows r, IsChain rows → r ∈ rows → r.latest = true →
      rows ≠ [] ∧ rows.map (·.version) = List.range' 1 rows.length ∧
        ∀ r ∈ rows, r.latest = true ↔ r.version = rows.length := fun rows r hchain hr hl =>
    ⟨List.ne_nil_of_mem hr, hchain.numbered, hchain.latest_iff hr hl⟩
  generalize t.revisions c.uniqueId = rows at hstands ⊢
  cases deleted with
  | error e =>
    refine .inr (.inl ⟨⟨e, rfl⟩, ?_⟩)
    cases bumped with
    | error e =>
      cases hstands with
      | found => exact hwhole _ c (p.chained.chain _) p.row_mem.1 p.row_mem.2
    | ok id =>
      cases hstands with
      | stored id =>
        refine hwhole _ _ (p.isChain_frozen.append (fun _ => p.latest_of_mem_frozen) ?_)
          (List.mem_append_right _ List.mem_cons_self) rfl
        rw [p.length_frozen, ← p.version_row]
        rfl
  | ok n =>
    cases bumped with
    | error e =>
      cases hstands with
      | gone => exact .inl ⟨⟨_, rfl⟩, rfl⟩
    | ok id =>
      cases hstands with
      | alone id => exact .inr (.inr ⟨rfl, id, rfl, rfl⟩)
      | goneStored id => exact .inl ⟨⟨_, rfl⟩, rfl⟩

namespace Run

def RemovalReaches (deleted : Except LedgerError Nat) (bumped : Except LedgerError RowId)
    (t : Store) : Prop :=
  Program.Interleaves (ExceptT.run (deleteCalculation "a"))
    (ExceptT.run (bumpVersion "a" plainDraft)) (firstStore true) deleted bumped t

theorem run_firstStore : ∃ es, Run es [] (firstStore true) :=
  ⟨_, Run.start.perform
    (show Operation.StartsFrom [] (.change (.create "a" plainDraft)) from trivial) create_reaches⟩

/-- The deletion looks for a latest row after the freeze and finds none. -/
theorem removalReaches_late : RemovalReaches (.error (.calculationNotFound "a")) (.ok 2)
    ((firstStore true).succeeded (firstRow true) plainDraft) :=
  Program.interleaves_of_takeTurns [false, false, false, false, true, false] (by decide +kernel)

theorem deleted_beside_bump_late :
    (∃ es, Run es [] (firstStore true)) ∧ (firstStore true).latest? "a" = some (firstRow true) ∧
      RemovalReaches (.error (.calculationNotFound "a")) (.ok 2)
        ((firstStore true).succeeded (firstRow true) plainDraft) ∧
      (((firstStore true).succeeded (firstRow true) plainDraft).revisions "a").map (·.version) =
        [1, 2] := by
  obtain ⟨es, hrun⟩ := run_firstStore
  refine ⟨⟨es, hrun⟩, rfl, removalReaches_late, ?_⟩
  rcases hrun.deleted_beside_bump (c := firstRow true) rfl removalReaches_late with
    ⟨⟨n, hn⟩, _⟩ | ⟨_, _, hversions, _⟩ | ⟨hn, _⟩
  · contradiction
  · rw [hversions]
    decide +kernel
  · contradiction

def loneStore : Store := ⟨2, [⟨2, "a", 2, true, plainDraft⟩], [(("a", 2), 2)], [], []⟩

/-- Both end well, and the calculation has a version 2 and no version 1. -/
theorem lone_version_left :
    (∃ es, Run es [] (firstStore true)) ∧ (firstStore true).latest? "a" = some (firstRow true) ∧
      RemovalReaches (.ok 1) (.ok 2) loneStore ∧ loneStore.revisions "a" ≠ [] ∧
      (loneStore.revisions "a").map (·.version) ≠
        List.range' 1 (loneStore.revisions "a").length :=
  ⟨run_firstStore, rfl, Program.interleaves_of_takeTurns
    (List.replicate 4 true ++ List.replicate 4 false ++ [true, false]) (by decide +kernel),
    by decide +kernel, by decide +kernel⟩

end Run

end FormulaLedger
