import FormulaLedger.Proofs.Procedure.Interleaving
import FormulaLedger.Proofs.Versioning.Current
import FormulaLedger.Proofs.Versioning.Sharing

/-!
Two edits of different calculations at the same time. Each comes to its own row whatever the other
does, and a report that listed one of the old rows lists the new one in its place. A report that
listed both can lose one of the two updates: it is read before the one and written back after it.
-/

set_option autoImplicit false

namespace FormulaLedger

open Procedure Versioning

namespace Store

theorem Either.mem_iff {s : Store} {c : Calculation} {r q : Report} (h : s.Either c r q)
    {id : RowId} (hid : id ≠ c.id) (hnew : s.newest c ≠ id) : id ∈ q.rows ↔ id ∈ r.rows := by
  rcases h with rfl | rfl
  · rfl
  · rw [updated, Report.mem_replace]
    constructor
    · rintro (⟨heq, _⟩ | ⟨_, hmem⟩)
      · exact absurd heq.symm hnew
      · exact hmem
    · exact fun hmem => .inr ⟨hid, hmem⟩

end Store

namespace Rivals

variable {p : Rivals} {s t : Store} {log : Log} {b : Calculation} {α : Type}

def sharing (p : Rivals) : Discipline where
  allowed _ s r := p.May s r
  meantime _ s t := p.Meanwhile s t

structure At (p : Rivals) (b : Calculation) (s : Store) : Prop where
  latest : s.latest? p.mine.uniqueId = some b
  newest : s.newest p.mine = b.id

theorem At.meanwhile (h : p.At b s) (ht : p.Meanwhile s t) : p.At b t := by
  refine ⟨?_, ht.newest.trans h.newest⟩
  rw [Store.latest?_eq_find?, ht.revisions, ← Store.latest?_eq_find?, h.latest]

theorem at_start (p : Rivals) : p.At p.mine p.start :=
  ⟨p.chained.oneLatest.latest?_eq p.mine_latest, p.chained.newest_eq_latest p.mine_latest⟩

/-- An edit has come to the row that it names, which says what was to be said, and is done with
every report. -/
def Ends (p : Rivals) (d : Draft) (o : EditOutcome) (s : Store) : Prop :=
  ∃ b, p.At b s ∧ b.id = o.rowId ∧ b.draft = d ∧ ∀ r ∈ p.start.reports, p.Done s r

theorem Ends.meanwhile {d : Draft} {o : EditOutcome} (h : p.Ends d o s) (ht : p.Meanwhile s t) :
    p.Ends d o t := by
  obtain ⟨b, hat, hid, hdraft, hdone⟩ := h
  exact ⟨b, hat.meanwhile ht, hid, hdraft, fun r hr => ht.done r hr (hdone r hr)⟩

theorem May.of_isRead {r : Request} (h : r.isRead = true) : p.May s r := by
  cases r <;> trivial

theorem obeys_reads {q : Procedure α} (hq : q.Asks fun r => r.isRead = true) (h : p.At b s) :
    q.Obeys p.sharing (onResult fun _ t => p.At b t) log s := by
  refine Program.Asks.obeys (fun _ t => p.At b t) hq ?_ ?_ ?_ ?_ h
  · exact fun _ _ t r _ _ hr => May.of_isRead hr
  · intro _ s t r h ht hr
    rw [t.answer_of_isRead hr]
    exact h.meanwhile ht
  · exact fun _ _ _ _ _ h ht _ => h.meanwhile ht
  · intro result _ t h
    cases result with
    | ok a => exact h
    | error e => trivial

theorem latestForEdit_obeys (h : p.At p.mine s) :
    (latestForEdit p.mine.uniqueId).Obeys p.sharing
      (onResult fun c t => c = p.mine ∧ p.At p.mine t) log s := by
  unfold latestForEdit
  refine obeys_then (fun found t => found = some p.mine ∧ p.At p.mine t)
    (obeys_ask_onResult fun t ht => ⟨trivial, fun found m hm => ?_⟩) fun found _ t h => ?_
  · cases hm
    exact ⟨(h.meanwhile ht).latest, h.meanwhile ht⟩
  · obtain ⟨rfl, hat⟩ := h
    exact ⟨rfl, hat⟩

theorem editInPlace_obeys (d : Draft) (h : p.At p.mine s) :
    (editInPlace p.mine d).Obeys p.sharing (onResult (p.Ends d)) log s := by
  rw [editInPlace, obeys_bind, obeys_attempt]
  intro t ht
  have hat := h.meanwhile ht
  have hs := ht.shared
  have hmine := (Store.latest?_mem_latestRows hat.latest).1
  obtain ⟨hmem, hlatest⟩ := Store.mem_latestRows.1 hmine
  have hanswer : t.answer (.updateLatest p.mine.id d) =
      (.ok (), t.modifyRow p.mine.id fun c => { c with draft := d }) := by
    rw [Store.answer_updateLatest_of_some (hs.chained.row?_of_mem hmem), if_pos hlatest]
  have hnewest : ∀ c, (t.modifyRow p.mine.id fun c => { c with draft := d }).newest c =
      t.newest c := fun c => Store.newest_modifyRow _ (keepsKey_draft d)
  have hchained : (t.modifyRow p.mine.id fun c => { c with draft := d }).Chained :=
    hs.chained.modifyRow (keepsKey_draft d) fun _ _ _ hl => .inl hl
  rw [hanswer]
  refine ⟨trivial, ?_, fun e => ?_⟩
  · refine ⟨{ p.mine with draft := d }, ⟨?_, (hnewest _).trans hat.newest⟩, rfl, rfl,
      fun r hr q hq hname => ?_⟩
    · exact hchained.oneLatest.latest?_eq (Store.mem_latestRows_modifyRow_self hmine hlatest)
    · -- the row is still the newest, so there is nothing to redirect
      have hredirects : p.Redirects t r q := by
        obtain ⟨m, hm, hq⟩ := hs.mixed r hr q hq hname
        rw [Store.Either, Store.updated_of_newest hat.newest, or_self] at hm
        rw [hm] at hq
        refine .inl ?_
        rw [Store.updated_of_newest hat.newest]
        exact hq
      exact hredirects.mono (hnewest _) (.of_eq (hnewest _))
  · cases e with
    | rowNotLatest id => trivial
    | _ => trivial

/-- No row of the calculation is the latest, and the one that was is still the newest. -/
structure Gap (p : Rivals) (s : Store) : Prop where
  frozen : s.Frozen p.mine.uniqueId
  newest : s.newest p.mine = p.mine.id

theorem Gap.meanwhile (h : p.Gap s) (ht : p.Meanwhile s t) : p.Gap t := by
  refine ⟨?_, ht.newest.trans h.newest⟩
  rw [Store.Frozen, ht.revisions]
  exact h.frozen

theorem restoreLatest_obeys (c : Calculation) (e : LedgerError) {post : RowId → Store → Prop} :
    (do
      restoreLatest c
      throw e : Procedure RowId).Obeys p.sharing (onResult post) log s := by
  have hasks : (restoreLatest c).Asks fun r => ∀ s, p.May s r := by
    refine (asks_attempt fun s => trivial).bind fun found => ?_
    split
    · exact (asks_attempt fun s => trivial).bind fun _ => asks_pure _
    · exact asks_pure _
  refine obeys_then (fun _ _ => True) ?_ fun _ _ _ _ => trivial
  refine Program.Asks.obeys (fun _ _ => True) hasks (fun _ _ t _ _ _ hr => hr t)
    (fun _ _ _ _ _ _ _ => trivial) (fun _ _ _ _ _ _ _ _ => trivial) (fun result _ _ _ => ?_)
    trivial
  cases result with
  | ok _ => trivial
  | error _ => trivial

def Stores (p : Rivals) (d : Draft) (id : RowId) (s : Store) : Prop :=
  ∃ b, p.At b s ∧ b.id = id ∧ b.draft = d ∧ b.id ≠ p.mine.id

theorem insertNext_obeys (d : Draft) (h : p.Gap s) :
    (insertNext p.mine d).Obeys p.sharing (onResult (p.Stores d)) log s := by
  rw [insertNext, obeys_bind, obeys_attempt]
  intro t ht
  have hgap := h.meanwhile ht
  refine ⟨hgap.newest, ?_, fun e => restoreLatest_obeys _ _⟩
  let row : NewRow := ⟨p.mine.uniqueId, p.mine.version + 1, true, d⟩
  cases hfree : (t.versions.lookup (row.uniqueId, row.version)).isSome with
  | true =>
    rw [Store.answer_insertRow_of_taken row hfree]
    exact restoreLatest_obeys _ _
  | false =>
    rw [Store.answer_insertRow_of_free row hfree]
    refine ⟨row.stored (t.lastId + 1), ⟨?_, Store.newest_withRow rfl⟩, rfl, rfl,
      Nat.ne_of_gt (Nat.lt_succ_of_le ht.shared.mine.1)⟩
    exact Store.latest?_withRow_of_none rfl (Store.latest?_eq_none_iff.2 hgap.frozen.2)

theorem bumpFrom_obeys (d : Draft) (h : p.At p.mine s) :
    (bumpFrom p.mine d).Obeys p.sharing (onResult (p.Stores d)) log s := by
  unfold bumpFrom
  refine obeys_then _ (obeys_reads (asks_ask rfl) h) fun reread _ s h => ?_
  split
  · trivial
  refine obeys_then _ (obeys_reads (asks_ask rfl) h) fun taken _ s h => ?_
  split
  · trivial
  refine obeys_then (fun _ t => p.Gap t)
    (obeys_ask_onResult fun t ht => ⟨trivial, fun was m hm => ?_⟩) fun was _ s h => ?_
  · have hat := h.meanwhile ht
    have hstill := Store.stillLatest_of_mem (Store.latest?_mem_latestRows hat.latest).1
    rw [hstill.answer_freeze ht.shared.chained] at hm
    cases hm
    exact ⟨hstill.frozen ht.shared.chained,
      (Store.newest_modifyRow _ (keepsKey_latest false)).trans hat.newest⟩
  · split
    · trivial
    · exact insertNext_obeys d h

/-- What an edit knows while it redirects reports: each is done with, or among those that are left
as they were when they were read. -/
structure Redirecting (p : Rivals) (b : Calculation) (left : List Report) (s : Store) :
    Prop where
  row : p.At b s
  moved : b.id ≠ p.mine.id
  listed : ∀ l ∈ left, p.mine.id ∈ l.rows
  read : ∀ l ∈ left, ∃ r ∈ p.start.reports, l.name = r.name ∧ p.mine.id ∈ r.rows ∧
    s.Either p.other r l
  done : ∀ r ∈ p.start.reports, p.Done s r ∨ ∃ l ∈ left, l.name = r.name

namespace Redirecting

variable {left : List Report} {l r q : Report}

theorem meanwhile (h : p.Redirecting b left s) (ht : p.Meanwhile s t) :
    p.Redirecting b left t := by
  refine ⟨h.row.meanwhile ht, h.moved, h.listed, fun l hl => ?_, fun r hr => ?_⟩
  · obtain ⟨r, hr, hname, hmem, heither⟩ := h.read l hl
    exact ⟨r, hr, hname, hmem, heither.mono ht.other⟩
  · exact (h.done r hr).imp_left (ht.done r hr)

theorem writes (h : p.Redirecting b left s) (hs : p.Shared s) (hmem : p.mine.id ∈ r.rows)
    (heither : s.Either p.other r l) : p.Writes s r (l.replace p.mine.id b.id) := by
  rw [← h.row.newest]
  refine ⟨?_, hmem, ?_⟩
  · rw [h.row.newest]
    exact h.moved
  · rcases heither with rfl | rfl
    · exact .inl rfl
    · exact .inr (hs.updated_comm r).symm

theorem written (h : p.Redirecting b (l :: left) s) (hname : q.name = l.name)
    (hwrites : ∀ r ∈ p.start.reports, r.name = q.name → p.Writes s r q) :
    p.Redirecting b left (s.withReport q) := by
  refine ⟨⟨h.row.latest, h.row.newest⟩, h.moved,
    fun l hl => h.listed l (List.mem_cons_of_mem _ hl),
    fun l hl => h.read l (List.mem_cons_of_mem _ hl), fun r hr => ?_⟩
  -- the written report is done with, and what is written leaves the others alone
  have hdone : p.Done s r ∨ l.name = r.name → p.Done (s.withReport q) r := by
    intro hr' old hold hold'
    rcases Store.mem_withReport hold with rfl | ⟨hold, hne⟩
    · exact (hwrites r hr hold'.symm).redirects
    · rcases hr' with hr' | hr'
      · exact hr' old hold hold'
      · exact absurd (hold'.trans (hr'.symm.trans hname.symm)) hne
  rcases h.done r hr with hr' | ⟨l', hl', hname'⟩
  · exact .inl (hdone (.inl hr'))
  · rcases List.mem_cons.1 hl' with rfl | hl'
    · exact .inl (hdone (.inr hname'))
    · exact .inr ⟨l', hl', hname'⟩

theorem redirectEach (h : p.Redirecting b left s) :
    (Versioning.redirectEach p.mine.id b.id left).Obeys p.sharing
      (onResult fun _ t => p.Redirecting b [] t) log s := by
  induction left generalizing log s with
  | nil => exact h
  | cons l left ih =>
    rw [Versioning.redirectEach]
    split
    · refine obeys_then (fun _ t => p.Redirecting b left t)
        (obeys_ask_onResult fun t ht => ?_) fun _ _ s h => obeys_then _ (ih h) fun _ _ _ h => h
      have h := h.meanwhile ht
      obtain ⟨r, hr, hname, hmem, heither⟩ := h.read l List.mem_cons_self
      have hwrites : ∀ r' ∈ p.start.reports, r'.name = l.name →
          p.Writes t r' (l.replace p.mine.id b.id) := by
        intro r' hr' hname'
        obtain rfl := p.named.eq_of_name hr' hr (hname'.trans hname)
        exact h.writes ht.shared hmem heither
      refine ⟨hwrites, fun _ m hm => ?_⟩
      have hthere : (l.replace p.mine.id b.id).name ∈ t.reportNames := by
        rw [ht.shared.names, Report.name_replace, hname]
        exact List.mem_map_of_mem hr
      rw [Store.answer_updateReport_of_mem hthere] at hm
      cases hm
      exact h.written rfl hwrites
    · next hnot => exact absurd (List.contains_iff_mem.2 (h.listed l List.mem_cons_self)) hnot

end Redirecting

theorem redirecting_listing (hs : p.Shared s) (h : p.At b s) (hmoved : b.id ≠ p.mine.id) :
    p.Redirecting b (s.reportsListing [p.mine.id]) s := by
  have hlisted : ∀ q, q ∈ s.reportsListing [p.mine.id] ↔ q ∈ s.reports ∧ p.mine.id ∈ q.rows := by
    simp [Store.reportsListing]
  have hkept : ∀ {m q : Report}, s.Either p.other m q → (p.mine.id ∈ q.rows ↔ p.mine.id ∈ m.rows) :=
    fun h => h.mem_iff p.ids_ne (hs.mine.newest_ne p.ids_ne.symm p.different.symm)
  have hgone : ∀ r, p.mine.id ∉ (s.updated p.mine r).rows := fun r => by
    rw [Store.updated, h.newest]
    exact Report.not_mem_replace hmoved.symm
  refine ⟨h, hmoved, fun q hq => ((hlisted q).1 hq).2, fun q hq => ?_, fun r hr => ?_⟩
  · obtain ⟨hq, hmem⟩ := (hlisted q).1 hq
    have hname : q.name ∈ p.start.reportNames := by
      rw [← hs.names]
      exact List.mem_map_of_mem hq
    obtain ⟨r, hr, hname⟩ := List.mem_map.1 hname
    obtain ⟨m, rfl | rfl, hmq⟩ := hs.mixed r hr q hq hname.symm
    · exact ⟨_, hr, hname.symm, (hkept hmq).1 hmem, hmq⟩
    · exact absurd ((hkept hmq).1 hmem) (hgone r)
  · by_cases hleft : ∃ q ∈ s.reportsListing [p.mine.id], q.name = r.name
    · exact .inr hleft
    · -- the row has given way already, or the report never listed it
      refine .inl fun q hq hname => ?_
      have hnot : p.mine.id ∉ q.rows := fun hmem => hleft ⟨q, (hlisted q).2 ⟨hq, hmem⟩, hname⟩
      obtain ⟨m, rfl | rfl, hmq⟩ := hs.mixed r hr q hq hname
      · rw [hkept hmq] at hnot
        refine .inl ?_
        rw [Store.updated_of_not_mem hnot]
        exact hmq
      · exact .inl hmq

theorem redirectReports_obeys (h : p.At b s) (hmoved : b.id ≠ p.mine.id) :
    (redirectReports p.mine.id b.id).Obeys p.sharing
      (onResult fun _ t => p.Redirecting b [] t) log s := by
  rw [redirectReports, if_neg hmoved.symm]
  refine obeys_then (fun left t => p.Redirecting b left t)
    (obeys_ask_onResult fun t ht => ⟨trivial, fun left m hm => ?_⟩) fun _ _ _ h => h.redirectEach
  cases hm
  exact redirecting_listing ht.shared (h.meanwhile ht) hmoved

theorem editAsVersion_obeys (d : Draft) (h : p.At p.mine s) :
    (editAsVersion p.mine d).Obeys p.sharing (onResult (p.Ends d)) log s := by
  refine obeys_then _ (bumpFrom_obeys d h) fun id _ s h => ?_
  obtain ⟨b, hat, rfl, hdraft, hmoved⟩ := h
  refine obeys_then _ (redirectReports_obeys hat hmoved) fun count _ s h => ?_
  refine ⟨b, h.row, rfl, hdraft, fun r hr => ?_⟩
  rcases h.done r hr with hdone | ⟨l, hl, _⟩
  · exact hdone
  · exact absurd hl List.not_mem_nil

theorem editCalculation_obeys (d : Draft) (h : p.At p.mine s) :
    (editCalculation p.mine.uniqueId d).Obeys p.sharing (onResult (p.Ends d)) log s := by
  unfold editCalculation validate
  cases d.check p.mine.uniqueId with
  | error fault => trivial
  | ok _ =>
    show (latestForEdit p.mine.uniqueId >>= _).Obeys _ _ _ _
    refine obeys_then _ (latestForEdit_obeys h) fun c _ s h => ?_
    obtain ⟨rfl, h⟩ := h
    refine obeys_then _ (obeys_reads (Change.expressionReferrers_asks _ _) h) fun found _ s h => ?_
    split
    · trivial
    refine obeys_then _ (obeys_reads (Change.isUnused_asks _ _) h) fun unused _ s h => ?_
    cases unused with
    | true => exact editInPlace_obeys d h
    | false => exact editAsVersion_obeys d h

def editing (p : Rivals) (d : Draft) : Discipline where
  allowed log s r := (Change.edit p.mine.uniqueId d).Allows (Log.phase log) s r ∧ p.May s r
  meantime _ s t := p.Meanwhile s t

def Edited (p : Rivals) (d : Draft) (result : Except LedgerError EditOutcome) (log : Log)
    (s : Store) : Prop :=
  (Change.edit p.mine.uniqueId d).Edited result log ∧ onResult (p.Ends d) result log s

theorem editing_obeys (p : Rivals) (d : Draft) :
    (editCalculation p.mine.uniqueId d).Obeys (p.editing d) (p.Edited d) [] p.start :=
  Program.Obeys.and (Change.editCalculation_obeys (x := .edit p.mine.uniqueId d) rfl)
    (editCalculation_obeys d p.at_start) (fun _ _ _ ht => ⟨ht.later _, ht⟩)
    fun _ _ _ hallows hmay => ⟨hallows, hmay⟩

theorem editing_steady (p : Rivals) (d : Draft) : (p.editing d).Steady (p.Edited d) where
  trans h h' := h.trans h'
  stable := by
    rintro result log s t ht ⟨hedited, hends⟩
    refine ⟨hedited, ?_⟩
    cases result with
    | ok o => exact Ends.meanwhile hends ht
    | error e => trivial

structure Between (p : Rivals) (mine other : Log) (s : Store) : Prop where
  shared : p.Shared s
  mine : (Log.phase mine).isFrozen = true → s.Frozen p.mine.uniqueId
  other : (Log.phase other).isFrozen = true → s.Frozen p.other.uniqueId

theorem Between.swap {mine other : Log} (h : p.Between mine other s) :
    p.swap.Between other mine s :=
  ⟨h.shared.swap, h.other, h.mine⟩

theorem Between.step {mine other : Log} {d : Draft} {r : Request} (h : p.Between mine other s)
    (ha : (p.editing d).allowed mine s r) :
    p.Between (mine ++ [.answered r (s.answer r).1]) other (s.answer r).2 ∧
      p.swap.Meanwhile s (s.answer r).2 := by
  obtain ⟨hallows, hmay⟩ := ha
  obtain ⟨hshared, hmeanwhile⟩ := h.shared.step rfl hallows hmay h.mine
  have hmove := hallows.move_logged h.shared.chained
  refine ⟨⟨hshared, fun hf => hmove.frozen h.shared.chained h.mine hf, fun hf => ?_⟩, hmeanwhile⟩
  have hrevisions : (s.answer r).2.revisions p.other.uniqueId = s.revisions p.other.uniqueId :=
    hmeanwhile.revisions
  rw [Store.Frozen, hrevisions]
  exact h.other hf

theorem Shared.allLatest_updated {n n' : Calculation} {r : Report} (hs : p.Shared s)
    (hr : p.start.AllLatest r.rows) (hn : p.At n s) (hn' : p.swap.At n' s) :
    s.AllLatest (s.updated p.other (s.updated p.mine r)).rows := by
  intro id hid
  have hone := p.chained.oneLatest
  rcases Report.mem_replace.1 hid with ⟨rfl, _⟩ | ⟨hne', hid⟩
  · exact ⟨n', (Store.latest?_mem_latestRows hn'.latest).1, hn'.newest.symm⟩
  rcases Report.mem_replace.1 hid with ⟨rfl, _⟩ | ⟨hne, hid⟩
  · exact ⟨n, (Store.latest?_mem_latestRows hn.latest).1, hn.newest.symm⟩
  obtain ⟨c, hc, rfl⟩ := hr id hid
  have hu : c.uniqueId ≠ p.mine.uniqueId := fun hu =>
    hne (congrArg Calculation.id (hone.eq_of_uniqueId hc p.mine_latest hu))
  have hu' : c.uniqueId ≠ p.other.uniqueId := fun hu =>
    hne' (congrArg Calculation.id (hone.eq_of_uniqueId hc p.other_latest hu))
  obtain ⟨hmem, hlatest⟩ := Store.mem_latestRows.1 hc
  have hrev : c ∈ s.revisions c.uniqueId := by
    rw [hs.rest _ hu hu']
    exact Store.mem_revisions.2 ⟨hmem, rfl⟩
  exact ⟨c, Store.mem_latestRows.2 ⟨(Store.mem_revisions.1 hrev).1, hlatest⟩, rfl⟩

/-- Both edits end as they should, whatever the order of their requests. -/
theorem interleaved (p : Rivals) {d d' : Draft} {o o' : EditOutcome} {t : Store}
    (h : Program.Interleaves (ExceptT.run (editCalculation p.mine.uniqueId d))
      (ExceptT.run (editCalculation p.other.uniqueId d')) p.start (.ok o) (.ok o') t) :
    p.Shared t ∧ p.Ends d o t ∧ p.swap.Ends d' o' t := by
  obtain ⟨_, _, hbetween, hmine, hother⟩ := Program.Interleaves.sound (p.editing_steady d)
    (p.swap.editing_steady d') p.Between
    (fun _ _ s hi => ⟨.refl hi.shared, .refl hi.shared.swap⟩)
    (fun _ _ s r hi ha => hi.step ha)
    (fun _ _ s r hi ha => ⟨(hi.swap.step ha).1.swap, (hi.swap.step ha).2⟩)
    h (p.editing_obeys d) (p.swap.editing_obeys d')
    ⟨p.shared_start, fun hf => by contradiction, fun hf => by contradiction⟩
  exact ⟨hbetween.shared, hmine.2, hother.2⟩

end Rivals

section

variable {s t : Store} {a b : String} {d d' : Draft}

/-- An edit of a calculation without a latest row, which does not get one. -/
def looking (u : String) : Discipline where
  allowed _ _ r := r.isRead = true
  meantime _ _ t := t.latest? u = none

theorem editCalculation_obeys_looking (u : String) (d : Draft) (log : Log) (s : Store) :
    (editCalculation u d).Obeys (looking u) (onResult fun _ _ => False) log s := by
  unfold editCalculation validate
  cases d.check u with
  | error fault => trivial
  | ok _ =>
    show (latestForEdit u >>= _).Obeys _ _ _ _
    refine obeys_then (fun _ _ => False) ?_ fun _ _ _ h => h.elim
    unfold latestForEdit
    refine obeys_then (fun found _ => found = none)
      (obeys_ask_onResult fun t ht => ⟨rfl, fun found m hm => ?_⟩) fun found _ _ hfound => ?_
    · cases hm
      exact ht
    · cases hfound
      refine obeys_then (fun _ _ => True)
        (obeys_ask_onResult fun t ht => ⟨rfl, fun _ _ _ => trivial⟩) fun rows _ _ _ => ?_
      split
      · trivial
      · trivial

structure Beside (u : String) (x : Change) (log : Log) (s : Store) : Prop where
  chained : s.Chained
  latest : s.latest? u = none
  frozen : (Log.phase log).isFrozen = true → s.Frozen x.uniqueId

theorem Beside.step {u : String} {x : Change} {log : Log} {r : Request} (h : Beside u x log s)
    (hne : u ≠ x.uniqueId) (hr : x.Allows (Log.phase log) s r) :
    Beside u x (log ++ [.answered r (s.answer r).1]) (s.answer r).2 := by
  have hmove := hr.move_logged h.chained
  refine ⟨hmove.chained h.chained h.frozen, ?_, hmove.frozen h.chained h.frozen⟩
  rw [Store.latest?_eq_find?, hmove.revisions_of_ne h.chained hne, ← Store.latest?_eq_find?,
    h.latest]

/-- An edit that ends without an error has found a latest row, which no edit of another calculation
has put there. -/
theorem Program.Interleaves.latest_isSome (hs : s.Chained) (hne : a ≠ b) {o : EditOutcome}
    {result : Except LedgerError EditOutcome}
    (h : Interleaves (ExceptT.run (editCalculation a d)) (ExceptT.run (editCalculation b d')) s
      (.ok o) result t) : (s.latest? a).isSome = true := by
  rw [Option.isSome_iff_ne_none]
  intro hnone
  -- the edit of `b` is nothing but a change of another calculation here
  let x := Change.edit b d'
  have hlooking : (looking a).Steady (onResult fun (_ : EditOutcome) _ => False) :=
    ⟨fun _ h => h, fun _ h => h⟩
  have hchange : x.discipline.Steady fun result log _ => x.Edited result log :=
    ⟨Later.trans, fun _ h => h⟩
  have hedit : (editCalculation b d').Obeys x.discipline (fun result log _ => x.Edited result log)
      [] s := Change.editCalculation_obeys rfl
  obtain ⟨_, _, _, hfalse, _⟩ := Program.Interleaves.sound hlooking hchange
    (fun _ log s => Beside a x log s) (fun _ _ s hi => ⟨hi.latest, Later.refl hi.chained⟩)
    (fun _ _ s r hi hr => by
      rw [s.answer_of_isRead hr]
      exact ⟨hi, Later.refl hi.chained⟩)
    (fun _ _ s r hi hr => ⟨hi.step hne hr, (hi.step hne hr).latest⟩)
    h (editCalculation_obeys_looking a d [] s) hedit
    ⟨hs, hnone, fun hf => by contradiction⟩
  exact hfalse

/-- Two edits at the same time come each to the row that they name, which is the latest and says
what was to be said. A report has both new rows in the places of the old ones and lists latest rows
only, or it listed both old rows and has lost one of the two updates. -/
theorem Run.edits_overlap {es : List Episode} {held : List Calculation} (hrun : Run es held s)
    (hlists : s.ListsLatest) (hne : a ≠ b) {o o' : EditOutcome}
    (h : Program.Interleaves (ExceptT.run (editCalculation a d))
      (ExceptT.run (editCalculation b d')) s (.ok o) (.ok o') t) :
    ∃ c c' n n', s.latest? a = some c ∧ s.latest? b = some c' ∧
      t.latest? a = some n ∧ n.id = o.rowId ∧ n.draft = d ∧
      t.latest? b = some n' ∧ n'.id = o'.rowId ∧ n'.draft = d' ∧
      List.Forall₂ (fun r q =>
        q = (r.replace c.id n.id).replace c'.id n'.id ∧ t.AllLatest q.rows ∨
          c.id ∈ r.rows ∧ c'.id ∈ r.rows ∧
            (q = r.replace c.id n.id ∨ q = r.replace c'.id n'.id)) s.reports t.reports := by
  have hs := hrun.sound.chained
  obtain ⟨c, hc⟩ := Option.isSome_iff_exists.1 (h.latest_isSome hs hne)
  obtain ⟨c', hc'⟩ := Option.isSome_iff_exists.1 (h.symm.latest_isSome hs hne.symm)
  obtain ⟨hmem, rfl⟩ := Store.latest?_mem_latestRows hc
  obtain ⟨hmem', rfl⟩ := Store.latest?_mem_latestRows hc'
  let p : Rivals := ⟨s, c, c', hs, hrun.named, hmem, hmem', hne⟩
  obtain ⟨hshared, ⟨n, hn, hid, hdraft, hdone⟩, ⟨n', hn', hid', hdraft', hdone'⟩⟩ :=
    p.interleaved h
  refine ⟨c, c', n, n', hc, hc', hn.latest, hid, hdraft, hn'.latest, hid', hdraft', ?_⟩
  refine Store.forall₂_reports hshared.names fun r hr q hq hname => ?_
  have hboth := hshared.both_or_lost (hdone r hr q hq hname) (hdone' r hr q hq hname)
  have hupdated : ∀ r, t.updated c r = r.replace c.id n.id := fun r =>
    congrArg (r.replace c.id) hn.newest
  have hupdated' : ∀ r, t.updated c' r = r.replace c'.id n'.id := fun r =>
    congrArg (r.replace c'.id) hn'.newest
  rw [← hupdated r, ← hupdated' r, ← hupdated' (t.updated c r)]
  refine hboth.imp_left fun hq => ⟨hq, ?_⟩
  rw [hq]
  exact hshared.allLatest_updated (hlists r hr) hn hn'

end

namespace Run

def summaryStore : Store :=
  ⟨2, [⟨1, "a", 1, true, plainDraft⟩, ⟨2, "b", 1, true, plainDraft⟩],
    [(("a", 1), 1), (("b", 1), 2)], [], [⟨"summary", [1, 2]⟩]⟩

theorem run_summaryStore : ∃ es, Run es [] summaryStore := by
  let ops : List Operation := [.change (.create "a" plainDraft), .change (.create "b" plainDraft),
    .insertReport ⟨"summary", [1, 2]⟩]
  have hops : ∀ op ∈ ops, op.StartsFrom [] := by
    simp [ops, Operation.StartsFrom, Change.StartsFrom]
  have hstore : ops.foldl (fun s op => (op.procedure.runOn s).2) Store.empty = summaryStore := by
    decide +kernel
  rw [← hstore]
  exact Run.start.runOn_all hops

theorem listsLatest_summaryStore : summaryStore.ListsLatest := by decide +kernel

def editedStore (listed : List RowId) : Store :=
  ⟨4, [⟨1, "a", 1, false, plainDraft⟩, ⟨2, "b", 1, false, plainDraft⟩,
      ⟨3, "a", 2, true, plainDraft⟩, ⟨4, "b", 2, true, plainDraft⟩],
    [(("a", 1), 1), (("b", 1), 2), (("a", 2), 3), (("b", 2), 4)], [], [⟨"summary", listed⟩]⟩

def EditsReach (listed : List RowId) : Prop :=
  Program.Interleaves (ExceptT.run (editCalculation "a" plainDraft))
    (ExceptT.run (editCalculation "b" plainDraft)) summaryStore (.ok (.versioned 1 3 2 1))
    (.ok (.versioned 2 4 2 1)) (editedStore listed)

theorem editsReach_both : EditsReach [3, 4] :=
  Program.interleaves_of_takeTurns
    (List.replicate 8 true ++ List.replicate 8 false ++ [true, true, false, false])
    (by decide +kernel)

/-- The second edit runs between the first one's look for the reports and its writing of them. -/
theorem editsReach_lost : EditsReach [3, 2] :=
  Program.interleaves_of_takeTurns
    (List.replicate 9 true ++ List.replicate 10 false ++ [true]) (by decide +kernel)

theorem edits_overlap_summary :
    (∃ es, Run es [] summaryStore) ∧ EditsReach [3, 4] ∧ (editedStore [3, 4]).AllLatest [3, 4] := by
  obtain ⟨es, hrun⟩ := run_summaryStore
  obtain ⟨c, c', n, n', hc, hc', _, hid, _, _, hid', _, hreports⟩ :=
    hrun.edits_overlap listsLatest_summaryStore (show "a" ≠ "b" by decide) editsReach_both
  cases hc
  cases hc'
  refine ⟨⟨es, hrun⟩, editsReach_both, ?_⟩
  rw [hid, hid'] at hreports
  cases hreports with
  | cons hreport _ =>
    rcases hreport with ⟨_, hlatest⟩ | ⟨_, _, hlost | hlost⟩
    · exact hlatest
    · contradiction
    · contradiction

/-- Both edits end without an error, and the report lists a row that is not the latest. -/
theorem edits_lose_redirect :
    (∃ es, Run es [] summaryStore) ∧ summaryStore.ListsLatest ∧ EditsReach [3, 2] ∧
      (editedStore [3, 2]).latest? "b" = some ⟨4, "b", 2, true, plainDraft⟩ ∧
      ¬ (editedStore [3, 2]).ListsLatest :=
  ⟨run_summaryStore, listsLatest_summaryStore, editsReach_lost, rfl, by decide +kernel⟩

end Run

end FormulaLedger
