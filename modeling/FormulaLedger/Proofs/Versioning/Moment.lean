import FormulaLedger.Proofs.Versioning.Move
import FormulaLedger.Proofs.Versioning.Session
import Mathlib.Logic.Relation

/-!
The moments of a run, one request after the other, so that any of them can be held against a later
one. A row that is followed by a later version is not written to again: edits, freezes and the way
back from a freeze reach the latest version only. It leaves the store when its calculation is
deleted, and its id is not given to another row.
-/

set_option autoImplicit false

namespace FormulaLedger

open Procedure

/-- A moment of a run: the copies of rows that were read before, the operation that is under way
with what is left of it, and the store. -/
structure Moment where
  held : List Calculation
  underWay : Option (Operation × Program (Except LedgerError Outcome))
  store : Store

namespace Moment

def start : Moment := ⟨[], none, Store.empty⟩

/-- One step of a run. A request is answered by the store, or it fails with any error and leaves the
store alone. -/
inductive Step : Moment → Moment → Prop
  | read {held : List Calculation} {s : Store} (c : Calculation) : c ∈ s.rows →
      Step ⟨held, none, s⟩ ⟨c :: held, none, s⟩
  | begin {held : List Calculation} {s : Store} (op : Operation) : op.StartsFrom held →
      Step ⟨held, none, s⟩ ⟨held, some (op, ExceptT.run op.procedure), s⟩
  | answered {held : List Calculation} {s : Store} {op : Operation} {r : Request}
      {next : r.Result → Program (Except LedgerError Outcome)} :
      Step ⟨held, some (op, .ask r next), s⟩
        ⟨held, some (op, next (s.answer r).1), (s.answer r).2⟩
  | failed {held : List Calculation} {s : Store} {op : Operation} {r : Request}
      {next : r.Result → Program (Except LedgerError Outcome)} (e : StoreError) :
      Step ⟨held, some (op, .ask r next), s⟩ ⟨held, some (op, next (.error e)), s⟩
  | finish {held : List Calculation} {s : Store} {op : Operation}
      {result : Except LedgerError Outcome} :
      Step ⟨held, some (op, .done result), s⟩ ⟨held, none, s⟩

abbrev LeadsTo : Moment → Moment → Prop := Relation.ReflTransGen Step

variable {m m' : Moment}

/-- A moment between two operations is the end of a run, and any other is as far as an operation has
come after a run. -/
def OfRun (m : Moment) : Prop :=
  match m.underWay with
  | none => ∃ es, Run es m.held m.store
  | some (op, rest) => ∃ es s log, Run es m.held s ∧ op.StartsFrom m.held ∧
      op.Reaches s log rest m.store

theorem Step.ofRun (h : m.Step m') (hm : m.OfRun) : m'.OfRun := by
  cases h with
  | read c hc =>
    obtain ⟨es, hrun⟩ := hm
    exact ⟨es, hrun.read c hc⟩
  | begin op hop =>
    obtain ⟨es, hrun⟩ := hm
    exact ⟨es, _, [], hrun, hop, .refl _ _⟩
  | answered =>
    obtain ⟨es, s, log, hrun, hop, hreach⟩ := hm
    exact ⟨es, s, _, hrun, hop, hreach.trans (.answered rfl (.refl _ _))⟩
  | failed e =>
    obtain ⟨es, s, log, hrun, hop, hreach⟩ := hm
    exact ⟨es, s, _, hrun, hop, hreach.trans (.failed e (.refl _ _))⟩
  | finish =>
    obtain ⟨es, s, log, hrun, hop, hreach⟩ := hm
    exact ⟨_, hrun.perform hop hreach⟩

theorem LeadsTo.ofRun (h : m.LeadsTo m') (hm : m.OfRun) : m'.OfRun := by
  induction h with
  | refl => exact hm
  | tail _ hstep ih => exact hstep.ofRun ih

theorem ofRun_start : start.OfRun := ⟨[], .start⟩

theorem OfRun.orderly (h : m.OfRun) : m.store.Orderly := by
  obtain ⟨held, underWay, s⟩ := m
  cases underWay with
  | none =>
    obtain ⟨es, hrun⟩ := h
    exact hrun.orderly
  | some task =>
    obtain ⟨es, s, log, hrun, _, hreach⟩ := h
    exact hreach.kept (fun _ r hs => hs.answer r) hrun.orderly

theorem Step.keepsIds (h : m.Step m') : m.store.KeepsIds m'.store := by
  cases h with
  | answered => exact (Store.rowStep_answer _ _).keepsIds
  | _ => exact .refl _

theorem LeadsTo.keepsIds (h : m.LeadsTo m') : m.store.KeepsIds m'.store := by
  induction h with
  | refl => exact .refl _
  | tail _ hstep ih => exact ih.trans hstep.keepsIds

end Moment

namespace Store

structure Superseded (s : Store) (c : Calculation) : Prop where
  mem : c ∈ s.rows
  frozen : c.latest = false
  followed : ∃ d ∈ s.rows, d.uniqueId = c.uniqueId ∧ c.version < d.version

namespace Superseded

variable {s t : Store} {c d : Calculation}

theorem of_keepsRows (h : s.Superseded c) (hmem : c ∈ t.rows) (ht : s.KeepsRows t) :
    t.Superseded c := by
  obtain ⟨d, hd, hu, hv⟩ := h.followed
  obtain ⟨b, hb, _, hbu, hbv⟩ := ht d hd
  exact ⟨hmem, h.frozen, b, hb, hbu.trans hu, hbv.symm ▸ hv⟩

theorem ne_of_latest (h : s.Superseded c) (hd : d.latest = true) : c ≠ d := by
  rintro rfl
  rw [h.frozen] at hd
  contradiction

theorem ne_of_last (h : s.Superseded c) (hs : s.Chained)
    (hd : d.version = (s.revisions d.uniqueId).length) : c ≠ d := by
  rintro rfl
  obtain ⟨b, hb, hu, hv⟩ := h.followed
  have hbound := ((hs.chain c.uniqueId).version_bounds (mem_revisions.2 ⟨hb, hu⟩)).2
  omega

theorem modifyRow (h : s.Superseded c) (hs : s.Chained) {f : Calculation → Calculation}
    (hf : KeepsKey f) (hd : d ∈ s.rows) (hne : c ≠ d) : (s.modifyRow d.id f).Superseded c := by
  have hid : c.id ≠ d.id := fun hid => hne (hs.eq_of_id h.mem hd hid)
  exact h.of_keepsRows (List.mem_map.2 ⟨c, h.mem, if_neg hid⟩) (.modifyRow hf)

theorem sameRows (h : s.Superseded c) (ht : s.SameRows t) : t.Superseded c := by
  refine h.of_keepsRows ?_ ht.keepsRows
  rw [ht.1]
  exact h.mem

theorem deleteCalculation (h : s.Superseded c) {u : String} (hu : c.uniqueId ≠ u) :
    (s.deleteCalculation u).2.Superseded c := by
  obtain ⟨d, hd, hdu, hv⟩ := h.followed
  refine ⟨List.mem_filter.2 ⟨h.mem, by simpa using hu⟩, h.frozen, d,
    List.mem_filter.2 ⟨hd, ?_⟩, hdu, hv⟩
  simpa [hdu] using hu

/-- No move of a change reaches a superseded row. -/
theorem move {x : Change} {p q : Phase} {i : Option (NewRow × RowId)} (h : s.Superseded c)
    (hs : s.Chained) (hm : x.Move s p q i t) : t.Superseded c := by
  cases hm with
  | keep ht => exact h.sameRows ht
  | edit hd hl =>
    exact h.modifyRow hs (keepsKey_draft _) (mem_revisions.1 hd).1 (h.ne_of_latest hl)
  | freeze hd hl =>
    exact h.modifyRow hs (keepsKey_latest _) (mem_revisions.1 hd).1 (h.ne_of_latest hl)
  | store hq =>
    exact h.of_keepsRows (List.mem_append_left _ h.mem)
      fun b hb => ⟨b, List.mem_append_left _ hb, rfl, rfl, rfl⟩
  | restore hd hv =>
    obtain ⟨hmem, hu⟩ := mem_revisions.1 hd
    rw [← hu] at hv
    exact h.modifyRow hs (keepsKey_latest _) hmem (h.ne_of_last hs hv)

end Superseded

end Store

namespace Moment

variable {m m' : Moment} {c : Calculation}

structure Removes (uniqueId : String) (m m' : Moment) : Prop where
  step : m.Step m'
  deletes : ∃ rest, m.underWay = some (.deleteCalculation uniqueId, rest)
  gone : m'.store.revisions uniqueId = []

theorem superseded_answer {op : Operation} {r : Request}
    {next : r.Result → Program (Except LedgerError Outcome)} {held : List Calculation} {s : Store}
    (hm : OfRun ⟨held, some (op, .ask r next), s⟩) (hc : s.Superseded c) :
    (s.answer r).2.Superseded c ∨
      op = .deleteCalculation c.uniqueId ∧ (s.answer r).2.revisions c.uniqueId = [] := by
  obtain ⟨es, s₀, log, hrun, hop, hreach⟩ := hm
  by_cases hx : ∃ x, op = .change x
  · obtain ⟨x, rfl⟩ := hx
    obtain ⟨hobeys, halone⟩ :=
      Change.alone_of_reaches hrun.sound.chained hop hrun.sound.held hreach
    have hallows : x.Allows (Log.phase log) s r := (hobeys s (Later.refl halone.chained)).1
    exact .inl (hc.move halone.chained (hallows.move_logged halone.chained))
  · have hasks := Program.Asks.rest hreach (op.asks fun x hop => hx ⟨x, hop⟩)
    rcases hasks.1 with hsame | ⟨u, rfl, rfl⟩
    · exact .inl (hc.sameRows (s.answer_sameRows hsame))
    · by_cases hu : c.uniqueId = u
      · subst hu
        exact .inr ⟨rfl, (Store.revisions_deleteCalculation s _ _).trans (if_pos rfl)⟩
      · exact .inl (hc.deleteCalculation hu)

theorem Step.superseded (h : m.Step m') (hm : m.OfRun) (hc : m.store.Superseded c) :
    m'.store.Superseded c ∨ Removes c.uniqueId m m' := by
  have hstep := h
  cases h with
  | answered =>
    refine (superseded_answer hm hc).imp_right ?_
    rintro ⟨rfl, hgone⟩
    exact ⟨hstep, ⟨_, rfl⟩, hgone⟩
  | _ => exact .inl hc

/-- A row that has been superseded at a moment of a run is there at every later moment, as it was
and superseded, unless the rows of its calculation were removed by a deletion in between. Whatever
row it is that has been removed, no row has its id at any moment after that. -/
theorem superseded_kept (hstart : start.LeadsTo m) (hlater : m.LeadsTo m') :
    (∀ c, m.store.Superseded c → m'.store.Superseded c ∨
      ∃ n n', m.LeadsTo n ∧ n.store.Superseded c ∧ Removes c.uniqueId n n' ∧ n'.LeadsTo m') ∧
    ∀ c ∈ m.store.rows, (∀ d ∈ m'.store.rows, d.id ≠ c.id) →
      ∀ m'', m'.LeadsTo m'' → ∀ d ∈ m''.store.rows, d.id ≠ c.id := by
  have hm : m.OfRun := LeadsTo.ofRun hstart ofRun_start
  refine ⟨fun c hc => ?_, fun c hc hgone m'' hlater' d hd hid => ?_⟩
  · induction hlater with
    | refl => exact .inl hc
    | @tail n n' hbefore hstep ih =>
      rcases ih with hn | ⟨k, k', hk, hck, hremoves, hk'⟩
      · rcases hstep.superseded (LeadsTo.ofRun hbefore hm) hn with hn' | hremoves
        · exact .inl hn'
        · exact .inr ⟨n, n', hbefore, hn, hremoves, .refl⟩
      · exact .inr ⟨k, k', hk, hck, hremoves, hk'.tail hstep⟩
  · have hissued : d.id ≤ m'.store.lastId := by
      rw [hid]
      exact Nat.le_trans (hm.orderly.rows.issued c hc) (LeadsTo.keepsIds hlater).lastId_le
    obtain ⟨b, hb, hbid, _⟩ := (LeadsTo.keepsIds hlater').old d hd hissued
    exact hgone b hb (hbid.trans hid)

theorem leadsTo_of_reaches {op : Operation} {p rest : Program (Except LedgerError Outcome)}
    {held : List Calculation} {s t : Store} {log : Log} (h : p.Reaches s log rest t) :
    LeadsTo ⟨held, some (op, p), s⟩ ⟨held, some (op, rest), t⟩ := by
  induction h with
  | refl p s => exact .refl
  | answered ha _ ih =>
    refine Relation.ReflTransGen.head .answered ?_
    rw [ha]
    exact ih
  | failed e _ ih => exact .head (.failed e) ih

theorem leadsTo_of_done {op : Operation} {held : List Calculation} {s t : Store} {log : Log}
    {result : Except LedgerError Outcome} (hop : op.StartsFrom held)
    (h : op.Reaches s log (.done result) t) : LeadsTo ⟨held, none, s⟩ ⟨held, none, t⟩ :=
  .head (.begin op hop) ((leadsTo_of_reaches h).tail .finish)

theorem leadsTo_of_runOn {op : Operation} {held : List Calculation} (hop : op.StartsFrom held)
    (s : Store) : LeadsTo ⟨held, none, s⟩ ⟨held, none, (op.procedure.runOn s).2⟩ := by
  obtain ⟨log, hreaches, _⟩ := Program.reaches_run (ExceptT.run op.procedure) s
  exact leadsTo_of_done hop hreaches

def secondRow : Calculation := ⟨2, "a", 2, true, Run.plainDraft⟩

def secondStore : Store :=
  ⟨2, [Run.firstRow false, secondRow], [(("a", 1), 1), (("a", 2), 2)], [], []⟩

theorem bumpFrom_restored_reaches (e : StoreError) :
    ∃ log, (Operation.change (.bumpFrom secondRow Run.plainDraft)).Reaches secondStore log
      (.done (.error (.ofStore e))) secondStore :=
  ⟨_, .answered rfl (.answered rfl (.answered rfl
    (.failed e (.answered rfl (.answered rfl (.refl _ _))))))⟩

def thirdStore : Store := ⟨3, [⟨3, "a", 1, true, Run.plainDraft⟩], [(("a", 1), 3)], [], []⟩

/-- A superseded row is there after a bump that failed, and when it is gone in the end its
calculation has been deleted, and no row will have its id. -/
theorem superseded_kept_deleted :
    start.LeadsTo ⟨[], none, secondStore⟩ ∧
    LeadsTo ⟨[], none, secondStore⟩ ⟨[secondRow], none, thirdStore⟩ ∧
    secondStore.Superseded (Run.firstRow false) ∧
    (∃ n n', LeadsTo ⟨[], none, secondStore⟩ n ∧ n.store.Superseded (Run.firstRow false) ∧
      Removes "a" n n' ∧ n'.LeadsTo ⟨[secondRow], none, thirdStore⟩) ∧
    ∀ m'', LeadsTo ⟨[secondRow], none, thirdStore⟩ m'' → ∀ d ∈ m''.store.rows, d.id ≠ 1 := by
  have hsecond : start.LeadsTo ⟨[], none, secondStore⟩ := by
    have hcreated := leadsTo_of_done
      (show Operation.StartsFrom [] (.change (.create "a" Run.plainDraft)) from trivial)
      Run.create_reaches
    have hbumped := leadsTo_of_runOn
      (show Operation.StartsFrom [] (.change (.bump "a" Run.plainDraft)) from trivial)
      (Run.firstStore true)
    have hstore : (Procedure.runOn (Operation.change (.bump "a" Run.plainDraft)).procedure
        (Run.firstStore true)).2 = secondStore := by decide +kernel
    rw [hstore] at hbumped
    exact hcreated.trans hbumped
  have hthird : LeadsTo ⟨[], none, secondStore⟩ ⟨[secondRow], none, thirdStore⟩ := by
    have hread : LeadsTo ⟨[], none, secondStore⟩ ⟨[secondRow], none, secondStore⟩ :=
      .single (.read secondRow (List.mem_cons_of_mem _ List.mem_cons_self))
    obtain ⟨log, hreaches⟩ := bumpFrom_restored_reaches (.unavailable "down")
    have hrestored := leadsTo_of_done
      (show Operation.StartsFrom [secondRow] (.change (.bumpFrom secondRow Run.plainDraft)) from
        List.mem_cons_self) hreaches
    have hdeleted := leadsTo_of_runOn
      (show Operation.StartsFrom [secondRow] (.deleteCalculation "a") from trivial) secondStore
    have hgone : (Procedure.runOn (Operation.deleteCalculation "a").procedure secondStore).2 =
        ⟨2, [], [], [], []⟩ := by
      rw [Operation.procedure, runOn_bind_pure, Versioning.runOn_deleteCalculation]
      decide +kernel
    rw [hgone] at hdeleted
    have hcreated := leadsTo_of_runOn
      (show Operation.StartsFrom [secondRow] (.change (.create "a" Run.plainDraft)) from trivial)
      ⟨2, [], [], [], []⟩
    have hstore : (Procedure.runOn (Operation.change (.create "a" Run.plainDraft)).procedure
        ⟨2, [], [], [], []⟩).2 = thirdStore := by decide +kernel
    rw [hstore] at hcreated
    exact hread.trans (hrestored.trans (hdeleted.trans hcreated))
  have hsuperseded : secondStore.Superseded (Run.firstRow false) :=
    ⟨List.mem_cons_self, rfl, secondRow, List.mem_cons_of_mem _ List.mem_cons_self, rfl, by decide⟩
  obtain ⟨hkept, hgone⟩ := superseded_kept hsecond hthird
  refine ⟨hsecond, hthird, hsuperseded, ?_, ?_⟩
  · rcases hkept _ hsuperseded with hthere | hremoved
    · exact absurd hthere.mem (by decide)
    · exact hremoved
  · exact hgone (Run.firstRow false) hsuperseded.mem (by decide)

end Moment

end FormulaLedger
