import FormulaLedger.Proofs.Versioning.Obedience

set_option autoImplicit false

namespace FormulaLedger

open Procedure

inductive Operation
  | change (x : Change)
  | deleteCalculation (uniqueId : String)
  | createConstant (c : Constant)
  | editConstant (uniqueId : String) (c : Constant)
  | deleteConstant (uniqueId : String)
  | insertReport (r : Report)
  | updateReport (r : Report)

namespace Operation

def procedure : Operation → Procedure Outcome
  | .change x => x.procedure
  | .deleteCalculation u => do return .removed (← Versioning.deleteCalculation u)
  | .createConstant c => do
    Versioning.createConstant c
    return .done
  | .editConstant u c => do
    Versioning.editConstant u c
    return .done
  | .deleteConstant u => do
    Versioning.deleteConstant u
    return .done
  | .insertReport r => do
    ask (.insertReport r)
    return .done
  | .updateReport r => do
    ask (.updateReport r)
    return .done

def Bumps (uniqueId : String) : Operation → Prop
  | .change x => x.isBump = true ∧ x.uniqueId = uniqueId
  | _ => False

def StartsFrom (held : List Calculation) : Operation → Prop
  | .change x => x.StartsFrom held
  | _ => True

def Reaches (op : Operation) (s : Store) (log : Log)
    (rest : Program (Except LedgerError Outcome)) (t : Store) : Prop :=
  Program.Reaches (ExceptT.run op.procedure) s log rest t

end Operation

structure Episode where
  operation : Operation
  log : Log
  result : Except LedgerError Outcome

/-- A run from the empty store: what was done, copies of rows that were read in between, and the
store that is left. -/
inductive Run : List Episode → List Calculation → Store → Prop
  | start : Run [] [] Store.empty
  | read {es : List Episode} {held : List Calculation} {s : Store} (c : Calculation) :
      Run es held s → c ∈ s.rows → Run es (c :: held) s
  | perform {es : List Episode} {held : List Calculation} {s t : Store} {op : Operation}
      {log : Log} {result : Except LedgerError Outcome} : Run es held s → op.StartsFrom held →
      op.Reaches s log (.done result) t → Run (es ++ [⟨op, log, result⟩]) held t

/-- The requests of everything that is not a change. -/
def Request.isPlain : Request → Bool
  | .deleteCalculation _ => true
  | r => !r.writesRows

/-- A store after a plain request: nothing is frozen that was not. -/
structure Store.Plain (s t : Store) : Prop where
  chained : t.Chained
  ids : s.KeepsIds t
  frozen : ∀ u, t.Frozen u → s.Frozen u

namespace Store

theorem SameRows.plain {s t : Store} (h : s.SameRows t) (hs : s.Chained) : s.Plain t := by
  refine ⟨hs.of_sameRows h, h.keepsIds, fun u hu => ?_⟩
  rw [Frozen, revisions_of_rows_eq h.1] at hu
  exact hu

theorem Plain.trans {s t r : Store} (h : s.Plain t) (h' : t.Plain r) : s.Plain r :=
  ⟨h'.chained, h.ids.trans h'.ids, fun u hu => h.frozen u (h'.frozen u hu)⟩

theorem Chained.plain {s : Store} (h : s.Chained) {r : Request} (hr : r.isPlain = true) :
    s.Plain (s.answer r).2 := by
  cases r with
  | deleteCalculation u =>
    refine ⟨h.deleteCalculation u, .deleteCalculation s u, fun v hv => ?_⟩
    have hrev := revisions_deleteCalculation s u v
    by_cases huv : v = u
    · rw [if_pos huv] at hrev
      exact absurd hrev hv.1
    · rw [if_neg huv] at hrev
      change ((s.deleteCalculation u).2).Frozen v at hv
      rw [Frozen, hrev] at hv
      exact hv
  | insertRow _ | setLatest _ _ | updateLatest _ _ => simp [Request.isPlain, Request.writesRows] at hr
  | _ => exact (s.answer_sameRows rfl).plain h

end Store

theorem Request.writesRows_of_isRead {r : Request} (h : r.isRead = true) :
    r.writesRows = false := by
  cases r <;> trivial

/-- The requests of an operation that is not a change. Only the deletion of a calculation removes
rows, those of its own calculation, and nothing else touches them. -/
def Operation.Permits (op : Operation) (r : Request) : Prop :=
  r.writesRows = false ∨ ∃ u, op = .deleteCalculation u ∧ r = .deleteCalculation u

theorem Operation.Permits.isPlain {op : Operation} {r : Request} (h : op.Permits r) :
    r.isPlain = true := by
  rcases h with h | ⟨u, _, rfl⟩
  · cases r <;> trivial
  · rfl

theorem Procedure.Asks.permits {α : Type} {p : Procedure α} (h : p.Asks fun r => r.isRead = true)
    (op : Operation) : p.Asks op.Permits :=
  Program.Asks.mono h fun _ hr => .inl (Request.writesRows_of_isRead hr)

namespace Versioning

theorem refuseIfReferenced_asks (kind : EntityKind) (u : String) (found : List Referrer) :
    (refuseIfReferenced kind u found).Asks fun r => r.isRead = true := by
  unfold refuseIfReferenced
  split
  · exact asks_pure _
  · exact asks_throw _

theorem latest_asks (u : String) : (latest u).Asks fun r => r.isRead = true := by
  refine (Change.asks_read (r := .latest u) rfl).bind fun c => ?_
  cases c with
  | some c => exact asks_pure _
  | none => exact asks_throw _

theorem referrers_asks (kind : EntityKind) (u : String) :
    (referrers kind u).Asks fun r => r.isRead = true := by
  refine (Change.expressionReferrers_asks kind u).bind fun found => ?_
  cases kind with
  | constant => exact asks_pure _
  | calculation => exact (Change.reportReferrers_asks u).bind fun _ => asks_pure _

theorem assertDeletable_asks (kind : EntityKind) (u : String) :
    (assertDeletable kind u).Asks fun r => r.isRead = true :=
  (referrers_asks kind u).bind fun found => refuseIfReferenced_asks kind u found

theorem assertIdentityEditable_asks (kind : EntityKind) (u : String) (i : Identity) :
    (assertIdentityEditable kind u i).Asks fun r => r.isRead = true := by
  have hi : ∀ current : Identity, (if (current.difference? i).isNone then return () else do
      let found ← expressionReferrers kind u
      refuseIfReferenced kind u found : Procedure Unit).Asks fun r => r.isRead = true := by
    intro current
    split
    · exact asks_pure _
    · exact (Change.expressionReferrers_asks kind u).bind fun found =>
        refuseIfReferenced_asks kind u found
  unfold assertIdentityEditable
  cases kind with
  | constant =>
    refine (Change.asks_read (r := .constant u) rfl).bind fun c => ?_
    cases c with
    | some c => exact hi c.identity
    | none => exact asks_throw _
  | calculation => exact (latest_asks u).bind fun c => hi c.identity

end Versioning

namespace Operation

open Versioning

theorem asks (op : Operation) (h : ∀ x, op ≠ .change x) : op.procedure.Asks op.Permits := by
  cases op with
  | change x => exact absurd rfl (h x)
  | deleteCalculation u =>
    refine Asks.bind ?_ fun _ => asks_pure _
    refine ((latest_asks u).permits _).bind fun _ => ?_
    refine ((assertDeletable_asks .calculation u).permits _).bind fun _ => ?_
    exact asks_ask (r := .deleteCalculation u) (.inr ⟨u, rfl, rfl⟩)
  | createConstant c =>
    refine Asks.bind ?_ fun _ => asks_pure _
    show (if Text.isBlankText c.uniqueId then _ else _ : Procedure Unit).Asks _
    split
    · exact asks_throw _
    · exact asks_ask (r := .insertConstant c) (.inl rfl)
  | editConstant u c =>
    refine Asks.bind ?_ fun _ => asks_pure _
    refine ((assertIdentityEditable_asks .constant u c.identity).permits _).bind fun _ => ?_
    exact asks_ask (r := .updateConstant u c) (.inl rfl)
  | deleteConstant u =>
    refine Asks.bind ?_ fun _ => asks_pure _
    refine (asks_ask (r := .constant u) (.inl rfl)).bind fun found => ?_
    cases found with
    | none => exact asks_throw _
    | some c =>
      refine ((assertDeletable_asks .constant u).permits _).bind fun _ => ?_
      exact asks_ask (r := .deleteConstant u) (.inl rfl)
  | insertReport r =>
    exact (asks_ask (r := .insertReport r) (.inl rfl)).bind fun _ => asks_pure _
  | updateReport r =>
    exact (asks_ask (r := .updateReport r) (.inl rfl)).bind fun _ => asks_pure _

theorem plain (op : Operation) (h : ∀ x, op ≠ .change x) :
    op.procedure.Asks fun r => r.isPlain = true :=
  Program.Asks.mono (op.asks h) fun _ hr => hr.isPlain

end Operation

namespace Change

/-- A store at which a change has come that started from `s` and is alone. -/
structure Alone (x : Change) (s : Store) (log : Log) (t : Store) : Prop where
  chained : t.Chained
  ids : s.KeepsIds t
  holds : (Log.phase log).isFrozen = true → t.Frozen x.uniqueId
  frozen : ∀ u, t.Frozen u → (u = x.uniqueId ∧ (Log.phase log).isFrozen = true) ∨ s.Frozen u

variable {x : Change} {s t : Store} {log : Log}

theorem Alone.failed (h : x.Alone s log t) (r : Request) (e : StoreError) :
    x.Alone s (log ++ [.failed r e]) t := by
  refine ⟨h.chained, h.ids, ?_, ?_⟩
  · rw [Log.phase_append, Phase.after_failed]
    exact h.holds
  · rw [Log.phase_append, Phase.after_failed]
    exact h.frozen

theorem Alone.answered (h : x.Alone s log t) {r : Request} (hr : x.Allows (Log.phase log) t r) :
    x.Alone s (log ++ [.answered r (t.answer r).1]) (t.answer r).2 := by
  have hm := hr.move_logged h.chained
  refine ⟨hm.chained h.chained h.holds, h.ids.trans hm.keepsIds, hm.frozen h.chained h.holds,
    fun u hu => ?_⟩
  by_cases hx : u = x.uniqueId
  · subst hx
    cases hq : (Log.phase (log ++ [.answered r (t.answer r).1])).isFrozen with
    | true => exact .inl ⟨rfl, rfl⟩
    | false =>
      obtain ⟨ht, hp⟩ := hm.frozen_before hq hu
      rcases h.frozen _ ht with ⟨_, hf⟩ | hs
      · rw [hp] at hf
        contradiction
      · exact .inr hs
  · rw [Store.Frozen, hm.revisions_of_ne h.chained hx] at hu
    rcases h.frozen u hu with ⟨he, _⟩ | hs
    · exact absurd he hx
    · exact .inr hs

theorem alone_of_reaches (hs : s.Chained) {held : List Calculation} (hx : x.StartsFrom held)
    (hc : ∀ c ∈ held, s.Agrees c) {rest : Program (Except LedgerError Outcome)}
    (hr : Program.Reaches (ExceptT.run x.procedure) s log rest t) :
    rest.Obeys x.discipline (fun result log _ => x.Ends result log) log t ∧ x.Alone s log t := by
  have hi : x.Alone s [] s :=
    ⟨hs, .refl s, fun h => by simp [Log.phase, Phase.isFrozen] at h, fun u hu => .inr hu⟩
  have h := Program.Obeys.of_reaches (x.Alone s)
    (fun log t ht => Later.refl ht.chained) (fun log t r ht hr => ht.answered hr)
    (fun log t r e ht _ => ht.failed r e) hr (x.obeys hx hc) hi
  simpa using h

end Change

namespace Run

variable {es : List Episode} {held : List Calculation} {s t : Store}

/-- What holds between two operations of a run. -/
structure Sound (es : List Episode) (held : List Calculation) (s : Store) : Prop where
  chained : s.Chained
  held : ∀ c ∈ held, s.Agrees c
  lost : ∀ u, s.Frozen u → ∃ e ∈ es, e.operation.Bumps u ∧ Abandons u e.log

theorem plain_of_reaches {op : Operation} (hs : s.Chained) (h : ∀ x, op ≠ .change x) {log : Log}
    {rest : Program (Except LedgerError Outcome)} (hr : op.Reaches s log rest t) : s.Plain t := by
  refine Program.Asks.of_reaches s.Plain (fun t r hr ht => ?_) hr (op.plain h) ?_
  · exact ht.trans (ht.chained.plain hr)
  · exact Store.SameRows.plain ⟨rfl, rfl, rfl⟩ hs

theorem Sound.perform {op : Operation} (h : Sound es held s) (ho : op.StartsFrom held) {log : Log}
    {result : Except LedgerError Outcome} (hr : op.Reaches s log (.done result) t) :
    Sound (es ++ [⟨op, log, result⟩]) held t := by
  have earlier : ∀ u, s.Frozen u →
      ∃ e ∈ es ++ [⟨op, log, result⟩], e.operation.Bumps u ∧ Abandons u e.log := by
    intro u hu
    obtain ⟨e, he, hb⟩ := h.lost u hu
    exact ⟨e, List.mem_append_left _ he, hb⟩
  by_cases hx : ∃ x, op = .change x
  · obtain ⟨x, rfl⟩ := hx
    obtain ⟨hends, ha⟩ := Change.alone_of_reaches h.chained ho h.held hr
    refine ⟨ha.chained, fun c hc => (h.held c hc).keepsIds ha.ids, fun u hu => ?_⟩
    rcases ha.frozen u hu with ⟨rfl, hf⟩ | hs
    · obtain ⟨hbump, hlost⟩ := hends.1 hf
      exact ⟨_, List.mem_append_right _ List.mem_cons_self, ⟨hbump, rfl⟩, hlost⟩
    · exact earlier u hs
  · have hp := plain_of_reaches h.chained (fun x hop => hx ⟨x, hop⟩) hr
    exact ⟨hp.chained, fun c hc => (h.held c hc).keepsIds hp.ids,
      fun u hu => earlier u (hp.frozen u hu)⟩

theorem sound (h : Run es held s) : Sound es held s := by
  induction h with
  | start =>
    exact ⟨Store.Chained.empty, fun c hc => by simp at hc, fun u hu => absurd rfl hu.1⟩
  | read c _ hc ih =>
    refine ⟨ih.chained, fun d hd => ?_, ih.lost⟩
    rcases List.mem_cons.1 hd with rfl | hd
    · exact ih.chained.agrees hc
    · exact ih.held d hd
  | perform _ ho hr ih => exact ih.perform ho hr

theorem chained_within (h : Run es held s) {op : Operation} (ho : op.StartsFrom held) {log : Log}
    {rest : Program (Except LedgerError Outcome)} (hr : op.Reaches s log rest t) : t.Chained := by
  by_cases hx : ∃ x, op = .change x
  · obtain ⟨x, rfl⟩ := hx
    exact (Change.alone_of_reaches h.sound.chained ho h.sound.held hr).2.chained
  · exact (plain_of_reaches h.sound.chained (fun x hop => hx ⟨x, hop⟩) hr).chained

/-- After any run, and between the requests of an operation that follows it, the rows of a
calculation are numbered from 1 and at most the last of them is the latest. Only a bump that lost
its freeze leaves a calculation without a latest row. -/
theorem versions_and_latest (h : Run es held s) :
    (∀ u, s.revisions u ≠ [] →
      (s.revisions u).map (·.version) = List.range' 1 (s.revisions u).length ∧
      (s.revisions u).countP (·.latest) ≤ 1 ∧
      (∀ c ∈ s.revisions u, c.latest = true → c.version = (s.revisions u).length) ∧
      (s.latest? u = none → ∃ e ∈ es, e.operation.Bumps u ∧ Abandons u e.log) ∧
      ((∀ e ∈ es, e.log.faultless = true) → (s.revisions u).countP (·.latest) = 1)) ∧
    ∀ (op : Operation) (log : Log) (rest : Program (Except LedgerError Outcome)) (t : Store),
      op.StartsFrom held → op.Reaches s log rest t →
      ∀ u, IsChain (t.revisions u) ∧ (t.revisions u).countP (·.latest) ≤ 1 := by
  refine ⟨fun u hu => ?_, fun op log rest t ho hr u => ?_⟩
  · have hc := h.sound.chained.chain u
    have lost : s.latest? u = none → ∃ e ∈ es, e.operation.Bumps u ∧ Abandons u e.log :=
      fun hn => h.sound.lost u ⟨hu, Store.latest?_eq_none_iff.1 hn⟩
    refine ⟨hc.numbered, hc.countP_latest_le_one, hc.last_of_latest, lost, fun hf => ?_⟩
    refine h.sound.chained.countP_latest hu fun hfrozen => ?_
    obtain ⟨e, he, _, ha⟩ := h.sound.lost u hfrozen
    exact absurd (hf e he) (by simp [ha.faultless])
  · have hc := (h.chained_within ho hr).chain u
    exact ⟨hc, hc.countP_latest_le_one⟩

def plainDraft : Draft := ⟨"", [.of (.literal "1")]⟩

def firstRow (latest : Bool) : Calculation := ⟨1, "a", 1, latest, plainDraft⟩

def firstStore (latest : Bool) : Store := ⟨1, [firstRow latest], [(("a", 1), 1)], [], []⟩

theorem create_reaches : (Operation.change (.create "a" plainDraft)).Reaches Store.empty
    [.answered (.history "a") (.ok []), .answered (.insertRow (.first "a" plainDraft)) (.ok 1)]
    (.done (.ok (.stored 1))) (firstStore true) := by
  refine .answered (m := Store.empty) ?_ (.answered rfl (.refl _ _))
  rw [Store.answer, Store.Chained.empty.history_eq]
  rfl

theorem bumpFrom_reaches (e : StoreError) :
    (Operation.change (.bumpFrom (firstRow true) plainDraft)).Reaches (firstStore true)
      [.answered (.row 1) (.ok (some (firstRow true))), .answered (.version "a" 2) (.ok none),
        .answered (.setLatest 1 false) (.ok true),
        .failed (.insertRow ⟨"a", 2, true, plainDraft⟩) e, .failed (.latest "a") e]
      (.done (.error (.ofStore e))) (firstStore false) := by
  refine .answered rfl (.answered rfl ?_)
  exact .answered rfl (.failed e (.failed e (.refl _ _)))

/-- A calculation whose bump lost its freeze is left without a latest row. -/
theorem versions_and_latest_lostFreeze :
    ∃ es held, Run es held (firstStore false) ∧ (firstStore false).latest? "a" = none ∧
      ∃ e ∈ es, e.operation.Bumps "a" ∧ Abandons "a" e.log := by
  have hc := Run.perform Run.start (show Operation.StartsFrom [] (.change (.create "a" plainDraft)) from trivial)
    create_reaches
  have hr := Run.read (firstRow true) hc List.mem_cons_self
  have hb := Run.perform hr List.mem_cons_self (bumpFrom_reaches (.unavailable "down"))
  have hn : (firstStore false).revisions "a" ≠ [] := by
    simp [Store.revisions, firstStore, firstRow]
  exact ⟨_, _, hb, rfl, (hb.versions_and_latest.1 "a" hn).2.2.2.1 rfl⟩

end Run

end FormulaLedger
