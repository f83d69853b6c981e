import FormulaLedger.Proofs.Versioning.Move

set_option autoImplicit false

namespace FormulaLedger

open Procedure

@[simp] theorem Log.faultless_append_answered (log : Log) (r : Request) (a : r.Result) :
    Log.faultless (log ++ [.answered r a]) = Log.faultless log := by
  simp [Log.faultless, Exchange.isFailure]

@[simp] theorem Log.faultless_append_failed (log : Log) (r : Request) (e : StoreError) :
    Log.faultless (log ++ [.failed r e]) = false := by
  simp [Log.faultless, Exchange.isFailure]

namespace Change

variable {x : Change} {α β : Type} {log : Log} {s : Store}

theorem obeys_read {r : Request} (hr : r.isRead = true) {value : Store → r.Answer}
    (hv : ∀ t : Store, (t.answer r).1 = (.ok (value t) : Except StoreError r.Answer))
    {f : r.Answer → Procedure β}
    {post : Except LedgerError β → Log → Store → Prop}
    (found : ∀ t log', Later x.uniqueId (Log.phase log) s t → Log.phase log' = Log.phase log →
      Log.faultless log' = Log.faultless log → (f (value t)).Obeys x.discipline post log' t)
    (lost : ∀ t e log', Log.phase log' = Log.phase log → Log.faultless log' = false →
      post (.error e) log' t) :
    (ask r >>= f).Obeys x.discipline post log s := by
  rw [obeys_bind, obeys_ask]
  intro t ht
  refine ⟨.read hr, ?_, fun e => lost t _ _ (by simp) (by simp)⟩
  rw [t.answer_of_isRead hr, hv t]
  exact found t _ ht (by simp [Phase.after_of_isRead _ hr]) (by simp)

def Bumped (x : Change) (result : Except LedgerError RowId) (log : Log) : Prop :=
  match result with
  | .ok id => Log.phase log = .stored id
  | .error _ => Log.phase log = .idle ∨
      (Log.phase log).isFrozen = true ∧ Abandons x.uniqueId log

/-- What a change knows of the row that it has frozen: it is the last revision, and no revision is
the latest. -/
structure Holds (x : Change) (c : Calculation) (s : Store) : Prop where
  frozen : s.Frozen x.uniqueId
  last : ∃ d ∈ s.revisions x.uniqueId, d.id = c.id ∧ d.version = (s.revisions x.uniqueId).length
  version : c.version = (s.revisions x.uniqueId).length

theorem Holds.later {c : Calculation} {p : Phase} {t : Store} (h : x.Holds c s)
    (hp : p = .frozen c.id) (ht : Later x.uniqueId p s t) : x.Holds c t := by
  have hr : t.revisions x.uniqueId = s.revisions x.uniqueId := ht.frozen (by rw [hp]; rfl)
  exact ⟨by rw [Store.Frozen, hr]; exact h.frozen, by rw [hr]; exact h.last,
    by rw [hr]; exact h.version⟩

theorem Holds.of_freeze {c d : Calculation} (hs : s.Chained) (hd : d ∈ s.revisions x.uniqueId)
    (hl : d.latest = true) (hv : c.version = d.version) (hi : c.id = d.id) :
    x.Holds c (s.modifyRow d.id fun d => { d with latest := false }) := by
  have hlen := congrArg List.length
    (Store.revisions_modifyRow s d.id (keepsKey_latest false) x.uniqueId)
  have hlast := (hs.chain x.uniqueId).last_of_latest d hd hl
  rw [List.length_map] at hlen
  refine ⟨(Move.freeze hd hl).frozen hs (fun h => by simp [Phase.isFrozen] at h) rfl, ?_, ?_⟩
  · refine ⟨_, Move.mem_revisions_modifyRow (keepsKey_latest false) hd, hi.symm, ?_⟩
    rw [hlen]
    exact hlast
  · rw [hlen, hv, hlast]

/-- Putting a frozen row back never fails as a procedure. It ends with the row as the latest, or
with a log that says which request was lost. -/
theorem restoreLatest_obeys {c : Calculation} {row : NewRow} {e : StoreError}
    (hu : c.uniqueId = x.uniqueId) (hrow : row.uniqueId = x.uniqueId)
    (hp : Log.phase log = .frozen c.id) (hc : x.Holds c s) :
    (Versioning.restoreLatest c).Obeys x.discipline
      (fun result log _ => result = .ok () ∧ x.Bumped (.error (.ofStore e)) log)
      (log ++ [.failed (.insertRow row) e]) s := by
  have hp₁ : Log.phase (log ++ [.failed (.insertRow row) e]) = .frozen c.id := by
    rw [Log.phase_append, Phase.after_failed, hp]
  rw [Versioning.restoreLatest, obeys_bind, obeys_attempt]
  intro t ht
  have hc := hc.later hp₁ ht
  have hlat : (t.answer (.latest c.uniqueId)).1 = .ok none := by
    have hn : t.latest? c.uniqueId = none := by
      rw [Store.latest?_eq_none_iff, hu]
      exact hc.frozen.2
    rw [Store.answer, hn]
  rw [hlat]
  have hp₂ : Log.phase (log ++ [.failed (.insertRow row) e] ++
      [.answered (.latest c.uniqueId) (.ok none)]) = .frozen c.id := by
    rw [Log.phase_append, Phase.after_of_isRead _ rfl, hp₁]
  refine ⟨.read rfl, ?_, fun e' => ⟨rfl, .inr ⟨?_, ?_⟩⟩⟩
  · -- nobody else has become the latest
    show (attempt (.setLatest c.id true) >>= fun _ => pure ()).Obeys _ _ _ _
    rw [obeys_bind, obeys_attempt]
    intro t' ht'
    have hc := hc.later hp₂ ht'
    obtain ⟨d, hd, hdi, hdv⟩ := hc.last
    have hm := (Store.mem_revisions.1 hd).1
    refine ⟨?_, ⟨rfl, ?_⟩, fun e' => ⟨rfl, .inr ⟨?_, ?_⟩⟩⟩
    · show x.Allows (Log.phase _) t' _
      rw [hp₂]
      refine .restore c.id fun b hb hi => ?_
      obtain rfl := ht'.chained.eq_of_id hb hm (hi.trans hdi.symm)
      exact ⟨(Store.mem_revisions.1 hd).2, hdv⟩
    · have hr : t'.row? c.id = some d := ht'.chained.row?_eq_some_iff.2 ⟨hm, hdi⟩
      rw [Store.answer_setLatest_of_some hr]
      show _ ∨ _
      left
      rw [Log.phase_append, hp₂]
      rfl
    · rw [Log.phase_append, Phase.after_failed, hp₂]
      rfl
    · rw [List.append_assoc, List.append_assoc, hu]
      exact .restore log row c.id e e' hrow
  · rw [Log.phase_append, Phase.after_failed, hp₁]
    rfl
  · rw [List.append_assoc, hu]
    exact .lookup log row e e' hrow

/-- After a freeze the insertion of the next version cannot be refused, and the row is put back
when the insertion does not reach the store. -/
theorem insertNext_obeys {c : Calculation} (hu : c.uniqueId = x.uniqueId)
    (hp : Log.phase log = .frozen c.id) (hc : x.Holds c s) :
    (Versioning.insertNext c x.draft).Obeys x.discipline (fun result log _ => x.Bumped result log)
      log s := by
  rw [Versioning.insertNext, obeys_bind, obeys_attempt]
  intro t ht
  have hc := hc.later hp ht
  refine ⟨?_, ?_, fun e => ?_⟩
  · show x.Allows (Log.phase log) t _
    rw [hp, hu, hc.version]
    exact .insertNext c.id _ rfl
  · have hl : (t.versions.lookup (c.uniqueId, c.version + 1)).isSome = false := by
      rw [Bool.eq_false_iff, Ne, ht.chained.lookup_isSome_iff, hu, hc.version]
      omega
    rw [Store.answer_insertRow_of_free _ hl]
    show Log.phase _ = _
    rw [Log.phase_append]
    rfl
  · show (Versioning.restoreLatest c >>= fun _ => throw (LedgerError.ofStore e)).Obeys _ _ _ _
    rw [obeys_bind]
    refine (restoreLatest_obeys hu hu hp hc).mono fun result log' t' h => ?_
    obtain ⟨rfl, hb⟩ := h
    exact hb

theorem bumpFrom_obeys {c : Calculation} (hu : c.uniqueId = x.uniqueId)
    (hp : Log.phase log = .idle) (hc : s.Agrees c) :
    (Versioning.bumpFrom c x.draft).Obeys x.discipline (fun result log _ => x.Bumped result log)
      log s := by
  unfold Versioning.bumpFrom
  refine obeys_read rfl (fun _ => rfl) (fun t log₁ ht hp₁ _ => ?_) fun t e log₁ hp₁ _ =>
    .inl (hp₁.trans hp)
  have hc := hc.keepsIds ht.ids
  have hp₁ := hp₁.trans hp
  split
  · exact .inl hp₁
  refine obeys_read rfl (fun _ => rfl) (fun t log₂ ht hp₂ _ => ?_) fun t e log₂ hp₂ _ =>
    .inl (hp₂.trans hp₁)
  have hc := hc.keepsIds ht.ids
  have hp₂ := hp₂.trans hp₁
  split
  · exact .inl hp₂
  rw [obeys_bind, obeys_ask]
  intro t ht
  have hc := hc.keepsIds ht.ids
  refine ⟨?_, ?_, fun e => .inl ?_⟩
  · show x.Allows (Log.phase log₂) t _
    rw [hp₂]
    exact .freeze c.id fun d hd hi => (hc.2 d hd hi).1.trans hu
  · cases hr : t.row? c.id with
    | none =>
      rw [Store.answer_setLatest_of_none hr]
      left
      rw [Log.phase_append, hp₂]
      rfl
    | some d =>
      rw [Store.answer_setLatest_of_some hr]
      obtain ⟨hm, hi⟩ := ht.chained.row?_eq_some_iff.1 hr
      cases hl : d.latest with
      | false =>
        left
        rw [Log.phase_append, hp₂]
        rfl
      | true =>
        have hd : d ∈ t.revisions x.uniqueId :=
          Store.mem_revisions.2 ⟨hm, (hc.2 d hm hi).1.trans hu⟩
        have hp₃ : Log.phase (log₂ ++ [.answered (.setLatest c.id false) (.ok true)]) =
            .frozen c.id := by
          rw [Log.phase_append, hp₂]
          rfl
        have hh : x.Holds c (t.modifyRow c.id fun d => { d with latest := false }) := by
          rw [← hi]
          exact Holds.of_freeze ht.chained hd hl (hc.2 d hm hi).2.symm hi.symm
        exact insertNext_obeys hu hp₃ hh
  · rw [Log.phase_append, Phase.after_failed, hp₂]

theorem obeys_of_reads {p : Procedure α} (hp : p.Asks fun r => r.isRead = true) (hs : s.Chained)
    {post : Except LedgerError α → Log → Store → Prop}
    (done : ∀ result log' t, Later x.uniqueId (Log.phase log) s t →
      Log.phase log' = Log.phase log → post result log' t) :
    p.Obeys x.discipline post log s := by
  refine Program.Asks.obeys (fun log' t =>
    Later x.uniqueId (Log.phase log) s t ∧ Log.phase log' = Log.phase log) hp ?_ ?_ ?_ ?_ ?_
  · intro log' t t' r _ _ hr
    exact .read hr
  · intro log' t t' r ⟨hl, hp⟩ ht hr
    rw [t'.answer_of_isRead hr, Log.phase_append, Phase.after_of_isRead _ hr]
    exact ⟨hl.trans (by rw [← hp]; exact ht), hp⟩
  · intro log' t t' r e ⟨hl, hp⟩ ht hr
    rw [Log.phase_append, Phase.after_failed]
    exact ⟨hl.trans (by rw [← hp]; exact ht), hp⟩
  · intro result log' t ⟨hl, hp⟩
    exact done result log' t hl hp
  · exact ⟨Later.refl hs, rfl⟩

theorem obeys_reads_bind {p : Procedure α} (hp : p.Asks fun r => r.isRead = true) (hs : s.Chained)
    {f : α → Procedure β} {post : Except LedgerError β → Log → Store → Prop}
    (found : ∀ a log' t, Later x.uniqueId (Log.phase log) s t → Log.phase log' = Log.phase log →
      (f a).Obeys x.discipline post log' t)
    (lost : ∀ e log' t, Log.phase log' = Log.phase log → post (.error e) log' t) :
    (p >>= f).Obeys x.discipline post log s := by
  rw [obeys_bind]
  refine obeys_of_reads hp hs fun result log' t ht hp' => ?_
  cases result with
  | ok a => exact found a log' t ht hp'
  | error e => exact lost e log' t hp'

theorem latestForEdit_obeys {u : String} {post : Except LedgerError Calculation → Log → Store → Prop}
    (found : ∀ c log' t, t.Chained → c.uniqueId = u → t.Agrees c →
      Log.phase log' = Log.phase log → post (.ok c) log' t)
    (lost : ∀ e log' t, Log.phase log' = Log.phase log → post (.error e) log' t) :
    (Versioning.latestForEdit u).Obeys x.discipline post log s := by
  unfold Versioning.latestForEdit
  refine obeys_read rfl (fun _ => rfl) (fun t log₁ ht hp₁ _ => ?_) fun t e log₁ hp₁ _ =>
    lost _ _ _ hp₁
  cases hl : t.latest? u with
  | some c =>
    obtain ⟨hm, hu⟩ := Store.mem_revisions.1 (Store.mem_of_latest?_eq_some hl).1
    exact found c log₁ t ht.chained hu (ht.chained.agrees hm) hp₁
  | none =>
    refine obeys_read rfl (fun _ => rfl) (fun t log₂ ht hp₂ _ => ?_) fun t e log₂ hp₂ _ =>
      lost _ _ _ (hp₂.trans hp₁)
    cases (t.history u).getLast? with
    | some newest => exact lost _ _ _ (hp₂.trans hp₁)
    | none => exact lost _ _ _ (hp₂.trans hp₁)

theorem createCalculation_obeys (hp : Log.phase log = .idle) :
    (Versioning.createCalculation x.uniqueId x.draft).Obeys x.discipline
      (fun result log' _ => Log.phase log' = result.toOption.elim .idle .stored) log s := by
  unfold Versioning.createCalculation Versioning.validate
  cases x.draft.check x.uniqueId with
  | error fault => exact hp
  | ok _ =>
    refine obeys_read rfl (fun _ => rfl) (fun t log₁ ht hp₁ _ => ?_) fun t e log₁ hp₁ _ =>
      hp₁.trans hp
    have hp₁ := hp₁.trans hp
    split
    · exact hp₁
    refine (obeys_ask _ _).2 fun t ht => ⟨?_, ?_, fun e => ?_⟩
    · show x.Allows (Log.phase log₁) t _
      rw [hp₁]
      exact .insertFirst
    · cases hl : (t.versions.lookup (x.uniqueId, 1)).isSome with
      | true =>
        rw [Store.answer_insertRow_of_taken (.first x.uniqueId x.draft) hl,
          Log.phase_append, hp₁]
        rfl
      | false =>
        rw [Store.answer_insertRow_of_free (.first x.uniqueId x.draft) hl,
          Log.phase_append]
        rfl
    · rw [Log.phase_append, Phase.after_failed, hp₁]
      rfl

theorem bumpVersion_obeys (hp : Log.phase log = .idle) :
    (Versioning.bumpVersion x.uniqueId x.draft).Obeys x.discipline
      (fun result log _ => x.Bumped result log) log s := by
  unfold Versioning.bumpVersion Versioning.validate
  cases x.draft.check x.uniqueId with
  | error fault => exact .inl hp
  | ok _ =>
    show (Versioning.latestForEdit x.uniqueId >>= _).Obeys _ _ _ _
    rw [obeys_bind]
    refine latestForEdit_obeys (fun c log' t _ hu hc hp' => ?_) fun e log' t hp' =>
      .inl (hp'.trans hp)
    exact bumpFrom_obeys hu (hp'.trans hp) hc

def Redirected (id : RowId) (result : Except LedgerError Nat) (log : Log) : Prop :=
  Log.phase log = .stored id ∧ (Log.faultless log = true → ∃ n, result = .ok n)

/-- Reports that are there can be replaced, for no report is taken away. -/
theorem redirectEach_obeys {old new id : RowId} {reports : List Report}
    (hp : Log.phase log = .stored id) (hr : ∀ r ∈ reports, (s.report? r.name).isSome) :
    (Versioning.redirectEach old new reports).Obeys x.discipline
      (fun result log _ => Redirected id result log) log s := by
  induction reports generalizing log s with
  | nil => exact ⟨hp, fun _ => ⟨0, rfl⟩⟩
  | cons r rs ih =>
    rw [Versioning.redirectEach]
    split
    · rw [obeys_bind]
      refine (obeys_ask _ _).2 fun t ht => ⟨.updateReport _, ?_, fun e => ⟨?_, ?_⟩⟩
      · have hnone : (t.report? r.name).isNone = false := by
          rw [Option.isNone_eq_false_iff]
          exact ht.reports.isSome (hr r List.mem_cons_self)
        have hrs : ∀ b ∈ rs, ((t.answer (.updateReport (r.replace old new))).2.report?
            b.name).isSome := fun b hb =>
          (t.answer_keepsReports _).isSome (ht.reports.isSome (hr b (List.mem_cons_of_mem _ hb)))
        have ha : (t.answer (.updateReport (r.replace old new))).1 = .ok () := by
          simp [Store.answer, Store.change, Store.updateReport, Report.replace, hnone]
        rw [ha]
        show (Versioning.redirectEach old new rs >>= _).Obeys _ _ _ _
        rw [obeys_bind]
        refine (ih ?_ hrs).mono fun result log' t' h => ?_
        · rw [Log.phase_append, hp]
          rfl
        · obtain ⟨hp', hf⟩ := h
          cases result with
          | ok n => exact ⟨hp', fun _ => ⟨n + 1, rfl⟩⟩
          | error e => exact ⟨hp', fun h => by simpa using hf h⟩
      · rw [Log.phase_append, Phase.after_failed, hp]
      · simp
    · exact ih hp fun r hm => hr r (List.mem_cons_of_mem _ hm)

theorem redirectReports_obeys {old new id : RowId} (hp : Log.phase log = .stored id) :
    (Versioning.redirectReports old new).Obeys x.discipline
      (fun result log _ => Redirected id result log) log s := by
  unfold Versioning.redirectReports
  split
  · exact ⟨hp, fun _ => ⟨0, rfl⟩⟩
  refine obeys_read rfl (fun _ => rfl) (fun t log₁ ht hp₁ _ => ?_) fun t e log₁ hp₁ hf => ?_
  · refine redirectEach_obeys (hp₁.trans hp) fun r hm => ?_
    rw [Store.report?_isSome_iff]
    exact List.mem_map_of_mem (List.mem_filter.1 hm).1
  · exact ⟨hp₁.trans hp, fun h => by simp [hf] at h⟩

theorem asks_read {r : Request} (h : r.isRead = true) :
    (ask r).Asks fun r => r.isRead = true := asks_ask h

theorem expressionReferrers_asks (kind : EntityKind) (u : String) :
    (Versioning.expressionReferrers kind u).Asks fun r => r.isRead = true :=
  (asks_read (r := .latestRows) rfl).bind fun _ => asks_pure _

theorem reportReferrers_asks (u : String) :
    (Versioning.reportReferrers u).Asks fun r => r.isRead = true := by
  refine (asks_read (r := .history u) rfl).bind fun rows => ?_
  show (if rows.isEmpty then _ else _ : Procedure (List Referrer)).Asks _
  split
  · exact asks_pure _
  · exact (asks_read (r := .reportsListing _) rfl).bind fun _ => asks_pure _

theorem isUnused_asks (u : String) (found : List Referrer) :
    (Versioning.isUnused u found).Asks fun r => r.isRead = true := by
  unfold Versioning.isUnused
  split
  · exact (reportReferrers_asks u).bind fun _ => asks_pure _
  · exact asks_pure _

def Edited (x : Change) (result : Except LedgerError EditOutcome) (log : Log) : Prop :=
  ((Log.phase log).isFrozen = true → Abandons x.uniqueId log) ∧
    (Log.faultless log = true →
      (Log.phase log).stored? = result.toOption.bind fun o => Outcome.newRow? (.edited o))

theorem Edited.of_idle {result : Except LedgerError EditOutcome} (hp : Log.phase log = .idle)
    (hr : result.toOption.bind (fun o => Outcome.newRow? (.edited o)) = none) :
    x.Edited result log := by
  rw [Edited, hp, hr]
  exact ⟨fun h => by simp [Phase.isFrozen] at h, fun _ => rfl⟩

theorem editInPlace_obeys {c : Calculation} (hu : c.uniqueId = x.uniqueId)
    (hp : Log.phase log = .idle) (hc : s.Agrees c) :
    (Versioning.editInPlace c x.draft).Obeys x.discipline (fun result log _ => x.Edited result log)
      log s := by
  rw [Versioning.editInPlace, obeys_bind, obeys_attempt]
  intro t ht
  have hp₁ : Log.phase (log ++ [.answered (.updateLatest c.id x.draft)
      (t.answer (.updateLatest c.id x.draft)).1]) = .idle := by
    rw [Log.phase_append, hp]
    rfl
  refine ⟨?_, ?_, fun e => ?_⟩
  · show x.Allows (Log.phase log) t _
    rw [hp]
    exact .updateLatest c.id fun d hd hi => ((hc.keepsIds ht.ids).2 d hd hi).1.trans hu
  · revert hp₁
    cases (t.answer (.updateLatest c.id x.draft)).1 with
    | ok _ => exact fun hp₁ => Edited.of_idle hp₁ rfl
    | error e =>
      cases e with
      | rowNotLatest id => exact fun hp₁ => Edited.of_idle hp₁ rfl
      | _ => exact fun hp₁ => Edited.of_idle hp₁ rfl
  · have hp₂ : Log.phase (log ++ [.failed (.updateLatest c.id x.draft) e]) = .idle := by
      rw [Log.phase_append, Phase.after_failed, hp]
    cases e with
    | rowNotLatest id => exact Edited.of_idle hp₂ rfl
    | _ => exact Edited.of_idle hp₂ rfl

theorem editAsVersion_obeys {c : Calculation} (hu : c.uniqueId = x.uniqueId)
    (hp : Log.phase log = .idle) (hc : s.Agrees c) :
    (Versioning.editAsVersion c x.draft).Obeys x.discipline
      (fun result log _ => x.Edited result log) log s := by
  rw [Versioning.editAsVersion, obeys_bind]
  refine (bumpFrom_obeys hu hp hc).mono fun result log₁ t hb => ?_
  cases result with
  | error e =>
    refine ⟨fun hf => ?_, fun hf => ?_⟩
    · rcases hb with hb | hb
      · simp [hb, Phase.isFrozen] at hf
      · exact hb.2
    · rcases hb with hb | hb
      · rw [hb]
        rfl
      · simp [hb.2.faultless] at hf
  | ok new =>
    have hb : Log.phase log₁ = .stored new := hb
    show (Versioning.redirectReports c.id new >>= _).Obeys _ _ _ _
    rw [obeys_bind]
    refine (redirectReports_obeys hb).mono fun result log₂ t' h => ?_
    obtain ⟨hp₂, hf⟩ := h
    cases result with
    | ok count => exact ⟨fun h => by simp [hp₂, Phase.isFrozen] at h, fun _ => by rw [hp₂]; rfl⟩
    | error e =>
      refine ⟨fun h => by simp [hp₂, Phase.isFrozen] at h, fun h => ?_⟩
      obtain ⟨n, hn⟩ := hf h
      contradiction

theorem editCalculation_obeys (hp : Log.phase log = .idle) :
    (Versioning.editCalculation x.uniqueId x.draft).Obeys x.discipline
      (fun result log _ => x.Edited result log) log s := by
  unfold Versioning.editCalculation Versioning.validate
  cases x.draft.check x.uniqueId with
  | error fault => exact Edited.of_idle hp rfl
  | ok _ =>
    show (Versioning.latestForEdit x.uniqueId >>= _).Obeys _ _ _ _
    rw [obeys_bind]
    refine latestForEdit_obeys (fun c log₁ t ht hu hc hp₁ => ?_) fun e log' t hp' =>
      .of_idle (hp'.trans hp) rfl
    have hp₁ := hp₁.trans hp
    refine obeys_reads_bind (expressionReferrers_asks _ _) ht (fun found log₂ t ht hp₂ => ?_)
      fun e log₂ t hp₂ => .of_idle (hp₂.trans hp₁) rfl
    have hc := hc.keepsIds ht.ids
    have hp₂ := hp₂.trans hp₁
    split
    · exact Edited.of_idle hp₂ rfl
    refine obeys_reads_bind (isUnused_asks _ _) ht.chained (fun unused log₃ t ht hp₃ => ?_)
      fun e log₃ t hp₃ => .of_idle (hp₃.trans hp₂) rfl
    have hc := hc.keepsIds ht.ids
    have hp₃ := hp₃.trans hp₂
    cases unused with
    | true => exact editInPlace_obeys hu hp₃ hc
    | false => exact editAsVersion_obeys hu hp₃ hc

theorem Bumped.ends {result : Except LedgerError RowId} (h : x.Bumped result log)
    (hx : x.isBump = true) : x.Ends (result.map .stored) log := by
  cases result with
  | ok id =>
    have h : Log.phase log = .stored id := h
    exact ⟨fun hf => by simp [h, Phase.isFrozen] at hf, fun _ => by rw [h]; rfl⟩
  | error e =>
    rcases h with h | ⟨hf, ha⟩
    · exact ⟨fun hf => by simp [h, Phase.isFrozen] at hf, fun _ => by rw [h]; rfl⟩
    · exact ⟨fun _ => ⟨hx, ha⟩, fun h => by simp [ha.faultless] at h⟩

theorem obeys_wrapped {p : Procedure α} {wrap : α → Outcome}
    {post : Except LedgerError α → Log → Store → Prop} (hp : p.Obeys x.discipline post log s)
    (h : ∀ result log' t, post result log' t → x.Ends (result.map wrap) log') :
    (do return wrap (← p)).Obeys x.discipline (fun result log _ => x.Ends result log) log s := by
  rw [obeys_bind]
  refine hp.mono fun result log' t hr => ?_
  cases result with
  | ok a => exact h _ _ _ hr
  | error e => exact h _ _ _ hr

/-- A change keeps its discipline, when the copies that it may start from agree with the store. -/
theorem obeys {held : List Calculation} (hx : x.StartsFrom held) (hc : ∀ c ∈ held, s.Agrees c) :
    x.procedure.Obeys x.discipline (fun result log _ => x.Ends result log) [] s := by
  cases x with
  | create u d =>
    refine obeys_wrapped (createCalculation_obeys (x := .create u d) rfl)
      fun result log' t h => ?_
    cases result with
    | ok id =>
      have h : Log.phase log' = .stored id := h
      exact ⟨fun hf => by simp [h, Phase.isFrozen] at hf, fun _ => by rw [h]; rfl⟩
    | error e =>
      have h : Log.phase log' = .idle := h
      exact ⟨fun hf => by simp [h, Phase.isFrozen] at hf, fun _ => by rw [h]; rfl⟩
  | bump u d =>
    exact obeys_wrapped (bumpVersion_obeys (x := .bump u d) rfl) fun _ _ _ h => h.ends rfl
  | bumpFrom copy d =>
    exact obeys_wrapped (bumpFrom_obeys (x := .bumpFrom copy d) rfl rfl (hc copy hx))
      fun _ _ _ h => h.ends rfl
  | edit u d =>
    refine obeys_wrapped (editCalculation_obeys (x := .edit u d) rfl) fun result log' t h => ?_
    refine ⟨fun hf => ⟨rfl, h.1 hf⟩, fun hf => (h.2 hf).trans ?_⟩
    cases result with
    | ok o => rfl
    | error e => rfl

end Change

end FormulaLedger
