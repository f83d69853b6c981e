import FormulaLedger.Proofs.Versioning.Session

/-!
Operations that end with an error. While nobody else is at work and no more than one request fails,
such an operation leaves the store as it was: what it has frozen it puts back. Only an edit whose
new version is stored goes no way back, and what it leaves is that version with the first of the
reports redirected to it.
-/

set_option autoImplicit false

namespace FormulaLedger

open Procedure

namespace Log

def failures (log : Log) : Nat := log.countP Exchange.isFailure

@[simp] theorem failures_append_answered (log : Log) (r : Request) (a : r.Result) :
    failures (log ++ [.answered r a]) = failures log := by
  simp [failures, Exchange.isFailure]

@[simp] theorem failures_append_failed (log : Log) (r : Request) (e : StoreError) :
    failures (log ++ [.failed r e]) = failures log + 1 := by
  simp [failures, Exchange.isFailure]

def FailsAfterStoring (log : Log) : Prop :=
  ∃ before r e after, log = before ++ .failed r e :: after ∧
    (phase before).stored?.isSome = true

theorem FailsAfterStoring.stored {log : Log} (h : log.FailsAfterStoring) :
    (phase log).stored?.isSome = true := by
  obtain ⟨before, r, e, after, rfl, hp⟩ := h
  rw [phase, List.foldl_append]
  change (List.foldl Phase.after (phase before) _).stored?.isSome = true
  generalize phase before = p at hp
  generalize Exchange.failed r e :: after = rest
  induction rest generalizing p with
  | nil => exact hp
  | cons x rest ih =>
    cases p with
    | stored id =>
      obtain ⟨new, hnew⟩ := Phase.after_stored id x
      rw [List.foldl_cons, hnew]
      exact ih _ rfl
    | idle => contradiction
    | frozen id => contradiction

end Log

namespace Store

variable {s : Store}

theorem StillLatest.answer_restore (hs : s.Chained) {copy : Calculation} (h : s.StillLatest copy) :
    (s.modifyRow copy.id fun c => { c with latest := false }).answer (.setLatest copy.id true) =
      (.ok false, s) := by
  obtain ⟨c, hrow⟩ := h.row?_frozen hs
  rw [answer_setLatest_of_some hrow, h.restored hs]

end Store

/-- Nobody else is at work, and any request may be asked. -/
def Discipline.alone : Discipline where
  allowed _ _ _ := True
  meantime _ s t := t = s

theorem Program.Obeys.ends {α : Type} {post : α → Log → Store → Prop} {p : Program α} {a : α}
    {before log : Log} {s t : Store} (hp : p.Obeys .alone post before s)
    (hr : p.Reaches s log (.done a) t) : post a (before ++ log) t :=
  (Obeys.of_reaches (fun _ _ => True) (fun _ _ _ => rfl) (fun _ _ _ _ _ => trivial)
    (fun _ _ _ _ _ _ => trivial) hr hp trivial).1

namespace Procedure

variable {α β : Type} {log : Log} {s t : Store}

theorem obeys_alone_attempt {r : Request} {f : r.Result → Procedure β}
    {post : Except LedgerError β → Log → Store → Prop} :
    (attempt r >>= f).Obeys .alone post log s ↔
      (f (s.answer r).1).Obeys .alone post (log ++ [.answered r (s.answer r).1]) (s.answer r).2 ∧
        ∀ e, (f (.error e)).Obeys .alone post (log ++ [.failed r e]) s := by
  rw [obeys_bind, obeys_attempt]
  constructor
  · intro h
    exact (h s rfl).2
  · rintro h _ rfl
    exact ⟨trivial, h⟩

theorem obeys_alone_ask {r : Request} {f : r.Answer → Procedure β}
    {post : Except LedgerError β → Log → Store → Prop}
    (found : ∀ a, (s.answer r).1 = .ok a →
      (f a).Obeys .alone post (log ++ [.answered r (.ok a)]) (s.answer r).2)
    (lost : ∀ e log', Log.phase log' = Log.phase log → post (.error e) log' s) :
    (ask r >>= f).Obeys .alone post log s := by
  rw [obeys_bind, obeys_ask]
  intro t ht
  obtain rfl : t = s := ht
  refine ⟨trivial, ?_, fun e => lost _ _ (by simp)⟩
  cases hanswer : (t.answer r).1 with
  | ok a => exact found a hanswer
  | error e =>
    rw [Store.answer_of_error hanswer]
    exact lost _ _ (by rw [Log.phase_append, Phase.after_refused])

theorem obeys_alone_read {r : Request} (hr : r.isRead = true) {f : r.Answer → Procedure β}
    {post : Except LedgerError β → Log → Store → Prop}
    (found : ∀ a log', (s.answer r).1 = .ok a → Log.phase log' = Log.phase log →
      (f a).Obeys .alone post log' s)
    (lost : ∀ e log', Log.phase log' = Log.phase log → post (.error e) log' s) :
    (ask r >>= f).Obeys .alone post log s := by
  refine obeys_alone_ask (fun a ha => ?_) lost
  rw [s.answer_of_isRead hr]
  exact found a _ ha (by rw [Log.phase_append, Phase.after_of_isRead _ hr])

theorem obeys_alone_of_reads {p : Procedure α} (hp : p.Asks fun r => r.isRead = true)
    {post : Except LedgerError α → Log → Store → Prop}
    (done : ∀ result log', Log.phase log' = Log.phase log → post result log' s) :
    p.Obeys .alone post log s := by
  refine Program.Asks.obeys (fun log' t => t = s ∧ Log.phase log' = Log.phase log) hp
    (fun _ _ _ _ _ _ _ => trivial) ?_ ?_ ?_ ⟨rfl, rfl⟩
  · rintro log' t _ r ⟨rfl, hphase⟩ rfl hr
    rw [Log.phase_append, Phase.after_of_isRead _ hr]
    exact ⟨Store.answer_of_isRead _ hr, hphase⟩
  · rintro log' t _ r e ⟨rfl, hphase⟩ rfl _
    rw [Log.phase_append, Phase.after_failed]
    exact ⟨rfl, hphase⟩
  · rintro result log' t ⟨rfl, hphase⟩
    exact done result log' hphase

theorem obeys_alone_reads_bind {p : Procedure α} (hp : p.Asks fun r => r.isRead = true)
    {f : α → Procedure β} {post : Except LedgerError β → Log → Store → Prop}
    (found : ∀ a log', Log.phase log' = Log.phase log → (f a).Obeys .alone post log' s)
    (lost : ∀ e log', Log.phase log' = Log.phase log → post (.error e) log' s) :
    (p >>= f).Obeys .alone post log s := by
  rw [obeys_bind]
  refine obeys_alone_of_reads hp fun result log' hphase => ?_
  cases result with
  | ok a => exact found a log' hphase
  | error e => exact lost e log' hphase

/-- An error leaves the store as it was, with no row stored, when at most one request failed. -/
def Undone (s : Store) (result : Except LedgerError α) (log : Log) (t : Store) : Prop :=
  ∀ e, result = .error e → log.failures ≤ 1 → t = s ∧ (Log.phase log).stored? = none

theorem Undone.of_ok (a : α) : Undone s (.ok a) log t := fun _ h => by contradiction

theorem Undone.of_idle {result : Except LedgerError α} (hp : Log.phase log = .idle) :
    Undone s result log s := fun _ _ _ => ⟨rfl, by rw [hp]; rfl⟩

theorem undone_ask {r : Request} (hp : Log.phase log = .idle) :
    (ask r).Obeys .alone (Undone s) log s := by
  rw [obeys_ask]
  intro t ht
  obtain rfl : t = s := ht
  refine ⟨trivial, ?_, fun e => .of_idle (by simpa using hp)⟩
  cases hanswer : (t.answer r).1 with
  | ok a => exact .of_ok _
  | error e =>
    rw [Store.answer_of_error hanswer]
    exact .of_idle (by rw [Log.phase_append, Phase.after_refused, hp])

theorem undone_wrapped {p : Procedure α} (wrap : α → β) (hp : p.Obeys .alone (Undone s) log s) :
    (do return wrap (← p)).Obeys .alone (Undone s) log s := by
  rw [obeys_bind]
  refine hp.mono fun result log' t h => ?_
  cases result with
  | ok a => exact .of_ok _
  | error e => exact fun _ _ => h e rfl

end Procedure

namespace Versioning

variable {s : Store} {log : Log} {u : String} {d : Draft}

theorem latestForEdit_alone {post : Except LedgerError Calculation → Log → Store → Prop}
    (found : ∀ c log', s.latest? u = some c → Log.phase log' = Log.phase log →
      post (.ok c) log' s)
    (lost : ∀ e log', Log.phase log' = Log.phase log → post (.error e) log' s) :
    (latestForEdit u).Obeys .alone post log s := by
  unfold latestForEdit
  refine obeys_alone_read rfl (fun a log₁ ha hp₁ => ?_) lost
  cases a with
  | some c => exact found c log₁ (Except.ok.inj ha) hp₁
  | none =>
    refine obeys_alone_read rfl (fun rows log₂ _ hp₂ => ?_) fun e log' h =>
      lost e log' (h.trans hp₁)
    cases rows.getLast? with
    | some newest => exact lost _ _ (hp₂.trans hp₁)
    | none => exact lost _ _ (hp₂.trans hp₁)

def BumpedAlone (s : Store) (c : Calculation) (d : Draft) (result : Except LedgerError RowId)
    (log : Log) (t : Store) : Prop :=
  match result with
  | .ok id => id = s.lastId + 1 ∧ Log.phase log = .stored id ∧ t = s.succeeded c d
  | .error e => Undone s (.error e : Except LedgerError RowId) log t

theorem BumpedAlone.undone {c : Calculation} {result : Except LedgerError RowId} {t : Store}
    (h : BumpedAlone s c d result log t) : Undone s result log t := by
  cases result with
  | ok id => exact .of_ok _
  | error e => exact h

theorem restoreLatest_alone (hs : s.Chained) {copy : Calculation} (h : s.StillLatest copy)
    (hp : Log.phase log = .frozen copy.id) (hone : 1 ≤ Log.failures log) :
    (restoreLatest copy).Obeys .alone (fun result log t => result = .ok () ∧
        (log.failures ≤ 1 → t = s ∧ (Log.phase log).stored? = none)) log
      (s.modifyRow copy.id fun c => { c with latest := false }) := by
  have hlatest : (s.modifyRow copy.id fun c => { c with latest := false }).answer
      (.latest copy.uniqueId) =
        (.ok none, s.modifyRow copy.id fun c => { c with latest := false }) := by
    rw [Store.answer, h.latest?_frozen hs]
  rw [restoreLatest, obeys_alone_attempt, hlatest]
  refine ⟨?_, fun e => ⟨rfl, fun hfailures => ?_⟩⟩
  · change (attempt (.setLatest copy.id true) >>= fun _ => pure ()).Obeys _ _ _ _
    rw [obeys_alone_attempt, h.answer_restore hs]
    refine ⟨⟨rfl, fun _ => ⟨rfl, ?_⟩⟩, fun e => ⟨rfl, fun hfailures => ?_⟩⟩
    · rw [Log.phase_append, Log.phase_append, hp]
      rfl
    · rw [Log.failures_append_failed, Log.failures_append_answered] at hfailures
      omega
  · rw [Log.failures_append_failed] at hfailures
    omega

theorem insertNext_alone (hs : s.Chained) {copy : Calculation} (h : s.StillLatest copy)
    (hp : Log.phase log = .frozen copy.id) :
    (insertNext copy d).Obeys .alone (BumpedAlone s copy d) log
      (s.modifyRow copy.id fun c => { c with latest := false }) := by
  rw [insertNext, obeys_alone_attempt, h.answer_insertNext hs]
  refine ⟨⟨rfl, ?_, rfl⟩, fun e => ?_⟩
  · rw [Log.phase_append]
    rfl
  · change (restoreLatest copy >>= fun _ => throw (LedgerError.ofStore e)).Obeys _ _ _ _
    rw [obeys_bind]
    refine (restoreLatest_alone hs h ?_ ?_).mono fun result log' t h => ?_
    · rw [Log.phase_append, Phase.after_failed, hp]
    · simp
    · obtain ⟨rfl, hrestored⟩ := h
      exact fun _ _ => hrestored

theorem bumpFrom_alone (hs : s.Chained) {copy : Calculation} (hcopy : s.Agrees copy)
    (hp : Log.phase log = .idle) :
    (bumpFrom copy d).Obeys .alone (BumpedAlone s copy d) log s := by
  have lost : ∀ e log', Log.phase log' = .idle → BumpedAlone s copy d (.error e) log' s :=
    fun e log' hidle => Undone.of_idle hidle
  unfold bumpFrom
  refine obeys_alone_read rfl (fun reread log₁ hreread hp₁ => ?_) fun e log' h =>
    lost e log' (h.trans hp)
  obtain rfl : s.row? copy.id = reread := Except.ok.inj hreread
  by_cases hlatest : (s.row? copy.id).any (·.latest) = true
  · have hstill := (hcopy.stillLatest_iff hs).1 hlatest
    simp only [hlatest, Bool.not_true, Bool.false_eq_true, ↓reduceIte]
    refine obeys_alone_read rfl (fun taken log₂ htaken hp₂ => ?_) fun e log' h =>
      lost e log' (h.trans (hp₁.trans hp))
    rw [hstill.answer_version hs] at htaken
    obtain rfl : none = taken := Except.ok.inj htaken
    simp only [Option.isSome_none, Bool.false_eq_true, ↓reduceIte]
    refine obeys_alone_ask (fun wasLatest hwas => ?_) fun e log' h =>
      lost e log' (h.trans (hp₂.trans (hp₁.trans hp)))
    rw [hstill.answer_freeze hs] at hwas ⊢
    obtain rfl : true = wasLatest := Except.ok.inj hwas
    simp only [Bool.not_true, Bool.false_eq_true, ↓reduceIte]
    refine insertNext_alone hs hstill ?_
    rw [Log.phase_append, hp₂, hp₁, hp]
    rfl
  · rw [Bool.eq_false_iff.2 hlatest]
    exact lost _ _ (hp₁.trans hp)

theorem bumpVersion_alone (hs : s.Chained) (hp : Log.phase log = .idle) :
    (bumpVersion u d).Obeys .alone (Undone s) log s := by
  unfold bumpVersion validate
  cases d.check u with
  | error fault => exact .of_idle hp
  | ok _ =>
    change (latestForEdit u >>= fun current => bumpFrom current d).Obeys _ _ _ _
    rw [obeys_bind]
    refine latestForEdit_alone (fun c log' hc h => ?_) fun e log' h => .of_idle (h.trans hp)
    have hmem := (Store.mem_latestRows.1 (Store.latest?_mem_latestRows hc).1).1
    exact (bumpFrom_alone hs (hs.agrees hmem) (h.trans hp)).mono fun _ _ _ h => h.undone

theorem createCalculation_alone (hp : Log.phase log = .idle) :
    (createCalculation u d).Obeys .alone (Undone s) log s := by
  unfold createCalculation validate
  cases d.check u with
  | error fault => exact .of_idle hp
  | ok _ =>
    refine obeys_alone_read rfl (fun rows log₁ _ hp₁ => ?_) fun e log' h => .of_idle (h.trans hp)
    split
    · exact .of_idle (hp₁.trans hp)
    · exact undone_ask (hp₁.trans hp)

end Versioning

/-- What an edit leaves that has stored row `new` after row `old` in `m` and then failed: `new` is
in the place of `old` in the reports before the one at which it stopped. -/
inductive CutShort (m : Store) (old new : RowId) : Log → Store → Prop
  | scan (before : Log) (e : StoreError) : Log.phase before = .stored new →
      CutShort m old new (before ++ [.failed (.reportsListing [old]) e]) m
  | update (before : Log) (e : StoreError) (done rest : List Report) (r : Report) :
      Log.phase before = .stored new → m.reports = done ++ r :: rest → old ∈ r.rows →
      CutShort m old new (before ++ [.failed (.updateReport (r.replace old new)) e])
        { m with reports := done.map (·.replace old new) ++ r :: rest }

namespace Versioning

variable {s m : Store} {log : Log} {u : String} {d : Draft} {old new : RowId}

theorem answer_updateReport_next (hm : m.Named) {done rest : List Report} {r : Report}
    (hreports : m.reports = done ++ r :: rest) :
    ({ m with reports := done.map (·.replace old new) ++ r :: rest } : Store).answer
      (.updateReport (r.replace old new)) =
      (.ok (), { m with reports := (done ++ [r]).map (·.replace old new) ++ rest }) := by
  rw [Store.Named, Store.reportNames, hreports, List.map_append, List.map_cons,
    List.nodup_middle, ← List.map_append, List.nodup_cons] at hm
  have hother : ∀ q ∈ done ++ rest, q.name ≠ r.name := fun q hq heq =>
    hm.1 (List.mem_map.2 ⟨q, hq, heq⟩)
  rw [Store.answer_updateReport_of_mem (by simp [Store.reportNames, Report.replace])]
  refine Prod.ext rfl (congrArg (fun reports => { m with reports }) ?_)
  have hdone : (done.map (·.replace old new)).map (fun q =>
      if q.name = (r.replace old new).name then r.replace old new else q) =
      done.map (·.replace old new) := by
    rw [List.map_map]
    exact List.map_congr_left fun q hq => if_neg (hother q (List.mem_append_left _ hq))
  have hrest : rest.map (fun q =>
      if q.name = (r.replace old new).name then r.replace old new else q) = rest :=
    (List.map_congr_left fun q hq => if_neg (hother q (List.mem_append_right _ hq))).trans
      (List.map_id' _)
  rw [List.map_append, hdone, List.map_cons, hrest]
  simp [Report.name_replace]

/-- The reports in `done` are redirected, and those in `rest` are still to be looked at. -/
theorem redirectEach_alone (hm : m.Named) {done rest : List Report}
    (hreports : m.reports = done ++ rest) (hp : Log.phase log = .stored new) :
    (redirectEach old new (rest.filter (·.rows.contains old))).Obeys .alone
      (fun result log t => ∀ e, result = .error e → CutShort m old new log t) log
      { m with reports := done.map (·.replace old new) ++ rest } := by
  induction rest generalizing done log with
  | nil => exact fun e h => by contradiction
  | cons r rest ih =>
    have hnext : m.reports = (done ++ [r]) ++ rest := by
      rw [List.append_assoc]
      exact hreports
    by_cases hold : r.rows.contains old = true
    · rw [List.filter_cons_of_pos (p := fun q : Report => q.rows.contains old) hold, redirectEach,
        if_pos hold, obeys_bind]
      refine (obeys_ask _ _).2 ?_
      rintro _ rfl
      rw [answer_updateReport_next hm hreports]
      refine ⟨trivial, ?_, fun e e' h => ?_⟩
      · change (redirectEach old new (rest.filter (·.rows.contains old)) >>= _).Obeys _ _ _ _
        rw [obeys_bind]
        refine (ih hnext ?_).mono fun result log' t h => ?_
        · rw [Log.phase_append, hp]
          rfl
        · cases result with
          | ok count => exact fun e h => by contradiction
          | error e => exact fun _ _ => h e rfl
      · exact .update log e done rest r hp hreports (List.contains_iff_mem.1 hold)
    · have hsame : r.replace old new = r :=
        Report.replace_of_not_mem fun hmem => hold (List.contains_iff_mem.2 hmem)
      rw [List.filter_cons_of_neg (p := fun q : Report => q.rows.contains old) hold]
      have hrest := ih hnext hp
      rw [List.map_append, List.map_singleton, hsame, List.append_assoc] at hrest
      exact hrest

theorem redirectReports_alone (hm : m.Named) (hp : Log.phase log = .stored new) :
    (redirectReports old new).Obeys .alone
      (fun result log t => ∀ e, result = .error e → CutShort m old new log t) log m := by
  unfold redirectReports
  split
  · exact fun e h => by contradiction
  rw [obeys_bind, obeys_ask]
  intro t ht
  obtain rfl : t = m := ht
  refine ⟨trivial, ?_, fun e _ _ => .scan log e hp⟩
  have hlisting : t.reportsListing [old] = t.reports.filter (·.rows.contains old) :=
    List.filter_congr fun r _ => by simp
  change (redirectEach old new (t.reportsListing [old])).Obeys _ _ _ _
  rw [hlisting]
  exact redirectEach_alone hm (List.nil_append _).symm (by
    rw [Log.phase_append, Phase.after_of_isRead _ rfl, hp])

def EditedAlone (s : Store) (u : String) (d : Draft) (result : Except LedgerError EditOutcome)
    (log : Log) (t : Store) : Prop :=
  ∀ e, result = .error e → Log.failures log ≤ 1 →
    t = s ∧ (Log.phase log).stored? = none ∨
      ∃ c, s.latest? u = some c ∧ CutShort (s.succeeded c d) c.id (s.lastId + 1) log t

theorem editInPlace_alone {c : Calculation} (hp : Log.phase log = .idle) :
    (editInPlace c d).Obeys .alone (Undone s) log s := by
  rw [editInPlace, obeys_alone_attempt]
  refine ⟨?_, fun e => ?_⟩
  · cases hanswer : (s.answer (.updateLatest c.id d)).1 with
    | ok a => exact Undone.of_ok _
    | error e =>
      rw [Store.answer_of_error hanswer]
      have hp' : Log.phase (log ++ [.answered (.updateLatest c.id d) (.error e)]) = .idle := by
        rw [Log.phase_append, Phase.after_refused, hp]
      cases e <;> exact Undone.of_idle hp'
  · have hp' : Log.phase (log ++ [.failed (.updateLatest c.id d) e]) = .idle := by
      rw [Log.phase_append, Phase.after_failed, hp]
    cases e <;> exact Undone.of_idle hp'

theorem editAsVersion_alone (hs : s.Chained) (hn : s.Named) {c : Calculation}
    (hc : s.latest? u = some c) (hp : Log.phase log = .idle) :
    (editAsVersion c d).Obeys .alone (EditedAlone s u d) log s := by
  have hmem := (Store.mem_latestRows.1 (Store.latest?_mem_latestRows hc).1).1
  rw [editAsVersion, obeys_bind]
  refine (bumpFrom_alone hs (hs.agrees hmem) hp).mono fun result log' t h => ?_
  cases result with
  | error e => exact fun _ _ hone => .inl (h e rfl hone)
  | ok new =>
    obtain ⟨rfl, hp', rfl⟩ := h
    change (redirectReports c.id (s.lastId + 1) >>= _).Obeys _ _ _ _
    rw [obeys_bind]
    have hnamed : (s.succeeded c d).Named := hn
    refine (redirectReports_alone hnamed hp').mono fun result log' t h => ?_
    cases result with
    | ok count => exact fun e h => by contradiction
    | error e => exact fun _ _ _ => .inr ⟨c, hc, h e rfl⟩

theorem editCalculation_alone (hs : s.Chained) (hn : s.Named) (hp : Log.phase log = .idle) :
    (editCalculation u d).Obeys .alone (EditedAlone s u d) log s := by
  have lost : ∀ e log', Log.phase log' = .idle → EditedAlone s u d (.error e) log' s :=
    fun e log' hp' e' he hone => .inl (Undone.of_idle hp' e' he hone)
  unfold editCalculation validate
  cases d.check u with
  | error fault => exact lost _ _ hp
  | ok _ =>
    change (latestForEdit u >>= _).Obeys _ _ _ _
    rw [obeys_bind]
    refine latestForEdit_alone (fun c log₁ hc hp₁ => ?_) fun e log' h => lost e _ (h.trans hp)
    have hp₁ := hp₁.trans hp
    refine obeys_alone_reads_bind (Change.expressionReferrers_asks _ _) (fun found log₂ hp₂ => ?_)
      fun e log' h => lost e _ (h.trans hp₁)
    have hp₂ := hp₂.trans hp₁
    split
    · exact lost _ _ hp₂
    refine obeys_alone_reads_bind (Change.isUnused_asks _ _) (fun unused log₃ hp₃ => ?_)
      fun e log' h => lost e _ (h.trans hp₂)
    have hp₃ := hp₃.trans hp₂
    cases unused with
    | true => exact (editInPlace_alone hp₃).mono fun _ _ _ h e he hone => .inl (h e he hone)
    | false => exact editAsVersion_alone hs hn hc hp₃

end Versioning

namespace Operation

open Versioning

variable {s t : Store} {log : Log}

theorem undone (hs : s.Chained) {held : List Calculation} (hheld : ∀ c ∈ held, s.Agrees c)
    {op : Operation} (ho : op.StartsFrom held) (hop : ∀ u d, op ≠ .change (.edit u d)) :
    op.procedure.Obeys .alone (Undone s) [] s := by
  cases op with
  | change x =>
    cases x with
    | create u d => exact undone_wrapped _ (createCalculation_alone rfl)
    | bump u d => exact undone_wrapped _ (bumpVersion_alone hs rfl)
    | bumpFrom copy d =>
      exact undone_wrapped _ ((bumpFrom_alone hs (hheld copy ho) rfl).mono fun _ _ _ h => h.undone)
    | edit u d => exact absurd rfl (hop u d)
  | deleteCalculation u =>
    refine undone_wrapped _ (obeys_alone_reads_bind (latest_asks u) (fun _ log₁ hp₁ => ?_)
      fun e log' h => .of_idle h)
    exact obeys_alone_reads_bind (assertDeletable_asks .calculation u)
      (fun _ log₂ hp₂ => undone_ask (hp₂.trans hp₁)) fun e log' h => .of_idle (h.trans hp₁)
  | createConstant c =>
    refine undone_wrapped (fun _ => Outcome.done) ?_
    change Procedure.Obeys _ _ (if Text.isBlankText c.uniqueId then _ else _) _ _
    split
    · exact .of_idle rfl
    · exact undone_ask rfl
  | editConstant u c =>
    exact undone_wrapped (fun _ => Outcome.done) (obeys_alone_reads_bind
      (assertIdentityEditable_asks .constant u c.identity) (fun _ log₁ hp₁ => undone_ask hp₁)
      fun e log' h => .of_idle h)
  | deleteConstant u =>
    refine undone_wrapped (fun _ => Outcome.done) (obeys_alone_read rfl
      (fun found log₁ _ hp₁ => ?_) fun e log' h => .of_idle h)
    cases found with
    | none => exact .of_idle hp₁
    | some c =>
      exact obeys_alone_reads_bind (assertDeletable_asks .constant u)
        (fun _ log₂ hp₂ => undone_ask (hp₂.trans hp₁)) fun e log' h => .of_idle (h.trans hp₁)
  | insertReport r => exact undone_wrapped (fun _ => Outcome.done) (undone_ask rfl)
  | updateReport r => exact undone_wrapped (fun _ => Outcome.done) (undone_ask rfl)

theorem edit_alone (hs : s.Chained) (hn : s.Named) (u : String) (d : Draft) :
    (Operation.change (.edit u d)).procedure.Obeys .alone (fun result log t =>
      ∀ e, result = .error e → Log.failures log ≤ 1 →
        t = s ∧ (Log.phase log).stored? = none ∨
          ∃ c, s.latest? u = some c ∧ CutShort (s.succeeded c d) c.id (s.lastId + 1) log t)
      [] s := by
  change (editCalculation u d >>= _).Obeys _ _ _ _
  rw [obeys_bind]
  refine (editCalculation_alone hs hn rfl).mono fun result log' t h => ?_
  cases result with
  | ok o => exact fun e h => by contradiction
  | error e => exact fun _ _ => h e rfl

end Operation

theorem CutShort.failsAfterStoring {m t : Store} {old new : RowId} {log : Log}
    (h : CutShort m old new log t) : log.FailsAfterStoring := by
  cases h with
  | scan before e hp => exact ⟨before, _, e, [], rfl, by rw [hp]; rfl⟩
  | update before e done rest r hp _ _ => exact ⟨before, _, e, [], rfl, by rw [hp]; rfl⟩

theorem CutShort.rows_eq {m t : Store} {old new : RowId} {log : Log}
    (h : CutShort m old new log t) : t.rows = m.rows := by
  cases h <;> rfl

/-- After any run, an operation during which at most one request fails and that ends with an error
leaves the whole store as it was, unless the failure comes after a row was stored. Then the
operation is an edit, the new version is the latest row, and the reports before the one at which the
edit stopped list it in the place of the old row. -/
theorem Run.failure_traceless {es : List Episode} {held : List Calculation} {s t : Store}
    (h : Run es held s) {op : Operation} (ho : op.StartsFrom held) {log : Log} {e : LedgerError}
    (hr : op.Reaches s log (.done (.error e)) t) (hone : log.failures ≤ 1) :
    (¬ log.FailsAfterStoring → t = s) ∧
      (log.FailsAfterStoring → ∃ u d c, op = .change (.edit u d) ∧ s.latest? u = some c ∧
        CutShort (s.succeeded c d) c.id (s.lastId + 1) log t ∧
        t.latest? u = some ⟨s.lastId + 1, u, c.version + 1, true, d⟩) := by
  have hs := h.sound.chained
  by_cases hop : ∃ u d, op = .change (.edit u d)
  · obtain ⟨u, d, rfl⟩ := hop
    have hends := (Operation.edit_alone hs h.named u d).ends hr e rfl hone
    rw [List.nil_append] at hends
    rcases hends with ⟨rfl, hnone⟩ | ⟨c, hc, hcut⟩
    · refine ⟨fun _ => rfl, fun hfails => ?_⟩
      have hstored := hfails.stored
      rw [hnone] at hstored
      contradiction
    · refine ⟨fun hfails => absurd hcut.failsAfterStoring hfails,
        fun _ => ⟨u, d, c, rfl, hc, hcut, ?_⟩⟩
      obtain ⟨_, rfl⟩ := Store.latest?_mem_latestRows hc
      have hmem : ⟨s.lastId + 1, c.uniqueId, c.version + 1, true, d⟩ ∈ t.latestRows := by
        rw [Store.latestRows_of_rows_eq hcut.rows_eq]
        exact Store.stored_mem_latestRows rfl
      exact (h.chained_within ho hr).oneLatest.latest?_eq hmem
  · have hundone := Operation.undone hs h.sound.held ho fun u d heq => hop ⟨u, d, heq⟩
    have hends := hundone.ends hr e rfl hone
    rw [List.nil_append] at hends
    refine ⟨fun _ => hends.1, fun hfails => ?_⟩
    have hstored := hfails.stored
    rw [hends.2] at hstored
    contradiction

namespace Run

def listedStore (latest : Bool) (rows : List RowId) : Store :=
  { firstStore latest with reports := [⟨"first", rows⟩, ⟨"second", [1]⟩] }

theorem run_listedStore : ∃ es, Run es [] (listedStore true [1]) := by
  have hcreated := Run.perform Run.start
    (show Operation.StartsFrom [] (.change (.create "a" plainDraft)) from trivial) create_reaches
  have hfirst := hcreated.perform
    (show Operation.StartsFrom [] (.insertReport ⟨"first", [1]⟩) from trivial)
    (.answered rfl (.refl _ _))
  exact ⟨_, hfirst.perform
    (show Operation.StartsFrom [] (.insertReport ⟨"second", [1]⟩) from trivial)
    (.answered rfl (.refl _ _))⟩

def editLog : Log :=
  [.answered (.latest "a") (.ok (some (firstRow true))),
    .answered .latestRows (.ok [firstRow true]), .answered (.history "a") (.ok [firstRow true]),
    .answered (.reportsListing [1]) (.ok [⟨"first", [1]⟩, ⟨"second", [1]⟩]),
    .answered (.row 1) (.ok (some (firstRow true))), .answered (.version "a" 2) (.ok none),
    .answered (.setLatest 1 false) (.ok true),
    .answered (.insertRow ⟨"a", 2, true, plainDraft⟩) (.ok 2),
    .answered (.reportsListing [1]) (.ok [⟨"first", [1]⟩, ⟨"second", [1]⟩]),
    .answered (.updateReport ⟨"first", [2]⟩) (.ok ())]

theorem edit_reaches (e : StoreError) :
    (Operation.change (.edit "a" plainDraft)).Reaches (listedStore true [1])
      (editLog ++ [.failed (.updateReport ⟨"second", [2]⟩) e]) (.done (.error (.ofStore e)))
      ((listedStore false [2]).withRow ⟨"a", 2, true, plainDraft⟩) := by
  have hhistory : (listedStore true [1]).answer (.history "a") =
      (.ok [firstRow true], listedStore true [1]) := by
    have hrevisions : (listedStore true [1]).rows.filter (·.uniqueId == "a") =
        [firstRow true] := rfl
    rw [Store.answer, Store.history, hrevisions, List.mergeSort_singleton]
  refine .answered rfl (.answered rfl (.answered hhistory (.answered rfl ?_)))
  refine .answered rfl (.answered rfl (.answered rfl (.answered rfl ?_)))
  exact .answered rfl (.answered rfl (.failed e (.refl _ _)))

theorem bump_reaches (e : StoreError) :
    (Operation.change (.bumpFrom (firstRow true) plainDraft)).Reaches (firstStore true)
      [.answered (.row 1) (.ok (some (firstRow true))), .answered (.version "a" 2) (.ok none),
        .answered (.setLatest 1 false) (.ok true),
        .failed (.insertRow ⟨"a", 2, true, plainDraft⟩) e, .answered (.latest "a") (.ok none),
        .answered (.setLatest 1 true) (.ok false)]
      (.done (.error (.ofStore e))) (firstStore true) := by
  refine .answered rfl (.answered rfl (.answered rfl (.failed e ?_)))
  exact .answered rfl (.answered rfl (.refl _ _))

/-- A bump whose insertion fails leaves no trace. An edit that fails at the second report leaves the
new version and the first report redirected to it. -/
theorem failure_traceless_stopped :
    (∃ es held log e t, Run es held (firstStore true) ∧ Log.failures log = 1 ∧
      (Operation.change (.bumpFrom (firstRow true) plainDraft)).Reaches (firstStore true) log
        (.done (.error e)) t ∧ t = firstStore true) ∧
    ∃ es log e t, Run es [] (listedStore true [1]) ∧ Log.failures log = 1 ∧
      (Operation.change (.edit "a" plainDraft)).Reaches (listedStore true [1]) log
        (.done (.error e)) t ∧ t.latest? "a" = some ⟨2, "a", 2, true, plainDraft⟩ ∧
      t.reports = [⟨"first", [2]⟩, ⟨"second", [1]⟩] := by
  constructor
  · have hcreated := Run.perform Run.start
      (show Operation.StartsFrom [] (.change (.create "a" plainDraft)) from trivial) create_reaches
    have hread := Run.read (firstRow true) hcreated List.mem_cons_self
    have hbump := bump_reaches (.unavailable "down")
    refine ⟨_, _, _, _, _, hread, rfl, hbump, ?_⟩
    refine (hread.failure_traceless List.mem_cons_self hbump (Nat.le_refl 1)).1 fun hfails => ?_
    exact absurd hfails.stored (by decide)
  · obtain ⟨es, hrun⟩ := run_listedStore
    have hedit := edit_reaches (.unavailable "down")
    have hfails : Log.FailsAfterStoring
        (editLog ++ [.failed (.updateReport ⟨"second", [2]⟩) (.unavailable "down")]) :=
      ⟨editLog, _, _, [], rfl, rfl⟩
    have hstarts : Operation.StartsFrom [] (.change (.edit "a" plainDraft)) := trivial
    obtain ⟨u, d, c, hop, hc, _, hlatest⟩ :=
      (hrun.failure_traceless hstarts hedit (Nat.le_refl 1)).2 hfails
    cases hop
    cases hc
    exact ⟨es, _, _, _, hrun, rfl, hedit, hlatest, rfl⟩

end Run

end FormulaLedger
