import FormulaLedger.Proofs.Versioning.Session

/-!
Changes that are overtaken. While a change of a calculation is under way, another writer may store
the next version first. The change finds that out wherever it has come to: the row that it started
from is frozen, the next version is there, the freeze comes too late, or the insertion is refused.
It ends with an error after which it may be tried again, and leaves what the other writer has stored.
-/

set_option autoImplicit false

namespace FormulaLedger

open Procedure

def Exchange.touches : Exchange → Bool
  | .answered (.setLatest _ false) _ | .answered (.updateLatest _ _) _ => true
  | _ => false

/-- A change has written to the row that it started from. -/
def Log.touched (log : Log) : Bool := log.any Exchange.touches

@[simp] theorem Log.touched_append (log : Log) (x : Exchange) :
    Log.touched (log ++ [x]) = (Log.touched log || x.touches) := by
  simp [Log.touched]

namespace Store

variable {s : Store} {copy : Calculation}

theorem Chained.version?_isSome (hs : s.Chained) {c : Calculation} (hc : c ∈ s.rows) :
    (s.version? c.uniqueId c.version).isSome = true := by
  have hlookup := (hs.toIndexed.lookup_isSome_iff c.uniqueId c.version).2 ⟨c, hc, rfl, rfl⟩
  obtain ⟨id, hid⟩ := Option.isSome_iff_exists.1 hlookup
  obtain ⟨b, hb, rfl, _⟩ := hs.toIndexed.exists_of_lookup hid
  rw [version?, hid, Option.bind_some, hs.row?_of_mem hb, Option.isSome_some]

theorem latest?_withRow (row : NewRow) (u : String) : (s.withRow row).latest? u =
    (s.latest? u).or (if row.latest && row.uniqueId == u then
      some (row.stored (s.lastId + 1)) else none) := by
  rw [latest?, withRow, List.find?_append, List.find?_singleton]
  rfl

theorem modifyRow_withRow {id : RowId} (f : Calculation → Calculation) (row : NewRow)
    (hid : id ≤ s.lastId) : (s.withRow row).modifyRow id f = (s.modifyRow id f).withRow row := by
  have hne : (row.stored (s.lastId + 1)).id ≠ id := Nat.ne_of_gt (Nat.lt_succ_of_le hid)
  simp only [modifyRow, withRow, List.map_append, List.map_singleton, if_neg hne]

theorem row?_withRow {id : RowId} {c : Calculation} (row : NewRow) (h : s.row? id = some c) :
    (s.withRow row).row? id = some c := by
  rw [row?] at h
  rw [row?, withRow, List.find?_append, h, Option.some_or]

theorem StillLatest.chained_succeeded (hs : s.Chained) (h : s.StillLatest copy) (d : Draft) :
    (s.succeeded copy d).Chained := by
  obtain ⟨hfreeze, i, hstore⟩ := h.moves hs d
  exact hstore.chained (hfreeze.chained hs fun h => by contradiction) fun _ => h.frozen hs

theorem StillLatest.agrees (hs : s.Chained) (h : s.StillLatest copy) : s.Agrees copy := by
  obtain ⟨c, hc, hid, hu, hv⟩ := h
  have hagrees := hs.agrees (mem_latestRows.1 hc).1
  rw [Agrees, hid, hu, hv] at hagrees
  exact hagrees

theorem StillLatest.row?_succeeded (hs : s.Chained) (h : s.StillLatest copy) (d : Draft) :
    ∃ c, (s.succeeded copy d).row? copy.id = some c ∧ c.latest = false := by
  have hchained := h.chained_succeeded hs d
  obtain ⟨c, hc, hid, _, _⟩ := h
  refine ⟨{ c with latest := false }, hchained.row?_eq_some_iff.2 ⟨?_, hid⟩, rfl⟩
  exact List.mem_append_left _ (List.mem_map.2 ⟨c, (mem_latestRows.1 hc).1, if_pos hid⟩)

theorem StillLatest.agrees_succeeded (hs : s.Chained) (h : s.StillLatest copy) (d : Draft) :
    (s.succeeded copy d).Agrees copy := by
  obtain ⟨hfreeze, i, hstore⟩ := h.moves hs d
  exact (h.agrees hs).keepsIds (hfreeze.keepsIds.trans hstore.keepsIds)

theorem StillLatest.version?_succeeded (hs : s.Chained) (h : s.StillLatest copy) (d : Draft) :
    ((s.succeeded copy d).version? copy.uniqueId (copy.version + 1)).isSome = true :=
  (h.chained_succeeded hs d).version?_isSome (List.mem_append_right _ List.mem_cons_self)

theorem StillLatest.answer_freeze_succeeded (hs : s.Chained) (h : s.StillLatest copy) (d : Draft) :
    (s.succeeded copy d).answer (.setLatest copy.id false) = (.ok false, s.succeeded copy d) := by
  have hchained := h.chained_succeeded hs d
  obtain ⟨c, hrow, hlatest⟩ := h.row?_succeeded hs d
  obtain ⟨hmem, hid⟩ := hchained.row?_eq_some_iff.1 hrow
  have hrows : ((s.succeeded copy d).modifyRow copy.id fun c => { c with latest := false }).rows =
      (s.succeeded copy d).rows := by
    refine modifyRow_rows_of_forall fun b hb hbid => ?_
    obtain rfl := hchained.eq_of_id hb hmem (hbid.trans hid.symm)
    rw [← hlatest]
  rw [answer_setLatest_of_some hrow, hlatest]
  exact Prod.ext rfl (congrArg (fun rows => { s.succeeded copy d with rows }) hrows)

theorem StillLatest.answer_update_succeeded (hs : s.Chained) (h : s.StillLatest copy)
    (d d' : Draft) : (s.succeeded copy d).answer (.updateLatest copy.id d') =
      (.error (.rowNotLatest copy.id), s.succeeded copy d) := by
  obtain ⟨c, hrow, hlatest⟩ := h.row?_succeeded hs d
  rw [answer_updateLatest_of_some hrow, if_neg (by simp [hlatest])]

theorem referring_succeeded_eq_nil {d : Draft} (h : s.referring .calculation copy.uniqueId = []) :
    (s.succeeded copy d).referring .calculation copy.uniqueId = [] := by
  refine List.eq_nil_iff_forall_not_mem.2 fun x hx => ?_
  obtain ⟨⟨c, hc, rfl, hrefers⟩, hne⟩ := mem_referring.1 hx
  obtain ⟨hmem, hlatest⟩ := mem_latestRows.1 hc
  rcases List.mem_append.1 hmem with hmem | hmem
  · obtain ⟨b, hb, rfl⟩ := List.mem_map.1 hmem
    by_cases hid : b.id = copy.id
    · simp [hid] at hlatest
    · simp only [hid, ↓reduceIte] at hlatest hrefers hne
      exact referring_ne_nil (mem_latestRows.2 ⟨hb, hlatest⟩) hrefers (fun _ => hne trivial) h
  · obtain rfl := List.mem_singleton.1 hmem
    exact hne rfl rfl

end Store

/-- What is left of a change ends with an error after which it may be tried again, and leaves the
store as it is. -/
def GivesWay {α : Type} (copy : Calculation) (rest : Program (Except LedgerError α)) (t : Store) :
    Prop :=
  ∃ e, rest.run t = (.error e, t) ∧
    (e = .stale copy.uniqueId copy.id ∨ e = .conflict copy.uniqueId (copy.version + 1))

theorem GivesWay.isRetryable {copy : Calculation} {e : LedgerError}
    (h : e = .stale copy.uniqueId copy.id ∨ e = .conflict copy.uniqueId (copy.version + 1)) :
    e.isRetryable = true := by
  rcases h with rfl | rfl <;> rfl

theorem GivesWay.after {α β : Type} {copy : Calculation} {p : Procedure α} {a : α} {t : Store}
    {f : α → Procedure β} (hp : p.runOn t = (.ok a, t)) (h : GivesWay copy (ExceptT.run (f a)) t) :
    GivesWay copy (ExceptT.run (p >>= f)) t := by
  obtain ⟨e, hrun, he⟩ := h
  refine ⟨e, ?_, he⟩
  change (p >>= f).runOn t = _
  rw [runOn_bind_of_ok hp]
  exact hrun

theorem GivesWay.bind {α β : Type} {copy : Calculation} {p : Procedure α} {t : Store}
    (h : GivesWay copy (ExceptT.run p) t) (k : α → Procedure β) :
    GivesWay copy (ExceptT.run (p >>= k)) t := by
  obtain ⟨e, hrun, he⟩ := h
  have hrun : p.runOn t = (.error e, t) := hrun
  refine ⟨e, ?_, he⟩
  change (p >>= k).runOn t = _
  rw [runOn_bind, hrun]

/-- A procedure that only looks, and finds what it looks for. -/
def Program.Looks {α : Type} : Program (Except LedgerError α) → Prop
  | .done result => ∃ a, result = .ok a
  | .ask r next => r.isRead = true ∧ ∀ a, (next (.ok a)).Looks

namespace Program.Looks

variable {α β : Type} {s : Store}

theorem run {p : Program (Except LedgerError α)} (hp : p.Looks) (s : Store) :
    ∃ a, p.run s = (.ok a, s) := by
  induction p with
  | done result =>
    obtain ⟨a, rfl⟩ := hp
    exact ⟨a, rfl⟩
  | ask r next ih =>
    obtain ⟨a, ha⟩ := s.answer_eq_of_isRead hp.1
    obtain ⟨b, hb⟩ := ih (.ok a) (hp.2 a)
    refine ⟨b, ?_⟩
    rw [← hb]
    change (next (s.answer r).1).run (s.answer r).2 = _
    rw [ha]

theorem bind {p : Procedure α} {f : α → Procedure β} (hp : Looks (ExceptT.run p))
    (hf : ∀ a, Looks (ExceptT.run (f a))) : Looks (ExceptT.run (p >>= f)) := by
  have h : ∀ q : Program (Except LedgerError α), q.Looks → Looks (q.bind (ExceptT.bindCont f)) := by
    intro q hq
    induction q with
    | done result =>
      obtain ⟨a, rfl⟩ := hq
      exact hf a
    | ask r next ih => exact ⟨hq.1, fun a => ih _ (hq.2 a)⟩
  exact h _ hp

theorem ask {r : Request} (hr : r.isRead = true) : Looks (ExceptT.run (Procedure.ask r)) :=
  ⟨hr, fun a => ⟨a, rfl⟩⟩

theorem givesWay {copy : Calculation} {p : Procedure α} {f : α → Procedure β}
    (hp : Looks (ExceptT.run p)) (hf : ∀ a, GivesWay copy (ExceptT.run (f a)) s) :
    GivesWay copy (ExceptT.run (p >>= f)) s := by
  obtain ⟨a, ha⟩ := hp.run s
  exact .after ha (hf a)

theorem passes_bind {post : Log → Program (Except LedgerError β) → Store → Prop} {p : Procedure α}
    {f : α → Procedure β} {log : Log} (hp : Looks (ExceptT.run p))
    (here : ∀ (q : Procedure α) log', Looks (ExceptT.run q) → Log.phase log' = Log.phase log →
      post log' (ExceptT.run (q >>= f)) s)
    (next : ∀ a log', Log.phase log' = Log.phase log → (f a).Passes post log' s) :
    (p >>= f).Passes post log s := by
  have h : ∀ (q : Program (Except LedgerError α)) log', q.Looks →
      Log.phase log' = Log.phase log → (q.bind (ExceptT.bindCont f)).Passes post log' s := by
    intro q log' hq hphase
    induction q generalizing log' with
    | done result =>
      obtain ⟨a, rfl⟩ := hq
      exact next a log' hphase
    | ask r after ih =>
      refine ⟨here (Program.ask r after) log' hq hphase, ?_⟩
      obtain ⟨a, ha⟩ := s.answer_eq_of_isRead hq.1
      rw [ha]
      refine ih _ _ (hq.2 a) ?_
      rw [Log.phase_append, Phase.after_of_isRead _ hq.1, hphase]
  exact h _ log hp rfl

end Program.Looks

namespace Versioning

variable {s : Store} {copy : Calculation}

theorem isUnused_looks (u : String) (found : List Referrer) :
    Program.Looks (ExceptT.run (isUnused u found)) := by
  have hreports : Program.Looks (ExceptT.run (reportReferrers u)) := by
    refine Program.Looks.bind (.ask (r := .history u) rfl) fun rows => ?_
    change Program.Looks (ExceptT.run (if rows.isEmpty then _ else _))
    split
    · exact ⟨_, rfl⟩
    · exact Program.Looks.bind (.ask (r := .reportsListing _) rfl) fun _ => ⟨_, rfl⟩
  unfold isUnused
  split
  · exact hreports.bind fun _ => ⟨_, rfl⟩
  · exact ⟨_, rfl⟩

theorem givesWay_bumpFrom (hs : s.Chained) (h : s.StillLatest copy) (d d' : Draft) :
    GivesWay copy (ExceptT.run (bumpFrom copy d')) (s.succeeded copy d) := by
  obtain ⟨c, hrow, hlatest⟩ := h.row?_succeeded hs d
  refine ⟨_, (runOn_bumpFrom (h.chained_succeeded hs d) (h.agrees_succeeded hs d) d').trans ?_,
    .inl rfl⟩
  rw [if_neg (by simp [hrow, hlatest])]

theorem givesWay_editInPlace (hs : s.Chained) (h : s.StillLatest copy) (d d' : Draft) :
    GivesWay copy (ExceptT.run (editInPlace copy d')) (s.succeeded copy d) := by
  refine ⟨_, ?_, .inl rfl⟩
  change (editInPlace copy d').runOn _ = _
  rw [editInPlace, runOn_bind_of_ok (runOn_attempt _ _), h.answer_update_succeeded hs]
  rfl

theorem givesWay_edit (hs : s.Chained) (h : s.StillLatest copy) (d d' : Draft) (unused : Bool) :
    GivesWay copy (ExceptT.run (if unused then editInPlace copy d' else editAsVersion copy d'))
      (s.succeeded copy d) := by
  cases unused with
  | true => exact givesWay_editInPlace hs h d d'
  | false => exact (givesWay_bumpFrom hs h d d').bind _

theorem runOn_restoreLatest (hs : s.Chained) (h : s.StillLatest copy) (latest : Bool) (d : Draft) :
    (restoreLatest copy).runOn ((s.modifyRow copy.id fun c => { c with latest := false }).withRow
        ⟨copy.uniqueId, copy.version + 1, latest, d⟩) =
      (.ok (), (if latest then s.modifyRow copy.id fun c => { c with latest := false }
        else s).withRow ⟨copy.uniqueId, copy.version + 1, latest, d⟩) := by
  rw [restoreLatest, runOn_bind_of_ok (runOn_attempt _ _), Store.answer, Store.latest?_withRow,
    h.latest?_frozen hs, Option.none_or]
  cases latest with
  | true =>
    rw [if_pos (by simp)]
    rfl
  | false =>
    obtain ⟨c, hrow⟩ := h.row?_frozen hs
    have hid : copy.id ≤ s.lastId := (h.agrees hs).1
    rw [if_neg (by simp)]
    dsimp only
    rw [runOn_bind_of_ok (runOn_attempt _ _),
      Store.answer_setLatest_of_some (Store.row?_withRow _ hrow),
      Store.modifyRow_withRow (s := s.modifyRow copy.id _) _ _ hid, h.restored hs]
    rfl

theorem runOn_insertNext_taken (hs : s.Chained) (h : s.StillLatest copy) (latest : Bool)
    (d d' : Draft) :
    (insertNext copy d').runOn ((s.modifyRow copy.id fun c => { c with latest := false }).withRow
        ⟨copy.uniqueId, copy.version + 1, latest, d⟩) =
      (.error (.conflict copy.uniqueId (copy.version + 1)),
        (if latest then s.modifyRow copy.id fun c => { c with latest := false }
          else s).withRow ⟨copy.uniqueId, copy.version + 1, latest, d⟩) := by
  have htaken : (((s.modifyRow copy.id fun c => { c with latest := false }).withRow
      ⟨copy.uniqueId, copy.version + 1, latest, d⟩).versions.lookup
        (copy.uniqueId, copy.version + 1)).isSome = true := by
    rw [List.lookup_isSome_iff]
    exact ⟨_, List.mem_append_right _ List.mem_cons_self, by simp⟩
  rw [insertNext, runOn_bind_of_ok (runOn_attempt _ _),
    Store.answer_insertRow_of_taken ⟨copy.uniqueId, copy.version + 1, true, d'⟩ htaken]
  change (restoreLatest copy >>= fun _ => throw _).runOn _ = _
  rw [runOn_bind_of_ok (runOn_restoreLatest hs h latest d)]
  rfl

end Versioning

/-- Where a change stands that started on `s` from the row of `copy`. Before it has written to that
row it gives way to a successor of the row, once it knows the row. After it has frozen the row, its
insertion gives way to another row in its place. -/
structure Overtaken {α : Type} (known : Log → Prop) (s : Store) (copy : Calculation) (log : Log)
    (rest : Program (Except LedgerError α)) (t : Store) : Prop where
  early : Log.touched log = false → known log →
    t = s ∧ ∀ d, GivesWay copy rest (s.succeeded copy d)
  late : Log.phase log = .frozen copy.id →
    t = (s.modifyRow copy.id fun c => { c with latest := false }) ∧
      ∀ latest d, rest.run (t.withRow ⟨copy.uniqueId, copy.version + 1, latest, d⟩) =
        (.error (.conflict copy.uniqueId (copy.version + 1)),
          (if latest then t else s).withRow ⟨copy.uniqueId, copy.version + 1, latest, d⟩)

namespace Overtaken

variable {α : Type} {known : Log → Prop} {s t : Store} {copy : Calculation} {log : Log}
  {rest : Program (Except LedgerError α)}

theorem of_idle (hp : Log.phase log = .idle)
    (h : ∀ d, GivesWay copy rest (s.succeeded copy d)) : Overtaken known s copy log rest s :=
  ⟨fun _ _ => ⟨rfl, h⟩, fun hfrozen => by simp [hp] at hfrozen⟩

theorem of_unknown (hp : Log.phase log = .idle) (h : ¬ known log) :
    Overtaken known s copy log rest t :=
  ⟨fun _ hknown => absurd hknown h, fun hfrozen => by simp [hp] at hfrozen⟩

theorem of_touched (hp : ∀ id, Log.phase log ≠ .frozen id) (h : Log.touched log = true) :
    Overtaken known s copy log rest t :=
  ⟨fun hfalse => by simp [h] at hfalse, fun hfrozen => absurd hfrozen (hp _)⟩

/-- There is no way back from a row that is stored. -/
theorem passes_of_stored {id : RowId} (p : Program (Except LedgerError α))
    (hp : Log.phase log = .stored id) (h : Log.touched log = true) :
    p.Passes (Overtaken known s copy) log t := by
  induction p generalizing log t id with
  | done a => exact .of_touched (by simp [hp]) h
  | ask r next ih =>
    obtain ⟨new, hnew⟩ := Phase.after_stored id (.answered r (t.answer r).1)
    refine ⟨.of_touched (by simp [hp]) h, ih _ (?_ : Log.phase _ = .stored new) ?_⟩
    · rw [Log.phase_append, hp, hnew]
    · rw [Log.touched_append, h, Bool.true_or]

end Overtaken

namespace Versioning

variable {α β : Type} {known : Log → Prop} {s : Store} {copy : Calculation} {log : Log}

theorem bumpFrom_passes (hs : s.Chained) (h : s.StillLatest copy) (hp : Log.phase log = .idle)
    (d : Draft) (k : RowId → Procedure α) :
    (bumpFrom copy d >>= k).Passes (Overtaken known s copy) log s := by
  have hlatest := ((h.agrees hs).stillLatest_iff hs).2 h
  unfold bumpFrom
  refine passes_ask_bind rfl (.of_idle hp fun d' => (givesWay_bumpFrom hs h d' d).bind k) ?_
  simp only [hlatest, Bool.not_true, Bool.false_eq_true, ↓reduceIte]
  have hp₁ : Log.phase (log ++ [.answered (.row copy.id) (.ok (s.row? copy.id))]) = .idle := by
    rw [Log.phase_append, Phase.after_of_isRead _ rfl, hp]
  -- the other writer's row is found under the next version
  refine passes_ask_bind (h.answer_version hs) (.of_idle hp₁ fun d' => .bind ?_ k) ?_
  · refine ⟨_, ?_, .inr rfl⟩
    change Procedure.runOn _ _ = _
    rw [runOn_bind_of_ok (runOn_ask_of_ok rfl), h.version?_succeeded hs]
    rfl
  simp only [Option.isSome_none, Bool.false_eq_true, ↓reduceIte]
  have hp₂ : Log.phase (log ++ [.answered (.row copy.id) (.ok (s.row? copy.id))] ++
      [.answered (.version copy.uniqueId (copy.version + 1)) (.ok none)]) = .idle := by
    rw [Log.phase_append, Phase.after_of_isRead _ rfl, hp₁]
  -- the other writer's freeze came first
  refine passes_ask_bind (h.answer_freeze hs) (.of_idle hp₂ fun d' => .bind ?_ k) ?_
  · refine ⟨_, ?_, .inr rfl⟩
    change Procedure.runOn _ _ = _
    rw [runOn_bind_of_ok (runOn_ask_of_ok (h.answer_freeze_succeeded hs d'))]
    rfl
  simp only [Bool.not_true, Bool.false_eq_true, ↓reduceIte]
  rw [insertNext, LawfulMonad.bind_assoc]
  have htouched : Log.touched (log ++ [.answered (.row copy.id) (.ok (s.row? copy.id))] ++
      [.answered (.version copy.uniqueId (copy.version + 1)) (.ok none)] ++
      [.answered (.setLatest copy.id false) (.ok true)]) = true := by
    rw [Log.touched_append]
    exact Bool.or_true _
  refine passes_attempt (h.answer_insertNext hs d)
    ⟨fun hfalse => ?_, fun _ => ⟨rfl, fun latest d' => ?_⟩⟩ ?_
  · rw [htouched] at hfalse
    contradiction
  · change Procedure.runOn _ _ = _
    rw [← LawfulMonad.bind_assoc, runOn_bind]
    have hrun := runOn_insertNext_taken hs h latest d' d
    rw [insertNext] at hrun
    rw [hrun]
  · refine Overtaken.passes_of_stored _ (?_ : Log.phase _ = .stored (s.lastId + 1)) ?_
    · rw [Log.phase_append]
      rfl
    · rw [Log.touched_append, htouched, Bool.true_or]

theorem latestForEdit_passes {u : String} {r : Calculation} (hr : s.latest? u = some r)
    {f : Calculation → Procedure α}
    (next : ∀ log, Log.phase log = .idle → (f r).Passes (Overtaken
      (fun log => .answered (.latest u) (.ok (some r)) ∈ log) s r) log s) :
    (latestForEdit u >>= f).Passes (Overtaken
      (fun log => .answered (.latest u) (.ok (some r)) ∈ log) s r) [] s := by
  have hanswer : s.answer (.latest u) = (.ok (some r), s) := by rw [Store.answer, hr]
  unfold latestForEdit
  exact passes_ask_bind hanswer (.of_unknown rfl List.not_mem_nil) (next _ rfl)

theorem editInPlace_passes (hs : s.Chained) (h : s.StillLatest copy)
    (hp : Log.phase log = .idle) (d : Draft) (wrap : EditOutcome → α) :
    (editInPlace copy d >>= fun o => pure (wrap o)).Passes (Overtaken known s copy) log s := by
  obtain ⟨c, hrow, hlatest⟩ := h.row? hs
  have hanswer := Store.answer_updateLatest_of_some hrow d
  rw [if_pos hlatest] at hanswer
  unfold editInPlace
  refine passes_attempt_bind hanswer
    (.of_idle hp fun d' => (givesWay_editInPlace hs h d' d).bind _) ?_
  refine Overtaken.of_touched (fun id => ?_) ?_
  · rw [Log.phase_append, hp]
    exact nofun
  · rw [Log.touched_append]
    exact Bool.or_true _

theorem bump_passes (hs : s.Chained) {u : String} {r : Calculation} (hr : s.latest? u = some r)
    (d : Draft) : ((Change.bump u d).procedure).Passes (Overtaken
      (fun log => .answered (.latest u) (.ok (some r)) ∈ log) s r) [] s := by
  have hstill := Store.stillLatest_of_mem (Store.latest?_mem_latestRows hr).1
  change (bumpVersion u d >>= fun id => pure (Outcome.stored id)).Passes _ _ _
  unfold bumpVersion validate
  cases d.check u with
  | error fault => exact Overtaken.of_unknown rfl List.not_mem_nil
  | ok _ =>
    change ((latestForEdit u >>= _) >>= _).Passes _ _ _
    rw [LawfulMonad.bind_assoc]
    exact latestForEdit_passes hr fun log hp => bumpFrom_passes hs hstill hp d _

theorem edit_passes (hs : s.Chained) {u : String} {r : Calculation} (hr : s.latest? u = some r)
    {d : Draft} (hguard : r.unit = d.unit ∨ s.referring .calculation u = []) :
    ((Change.edit u d).procedure).Passes (Overtaken
      (fun log => .answered (.latest u) (.ok (some r)) ∈ log) s r) [] s := by
  obtain ⟨hlatest, rfl⟩ := Store.latest?_mem_latestRows hr
  have hstill := Store.stillLatest_of_mem hlatest
  have hpasses : ∀ t : Store, (s.referring .calculation r.uniqueId = [] →
      t.referring .calculation r.uniqueId = []) →
      ((r.identity.difference? ⟨r.uniqueId, d.unit⟩).isSome &&
        !((t.referring .calculation r.uniqueId).map Referrer.calculation).isEmpty) = false := by
    intro t ht
    rcases hguard with hunit | hnone
    · have hsame : (r.identity.difference? ⟨r.uniqueId, d.unit⟩).isNone = true :=
        Identity.difference?_isNone.2 (by rw [Calculation.identity, hunit])
      rw [← Option.not_isNone, hsame]
      rfl
    · rw [ht hnone]
      exact Bool.and_false _
  change (editCalculation r.uniqueId d >>= fun o => pure (Outcome.edited o)).Passes _ _ _
  unfold editCalculation validate
  cases d.check r.uniqueId with
  | error fault => exact Overtaken.of_unknown rfl List.not_mem_nil
  | ok _ =>
    change ((latestForEdit r.uniqueId >>= _) >>= _).Passes _ _ _
    rw [LawfulMonad.bind_assoc]
    refine latestForEdit_passes hr fun log hp => ?_
    rw [LawfulMonad.bind_assoc]
    unfold expressionReferrers
    refine passes_ask_bind rfl (.of_idle hp fun d' => ?_) ?_
    · have hm := hpasses (s.succeeded r d') fun h => Store.referring_succeeded_eq_nil h
      refine GivesWay.after (runOn_expressionReferrers .calculation r.uniqueId _) ?_
      simp only [hm, Bool.false_eq_true, ↓reduceIte]
      exact ((isUnused_looks _ _).givesWay fun unused =>
        givesWay_edit hs hstill d' d unused).bind _
    · have hm := hpasses s id
      rw [Store.referring] at hm
      rw [pure_bind]
      simp only [hm, Bool.false_eq_true, ↓reduceIte]
      rw [LawfulMonad.bind_assoc]
      have hp₁ : Log.phase (log ++ [.answered .latestRows (.ok s.latestRows)]) = .idle := by
        rw [Log.phase_append, Phase.after_of_isRead _ rfl, hp]
      refine (isUnused_looks _ _).passes_bind (fun q log' hq hp' => ?_) fun unused log' hp' => ?_
      · exact .of_idle (hp'.trans hp₁) fun d' => hq.givesWay fun unused =>
          (givesWay_edit hs hstill d' d unused).bind _
      · cases unused with
        | true => exact editInPlace_passes hs hstill (hp'.trans hp₁) d _
        | false =>
          change ((bumpFrom r d >>= _) >>= _).Passes _ _ _
          rw [LawfulMonad.bind_assoc]
          exact bumpFrom_passes hs hstill (hp'.trans hp₁) d _

end Versioning

namespace Change

def Knows (x : Change) (r : Calculation) (log : Log) : Prop :=
  match x with
  | .bumpFrom _ _ => True
  | _ => .answered (.latest x.uniqueId) (.ok (some r)) ∈ log

/-- The change is a bump, from the row if from a given one, or an edit that keeps the unit while
another calculation refers to the edited one. -/
def MayFollow (x : Change) (s : Store) (r : Calculation) : Prop :=
  match x with
  | .create _ _ => False
  | .bump _ _ => True
  | .bumpFrom copy _ => copy.id = r.id
  | .edit u d => r.unit = d.unit ∨ s.referring .calculation u = []

theorem passes_overtaken {x : Change} {s : Store} {r : Calculation} (hs : s.Chained)
    {held : List Calculation} (hheld : ∀ c ∈ held, s.Agrees c) (hx : x.StartsFrom held)
    (hr : s.latest? x.uniqueId = some r) (hmay : x.MayFollow s r) :
    ∃ copy, s.StillLatest copy ∧ copy.id = r.id ∧ copy.uniqueId = r.uniqueId ∧
      copy.version = r.version ∧ x.procedure.Passes (Overtaken (x.Knows r) s copy) [] s := by
  obtain ⟨hlatest, hu⟩ := Store.latest?_mem_latestRows hr
  have hstill := Store.stillLatest_of_mem hlatest
  cases x with
  | create u d => exact hmay.elim
  | bump u d => exact ⟨r, hstill, rfl, rfl, rfl, Versioning.bump_passes hs hr d⟩
  | bumpFrom copy d =>
    obtain ⟨hu', hv⟩ := (hheld copy hx).2 r (Store.mem_latestRows.1 hlatest).1 hmay.symm
    have hcopy : s.StillLatest copy := ⟨r, hlatest, hmay.symm, hu', hv⟩
    exact ⟨copy, hcopy, hmay, hu'.symm, hv.symm, Versioning.bumpFrom_passes hs hcopy rfl d _⟩
  | edit u d => exact ⟨r, hstill, rfl, rfl, rfl, Versioning.edit_passes hs hr hmay⟩

end Change

/-- A version that takes the place of a bump's: it is the latest, or the row before it is again. -/
theorem Store.StillLatest.filter_latest {s : Store} {r : Calculation} (hs : s.Chained)
    (hr : r ∈ s.latestRows) (latest : Bool) (d : Draft) :
    (((if latest then s.modifyRow r.id fun c => { c with latest := false } else s).withRow
      ⟨r.uniqueId, r.version + 1, latest, d⟩).revisions r.uniqueId).filter (·.latest) =
        [if latest then ⟨s.lastId + 1, r.uniqueId, r.version + 1, true, d⟩ else r] := by
  cases latest with
  | true =>
    have hfrozen := ((stillLatest_of_mem hr).frozen hs).2
    rw [if_pos rfl, if_pos rfl, revisions_withRow, List.filter_append,
      List.filter_eq_nil_iff.2 fun c hc => by simp [hfrozen c hc], if_pos rfl]
    rfl
  | false =>
    rw [if_neg Bool.false_ne_true, if_neg Bool.false_ne_true, revisions_withRow,
      List.filter_append, hs.oneLatest.filter_eq hr, if_pos rfl]
    rfl

/-- Whatever came before, a change of the calculation whose latest row is `r` gives way to another
writer. When the next version is stored by a bump while the change knows `r` and has not written to
it, the change ends with an error after which it may be tried again, and what the bump left stays.
When the next version is inserted between the freeze of `r` and the change's own insertion, the
change ends with a conflict and stores nothing: the inserted row is the latest, or `r` is again. -/
theorem Run.overtaken {es : List Episode} {held : List Calculation} {s t : Store}
    (h : Run es held s) {x : Change} (hx : x.StartsFrom held) {r : Calculation}
    (hr : s.latest? x.uniqueId = some r) (hmay : x.MayFollow s r) {log : Log}
    {rest : Program (Except LedgerError Outcome)}
    (hreach : (Operation.change x).Reaches s log rest t) (hlog : log.faultless = true) :
    (log.touched = false → x.Knows r log → ∀ d id m,
      (Versioning.bumpVersion x.uniqueId d).runOn t = (.ok id, m) →
        ∃ e, rest.run m = (.error e, m) ∧ e.isRetryable = true ∧
          (e = .stale x.uniqueId r.id ∨ e = .conflict x.uniqueId (r.version + 1))) ∧
    (log.phase = .frozen r.id → ∀ latest d id m,
      t.insertRow ⟨x.uniqueId, r.version + 1, latest, d⟩ = .ok (id, m) →
        ∃ after, rest.run m = (.error (.conflict x.uniqueId (r.version + 1)), after) ∧
          after = (if latest then s.modifyRow r.id fun c => { c with latest := false }
            else s).withRow ⟨x.uniqueId, r.version + 1, latest, d⟩ ∧
          (after.revisions x.uniqueId).filter (·.latest) =
            [if latest then ⟨id, x.uniqueId, r.version + 1, true, d⟩ else r]) := by
  have hs := h.sound.chained
  obtain ⟨hlatest, hu⟩ := Store.latest?_mem_latestRows hr
  obtain ⟨copy, hstill, hid, hcu, hv, hpasses⟩ :=
    Change.passes_overtaken hs h.sound.held hx hr hmay
  have hpoint := Program.Passes.of_reaches hreach hpasses hlog
  rw [List.nil_append] at hpoint
  rw [← hu] at hr ⊢
  constructor
  · intro htouched hknows d id m hbump
    obtain ⟨rfl, hgives⟩ := hpoint.early htouched hknows
    obtain ⟨e, hrun, he⟩ := hgives d
    have hm : t.succeeded copy d = m := by
      rw [Versioning.runOn_bumpVersion hs, hr] at hbump
      rw [Store.succeeded_congr hid hcu hv]
      cases hcheck : d.check r.uniqueId with
      | ok _ =>
        rw [hcheck] at hbump
        exact congrArg Prod.snd hbump
      | error fault =>
        rw [hcheck] at hbump
        cases hbump
    rw [hm] at hrun
    rw [hid, hcu, hv] at he
    exact ⟨e, hrun, GivesWay.isRetryable he, he⟩
  · intro hfrozen latest d id m hinsert
    rw [← hid] at hfrozen
    obtain ⟨rfl, hconflict⟩ := hpoint.late hfrozen
    have hrun := hconflict latest d
    rw [hid, hcu, hv] at hrun
    rw [Store.insertRow_eq] at hinsert
    split at hinsert
    · contradiction
    · cases hinsert
      rw [hid]
      exact ⟨_, hrun, rfl, Store.StillLatest.filter_latest hs hlatest latest d⟩

namespace Run

/-- An edit that has read the latest row gives way to a bump. A bump that has frozen it gives way to
a row that is not the latest, and puts the frozen one back. -/
theorem overtaken_firstStore :
    (∃ log rest e, (Operation.change (.edit "a" plainDraft)).Reaches (firstStore true) log rest
        (firstStore true) ∧ e.isRetryable = true ∧
      rest.run ((firstStore true).succeeded (firstRow true) plainDraft) =
        (.error e, (firstStore true).succeeded (firstRow true) plainDraft)) ∧
    ∃ log rest, (Operation.change (.bumpFrom (firstRow true) plainDraft)).Reaches (firstStore true)
        log rest (firstStore false) ∧
      rest.run ((firstStore false).withRow ⟨"a", 2, false, plainDraft⟩) =
        (.error (.conflict "a" 2), (firstStore true).withRow ⟨"a", 2, false, plainDraft⟩) := by
  have hcreated := Run.perform Run.start
    (show Operation.StartsFrom [] (.change (.create "a" plainDraft)) from trivial) create_reaches
  have hread := Run.read (firstRow true) hcreated List.mem_cons_self
  constructor
  · have hreach : (Operation.change (.edit "a" plainDraft)).Reaches (firstStore true)
        [.answered (.latest "a") (.ok (some (firstRow true)))] _ (firstStore true) :=
      .answered rfl (.refl _ _)
    have hstarts : (Change.edit "a" plainDraft).StartsFrom [] := trivial
    have hmay : (Change.edit "a" plainDraft).MayFollow (firstStore true) (firstRow true) := .inl rfl
    obtain ⟨e, hrun, hretry, _⟩ := (hcreated.overtaken hstarts rfl hmay hreach rfl).1 rfl
      List.mem_cons_self plainDraft 2 ((firstStore true).succeeded (firstRow true) plainDraft) rfl
    exact ⟨_, _, e, hreach, hretry, hrun⟩
  · have hreach : (Operation.change (.bumpFrom (firstRow true) plainDraft)).Reaches
        (firstStore true) [.answered (.row 1) (.ok (some (firstRow true))),
          .answered (.version "a" 2) (.ok none), .answered (.setLatest 1 false) (.ok true)] _
        (firstStore false) :=
      .answered rfl (.answered rfl (.answered rfl (.refl _ _)))
    have hstarts : (Change.bumpFrom (firstRow true) plainDraft).StartsFrom [firstRow true] :=
      List.mem_cons_self
    obtain ⟨after, hrun, hafter, _⟩ := (hread.overtaken hstarts rfl rfl hreach rfl).2 rfl
      false plainDraft 2 _ rfl
    rw [hafter] at hrun
    exact ⟨_, _, hreach, hrun⟩

end Run

end FormulaLedger
