import FormulaLedger.Proofs.Versioning.Run
import Mathlib.Logic.Function.Basic

set_option autoImplicit false

namespace FormulaLedger

/-- Every calculation that has rows has a latest one. -/
def Store.Whole (s : Store) : Prop := s.Chained ∧ ∀ u, ¬ s.Frozen u

theorem Run.whole {es : List Episode} {held : List Calculation} {s : Store} (h : Run es held s)
    (hf : ∀ e ∈ es, Log.faultless e.log = true) : s.Whole := by
  refine ⟨h.sound.chained, fun u hu => ?_⟩
  obtain ⟨e, he, _, ha⟩ := h.sound.lost u hu
  exact absurd (hf e he) (by simp [ha.faultless])

/-- A call of a client: the change, the requests so far, and what is left of the call. -/
structure Call (ι : Type) where
  client : ι
  change : Change
  log : Log
  rest : Program (Except LedgerError Outcome)

namespace Call

variable {ι : Type}

def start (client : ι) (x : Change) : Call ι := ⟨client, x, [], ExceptT.run x.procedure⟩

def result? (call : Call ι) : Option (Except LedgerError Outcome) :=
  match call.rest with
  | .done result => some result
  | .ask _ _ => none

def newRow? (call : Call ι) : Option RowId :=
  call.result?.bind fun result => result.toOption.bind Outcome.newRow?

/-- The call is between its freeze of a row of a calculation and its insertion. -/
def holds (u : String) (call : Call ι) : Bool :=
  call.change.uniqueId == u && (Log.phase call.log).isFrozen

end Call

/-- A store with the clients that work on it: the rows that each has read, and the calls of all in
the order in which they began. -/
structure World (ι : Type) where
  store : Store
  held : ι → List Calculation
  calls : List (Call ι)

namespace World

variable {ι : Type} [DecidableEq ι]

/-- A client reads a row, begins a call when its calls so far have ended, or asks the next request
of its call. -/
inductive Step : World ι → World ι → Prop
  | read (w : World ι) (i : ι) (c : Calculation) : c ∈ w.store.rows →
      Step w { w with held := Function.update w.held i (c :: w.held i) }
  | begin (w : World ι) (i : ι) (x : Change) :
      (∀ call ∈ w.calls, call.client = i → call.result?.isSome = true) →
      x.StartsFrom (w.held i) → Step w { w with calls := w.calls ++ [.start i x] }
  | ask (s : Store) (held : ι → List Calculation) (before after : List (Call ι)) (i : ι)
      (x : Change) (log : Log) (r : Request)
      (next : r.Result → Program (Except LedgerError Outcome)) :
      Step ⟨s, held, before ++ ⟨i, x, log, .ask r next⟩ :: after⟩
        ⟨(s.answer r).2, held, before ++
          ⟨i, x, log ++ [.answered r (s.answer r).1], next (s.answer r).1⟩ :: after⟩

inductive Reachable : World ι → Prop
  | start (s : Store) : s.Whole → Reachable ⟨s, fun _ => [], []⟩
  | step {w w' : World ι} : Reachable w → Step w w' → Reachable w'

end World

namespace Change

def Filed (x : Change) (p : Phase) (inserted : List (NewRow × RowId)) (s : Store) : Prop :=
  match p with
  | .stored id => ∃ version, inserted = [(⟨x.uniqueId, version, true, x.draft⟩, id)] ∧
      ∃ c ∈ s.rows, c.id = id ∧ c.uniqueId = x.uniqueId ∧ c.version = version
  | _ => inserted = []

variable {x : Change} {p q : Phase} {s t : Store} {i : Option (NewRow × RowId)}
  {inserted : List (NewRow × RowId)}

theorem Filed.keepsRows (h : x.Filed p inserted s) (ht : s.KeepsRows t) :
    x.Filed p inserted t := by
  cases p with
  | stored id =>
    obtain ⟨version, hi, c, hc, hci, hcu, hcv⟩ := h
    obtain ⟨d, hd, hdi, hdu, hdv⟩ := ht c hc
    exact ⟨version, hi, d, hd, hdi.trans hci, hdu.trans hcu, hdv.trans hcv⟩
  | idle => exact h
  | frozen id => exact h

theorem Filed.id_le (h : x.Filed p inserted s) (hs : s.Chained) {id : RowId}
    (hp : p.stored? = some id) : id ≤ s.lastId := by
  cases p with
  | stored id' =>
    obtain ⟨_, _, c, hc, hci, _⟩ := h
    obtain rfl := Option.some.inj hp
    rw [← hci]
    exact hs.issued c hc
  | idle => contradiction
  | frozen id' => contradiction

theorem Filed.move (h : x.Filed p inserted s) (hm : x.Move s p q i t) :
    x.Filed q (inserted ++ i.toList) t := by
  have hk := hm.keepsRows
  cases hm with
  | keep ht =>
    rw [Option.toList_none, List.append_nil]
    exact h.keepsRows hk
  | edit hc hl =>
    rw [Option.toList_none, List.append_nil]
    exact h
  | freeze hc hl =>
    rw [Option.toList_none, List.append_nil]
    exact h
  | store hq =>
    have hn : inserted = [] := by
      rcases hq with ⟨rfl, _⟩ | hf
      · exact h
      · cases p with
        | frozen id => exact h
        | idle => simp [Phase.isFrozen] at hf
        | stored id => simp [Phase.isFrozen] at hf
    rw [hn]
    exact ⟨_, rfl, _, List.mem_append_right _ List.mem_cons_self, rfl, rfl, rfl⟩
  | restore hc hv =>
    rw [Option.toList_none, List.append_nil]
    exact h

end Change

namespace Call

variable {ι : Type} {call : Call ι} {s t : Store}

/-- The row that the call has stored, known from its requests. -/
def stored? (call : Call ι) : Option RowId := (Log.phase call.log).stored?

structure Sound (call : Call ι) (s : Store) : Prop where
  obeys : call.rest.Obeys call.change.discipline (fun result log _ => call.change.Ends result log)
    call.log s
  faultless : Log.faultless call.log = true
  filed : call.change.Filed (Log.phase call.log) (Log.inserted call.log) s

theorem Sound.start {i : ι} {x : Change} {held : List Calculation} (hx : x.StartsFrom held)
    (hc : ∀ c ∈ held, s.Agrees c) : (Call.start i x).Sound s :=
  ⟨Change.obeys hx hc, rfl, rfl⟩

theorem Sound.later (h : call.Sound s)
    (ht : Later call.change.uniqueId (Log.phase call.log) s t) (hk : s.KeepsRows t) :
    call.Sound t :=
  ⟨h.obeys.later (fun _ hr => ht.trans hr) fun _ h => h, h.faultless, h.filed.keepsRows hk⟩

theorem Sound.stored?_le (h : call.Sound s) (hs : s.Chained) {id : RowId}
    (hi : call.stored? = some id) : id ≤ s.lastId :=
  h.filed.id_le hs hi

theorem Sound.ends {result : Except LedgerError Outcome} (h : call.Sound s)
    (hr : call.result? = some result) : call.change.Ends result call.log := by
  obtain ⟨client, x, log, rest⟩ := call
  cases rest with
  | done a =>
    obtain rfl := Option.some.inj hr
    exact h.obeys
  | ask r next => contradiction

theorem Sound.stored?_eq {result : Except LedgerError Outcome} (h : call.Sound s)
    (hr : call.result? = some result) :
    call.stored? = result.toOption.bind Outcome.newRow? :=
  (h.ends hr).2 h.faultless

theorem Sound.stored?_of_newRow? {id : RowId} (h : call.Sound s) (hi : call.newRow? = some id) :
    call.stored? = some id := by
  obtain ⟨result, hr, hid⟩ := Option.bind_eq_some_iff.1 hi
  rw [h.stored?_eq hr, hid]

theorem Sound.not_holds (h : call.Sound s) (hr : call.result?.isSome = true) (u : String) :
    call.holds u = false := by
  obtain ⟨result, hr⟩ := Option.isSome_iff_exists.1 hr
  cases hf : (Log.phase call.log).isFrozen with
  | false => simp [holds, hf]
  | true =>
    have ha := ((h.ends hr).1 hf).2
    exact absurd h.faultless (by simp [ha.faultless])

end Call

namespace World

variable {ι : Type} {w w' : World ι}

/-- The invariant. Whether a calculation is frozen is known from the calls. -/
structure Sound (w : World ι) : Prop where
  chained : w.store.Chained
  held : ∀ i, ∀ c ∈ w.held i, w.store.Agrees c
  calls : ∀ call ∈ w.calls, call.Sound w.store
  holders : ∀ u, w.calls.countP (·.holds u) = 1 ∧ w.store.Frozen u ∨
    w.calls.countP (·.holds u) = 0 ∧ ¬ w.store.Frozen u
  distinct : (w.calls.filterMap Call.stored?).Nodup

variable {s : Store} {held : ι → List Calculation} {before after : List (Call ι)} {i : ι}
  {x : Change} {log : Log} {r : Request} {next : r.Result → Program (Except LedgerError Outcome)}

theorem Sound.frozen_of_holds (h : Sound w) {call : Call ι} (hc : call ∈ w.calls) {u : String}
    (hh : call.holds u = true) : w.store.Frozen u := by
  have hpos : 0 < w.calls.countP (·.holds u) := List.countP_pos_iff.2 ⟨call, hc, hh⟩
  rcases h.holders u with ⟨_, hf⟩ | ⟨h0, _⟩
  · exact hf
  · omega

theorem Sound.not_holds_of_ne {call other : Call ι} (h : Sound ⟨s, held, before ++ call :: after⟩)
    (ho : other ∈ before ∨ other ∈ after) {u : String} (hh : other.holds u = true) :
    call.holds u = false := by
  have hle : (before ++ call :: after).countP (·.holds u) ≤ 1 := by
    rcases h.holders u with ⟨h1, _⟩ | ⟨h0, _⟩
    · exact Nat.le_of_eq h1
    · exact Nat.le_trans (Nat.le_of_eq h0) (Nat.zero_le 1)
  rw [List.countP_append, List.countP_cons] at hle
  have hpos : 0 < before.countP (·.holds u) + after.countP (·.holds u) := by
    rcases ho with ho | ho
    · exact Nat.add_pos_left (List.countP_pos_iff.2 ⟨other, ho, hh⟩) _
    · exact Nat.add_pos_right _ (List.countP_pos_iff.2 ⟨other, ho, hh⟩)
  cases hc : call.holds u with
  | false => rfl
  | true =>
    simp only [hc, ↓reduceIte] at hle
    omega

theorem Sound.later_of_ne {call other : Call ι} {q : Phase} {t : Store}
    {inserted : Option (NewRow × RowId)} (h : Sound ⟨s, held, before ++ call :: after⟩)
    (ho : other ∈ before ∨ other ∈ after)
    (hm : call.change.Move s (Log.phase call.log) q inserted t) (ht : t.Chained)
    (hr : s.KeepsReports t) : Later other.change.uniqueId (Log.phase other.log) s t := by
  refine ⟨ht, hm.keepsIds, hr, fun hf => ?_⟩
  by_cases hu : other.change.uniqueId = call.change.uniqueId
  · have hh : other.holds call.change.uniqueId = true := by simp [Call.holds, hu, hf]
    have hn : (Log.phase call.log).isFrozen = false := by
      simpa [Call.holds] using h.not_holds_of_ne ho hh
    have hmem : other ∈ before ++ call :: after := by
      rcases ho with ho | ho
      · exact List.mem_append_left _ ho
      · exact List.mem_append_right _ (List.mem_cons_of_mem _ ho)
    rw [hu]
    exact hm.revisions_of_frozen (h.frozen_of_holds hmem hh) hn
  · exact hm.revisions_of_ne h.chained hu

theorem Sound.distinct_of_move {call : Call ι} (next : Call ι) {t : Store}
    {inserted : Option (NewRow × RowId)} (h : Sound ⟨s, held, before ++ call :: after⟩)
    (hm : call.change.Move s (Log.phase call.log) (Log.phase next.log) inserted t) :
    ((before ++ next :: after).filterMap Call.stored?).Nodup := by
  have hd : ((before ++ call :: after).filterMap Call.stored?).Nodup := h.distinct
  rw [List.filterMap_append] at hd ⊢
  rcases hm.stored?_eq with heq | ⟨hp, hq⟩
  · have heq : next.stored? = call.stored? := heq
    rw [List.filterMap_cons] at hd ⊢
    rw [heq]
    exact hd
  · have hp : call.stored? = none := hp
    have hq : next.stored? = some (s.lastId + 1) := hq
    rw [List.filterMap_cons_none hp] at hd
    rw [List.filterMap_cons_some hq, List.nodup_middle]
    refine List.nodup_cons.2 ⟨fun hmem => ?_, hd⟩
    rw [← List.filterMap_append] at hmem
    obtain ⟨other, ho, hi⟩ := List.mem_filterMap.1 hmem
    have ho : other ∈ before ++ call :: after := by
      rcases List.mem_append.1 ho with ho | ho
      · exact List.mem_append_left _ ho
      · exact List.mem_append_right _ (List.mem_cons_of_mem _ ho)
    exact Nat.not_succ_le_self _ ((h.calls other ho).stored?_le h.chained hi)

/-- A calculation is frozen when one call holds its freeze, and each move keeps it so. -/
theorem Sound.holders_of_move {call : Call ι} (next : Call ι) {t : Store}
    {inserted : Option (NewRow × RowId)} (h : Sound ⟨s, held, before ++ call :: after⟩)
    (hx : next.change = call.change)
    (hm : call.change.Move s (Log.phase call.log) (Log.phase next.log) inserted t) (u : String) :
    (before ++ next :: after).countP (·.holds u) = 1 ∧ t.Frozen u ∨
      (before ++ next :: after).countP (·.holds u) = 0 ∧ ¬ t.Frozen u := by
  have hu := h.holders u
  have hp : call.holds call.change.uniqueId = true → s.Frozen call.change.uniqueId :=
    h.frozen_of_holds (List.mem_append_right _ List.mem_cons_self)
  simp only [List.countP_append, List.countP_cons] at hu ⊢
  by_cases hcu : call.change.uniqueId = u
  · have hcall : call.holds u = (Log.phase call.log).isFrozen := by simp [Call.holds, hcu]
    have hnext : next.holds u = (Log.phase next.log).isFrozen := by simp [Call.holds, hx, hcu]
    rw [hcu, hcall] at hp
    rw [hcall] at hu
    rw [hnext]
    have hiff := hm.frozen_iff h.chained (by rw [hcu]; exact hp)
    have hno := hm.not_frozen
    rw [hcu] at hiff hno
    -- the holders among the other calls are as many as before
    generalize before.countP (·.holds u) = b at hu ⊢
    generalize after.countP (·.holds u) = a at hu ⊢
    grind
  · have hcall : call.holds u = false := by simp [Call.holds, hcu]
    have hnext : next.holds u = false := by simp [Call.holds, hx, hcu]
    have hrev := hm.revisions_of_ne h.chained (Ne.symm hcu)
    rw [hcall] at hu
    rw [hnext, Store.Frozen, hrev]
    exact hu

theorem Sound.ask (h : Sound ⟨s, held, before ++ ⟨i, x, log, .ask r next⟩ :: after⟩) :
    Sound ⟨(s.answer r).2, held, before ++
      ⟨i, x, log ++ [.answered r (s.answer r).1], next (s.answer r).1⟩ :: after⟩ := by
  have hc := h.calls _ (List.mem_append_right _ List.mem_cons_self)
  obtain ⟨hr, hn, _⟩ := hc.obeys s (Later.refl h.chained)
  have hm := Change.Allows.move_logged hr h.chained
  have hp : (Log.phase log).isFrozen = true → s.Frozen x.uniqueId := fun hp =>
    h.frozen_of_holds (List.mem_append_right _ List.mem_cons_self) (by simp [Call.holds, hp])
  have hs := hm.chained h.chained hp
  have others : ∀ call, call ∈ before ∨ call ∈ after → call.Sound (s.answer r).2 := by
    intro call ho
    have hmem : call ∈ before ++ ⟨i, x, log, .ask r next⟩ :: after := by
      rcases ho with ho | ho
      · exact List.mem_append_left _ ho
      · exact List.mem_append_right _ (List.mem_cons_of_mem _ ho)
    exact (h.calls call hmem).later (h.later_of_ne ho hm hs (s.answer_keepsReports r)) hm.keepsRows
  refine ⟨hs, fun j c hj => (h.held j c hj).keepsIds hm.keepsIds, fun call hcall => ?_,
    fun u => h.holders_of_move ⟨i, x, _, next _⟩ rfl hm u,
    h.distinct_of_move ⟨i, x, _, next _⟩ hm⟩
  rcases List.mem_append.1 hcall with hb | hcall
  · exact others call (.inl hb)
  · rcases List.mem_cons.1 hcall with rfl | ha
    · refine ⟨hn, ?_, ?_⟩
      · simpa using hc.faultless
      · rw [Log.inserted_append]
        exact hc.filed.move hm
    · exact others call (.inr ha)

theorem Sound.step [DecidableEq ι] (h : Sound w) (hw : Step w w') : Sound w' := by
  cases hw with
  | read _ i c hc =>
    refine ⟨h.chained, fun j d hd => ?_, h.calls, h.holders, h.distinct⟩
    have hd : d ∈ Function.update w.held i (c :: w.held i) j := hd
    by_cases hj : j = i
    · subst hj
      rw [Function.update_self] at hd
      rcases List.mem_cons.1 hd with rfl | hd
      · exact h.chained.agrees hc
      · exact h.held j d hd
    · rw [Function.update_of_ne hj] at hd
      exact h.held j d hd
  | begin _ i x _ hx =>
    have hn : ∀ u, (Call.start i x).holds u = false := fun u => by
      simp [Call.holds, Call.start, Log.phase, Phase.isFrozen]
    refine ⟨h.chained, h.held, fun call hcall => ?_, fun u => ?_, ?_⟩
    · rcases List.mem_append.1 hcall with hcall | hcall
      · exact h.calls call hcall
      · obtain rfl := List.mem_singleton.1 hcall
        exact .start hx (h.held i)
    · rw [List.countP_append, List.countP_singleton, hn u]
      exact h.holders u
    · have hnone : (Call.start i x).stored? = none := rfl
      rw [List.filterMap_append, List.filterMap_cons_none hnone, List.filterMap_nil,
        List.append_nil]
      exact h.distinct
  | ask s held before after i x log r next => exact h.ask

theorem Reachable.sound [DecidableEq ι] (h : Reachable w) : Sound w := by
  induction h with
  | start s hs =>
    exact ⟨hs.1, fun i c hc => by simp at hc, fun call hc => by simp at hc,
      fun u => .inr ⟨rfl, hs.2 u⟩, List.nodup_nil⟩
  | step _ hw ih => exact ih.step hw

/-- A call that has ended and says that it stored a row has inserted just that row, with its own
draft, and the row is there. One that says anything else has inserted nothing. -/
theorem Sound.row_of_result (h : Sound w) {call : Call ι} (hc : call ∈ w.calls)
    {result : Except LedgerError Outcome} (hr : call.result? = some result) :
    match result.toOption.bind Outcome.newRow? with
    | some id => ∃ version, Log.inserted call.log =
          [(⟨call.change.uniqueId, version, true, call.change.draft⟩, id)] ∧
        ∃ c, w.store.rows.filter (·.id == id) = [c] ∧ c.uniqueId = call.change.uniqueId ∧
          c.version = version
    | none => Log.inserted call.log = [] := by
  have hs := h.calls call hc
  have heq := hs.stored?_eq hr
  have hfiled := hs.filed
  rw [← heq, Call.stored?]
  cases hp : Log.phase call.log with
  | stored id =>
    rw [hp] at hfiled
    obtain ⟨version, hi, c, hc, rfl, hcu, hcv⟩ := hfiled
    exact ⟨version, hi, c, h.chained.filter_id hc, hcu, hcv⟩
  | idle =>
    rw [hp] at hfiled
    exact hfiled
  | frozen id =>
    rw [hp] at hfiled
    exact hfiled

/-- However the steps of the calls interleave, the rows of a calculation are numbered from 1, at
most the last of them is the latest, and only a call between its freeze and its insertion keeps a
calculation without a latest row. The calls that report a new row have stored one each, and the
others none. -/
theorem Reachable.interleaved_chains [DecidableEq ι] (h : Reachable w) :
    (∀ u, w.store.revisions u ≠ [] →
      (w.store.revisions u).map (·.version) = List.range' 1 (w.store.revisions u).length ∧
      (w.store.revisions u).countP (·.latest) ≤ 1 ∧
      (∀ c ∈ w.store.revisions u, c.latest = true →
        c.version = (w.store.revisions u).length) ∧
      (w.store.latest? u = none → w.calls.countP (·.holds u) = 1)) ∧
    (∀ call ∈ w.calls, ∀ result, call.result? = some result →
      match result.toOption.bind Outcome.newRow? with
      | some id => ∃ version, Log.inserted call.log =
            [(⟨call.change.uniqueId, version, true, call.change.draft⟩, id)] ∧
          ∃ c, w.store.rows.filter (·.id == id) = [c] ∧ c.uniqueId = call.change.uniqueId ∧
            c.version = version
      | none => Log.inserted call.log = []) ∧
    (w.calls.filterMap Call.newRow?).Nodup ∧
    ((∀ call ∈ w.calls, call.result?.isSome = true) →
      ∀ u, w.store.revisions u ≠ [] → (w.store.revisions u).countP (·.latest) = 1) := by
  have hs := h.sound
  refine ⟨fun u hu => ?_, fun call hc result hr => hs.row_of_result hc hr, ?_, fun hall u hu => ?_⟩
  · have hc := hs.chained.chain u
    refine ⟨hc.numbered, hc.countP_latest_le_one, hc.last_of_latest, fun hn => ?_⟩
    rcases hs.holders u with ⟨h1, _⟩ | ⟨_, hf⟩
    · exact h1
    · exact absurd ⟨hu, Store.latest?_eq_none_iff.1 hn⟩ hf
  · refine List.pairwise_filterMap.2 ((List.pairwise_filterMap.1 hs.distinct).imp_of_mem ?_)
    intro a b ha hb hab id hid id' hid'
    exact hab id ((hs.calls a ha).stored?_of_newRow? hid) id' ((hs.calls b hb).stored?_of_newRow? hid')
  · refine hs.chained.countP_latest hu fun hf => ?_
    rcases hs.holders u with ⟨h1, _⟩ | ⟨_, hn⟩
    · obtain ⟨call, hc, hh⟩ := List.countP_pos_iff.1 (h1 ▸ Nat.one_pos)
      rw [(hs.calls call hc).not_holds (hall call hc) u] at hh
      contradiction
    · exact hn hf

/-- One client has frozen the only row, and another is about to begin. -/
theorem interleaved_chains_frozen :
    ∃ w : World Bool, w.Reachable ∧ w.store.latest? "a" = none ∧
      w.calls.countP (·.holds "a") = 1 := by
  let x : Change := .bumpFrom (Run.firstRow true) Run.plainDraft
  have hw : (Run.firstStore true).Whole := by
    refine (Run.perform Run.start ?_ Run.create_reaches).whole ?_
    · trivial
    · simp [Log.faultless, Exchange.isFailure]
  have h : Reachable (⟨_, fun _ => [], []⟩ : World Bool) := .start _ hw
  have h := h.step (.read _ true (Run.firstRow true) List.mem_cons_self)
  have h := h.step (.begin _ true x (by simp) List.mem_cons_self)
  have h := h.step (.begin _ false (.bump "a" Run.plainDraft) (by simp [Call.start]) trivial)
  have h := h.step (.ask _ _ [] _ true x _ (.row 1) _)
  have h := h.step (.ask _ _ [] _ true x _ (.version "a" 2) _)
  have h := h.step (.ask _ _ [] _ true x _ (.setLatest 1 false) _)
  have hn := List.cons_ne_nil (Run.firstRow false) []
  exact ⟨_, h, rfl, (h.interleaved_chains.1 "a" hn).2.2.2 rfl⟩

end World

end FormulaLedger
