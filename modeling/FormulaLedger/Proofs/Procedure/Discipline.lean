import FormulaLedger.Procedure

/-!
What a program asks of a store, and what comes back. A log holds the requests of a program with
their answers. A discipline says which requests may be asked and what may happen to the store
between two of them; a program obeys it when this holds on every way on, failures of requests
included.
-/

set_option autoImplicit false

namespace FormulaLedger

/-- A request with the answer of the store, or with a failure that kept it from the store. -/
inductive Exchange
  | answered (request : Request) (answer : request.Result)
  | failed (request : Request) (e : StoreError)

def Exchange.isFailure : Exchange → Bool
  | .answered _ _ => false
  | .failed _ _ => true

abbrev Log : Type := List Exchange

def Log.faultless (log : Log) : Bool := !log.any Exchange.isFailure

def Exchange.inserted? : Exchange → Option (NewRow × RowId)
  | .answered (.insertRow row) (.ok id) => some (row, id)
  | _ => none

def Log.inserted (log : Log) : List (NewRow × RowId) := log.filterMap Exchange.inserted?

@[simp] theorem Log.inserted_append (log : Log) (x : Exchange) :
    Log.inserted (log ++ [x]) = Log.inserted log ++ x.inserted?.toList := by
  cases h : x.inserted? with
  | none => simp [Log.inserted, h]
  | some i => simp [Log.inserted, h]

namespace Program

/-- How far a program has come, with what is left of it. Each request is answered by the store, or
fails with any error and leaves the store alone. -/
inductive Reaches {α : Type} : Program α → Store → Log → Program α → Store → Prop
  | refl (p : Program α) (s : Store) : Reaches p s [] p s
  | answered {r : Request} {a : r.Result} {next : r.Result → Program α} {s m t : Store}
      {log : Log} {rest : Program α} : s.answer r = (a, m) →
      Reaches (next a) m log rest t → Reaches (.ask r next) s (.answered r a :: log) rest t
  | failed {r : Request} {next : r.Result → Program α} {s t : Store} {log : Log}
      {rest : Program α} (e : StoreError) : Reaches (next (.error e)) s log rest t →
      Reaches (.ask r next) s (.failed r e :: log) rest t

theorem Reaches.trans {α : Type} {p q rest : Program α} {s m t : Store} {log log' : Log}
    (h : p.Reaches s log q m) (h' : q.Reaches m log' rest t) : p.Reaches s (log ++ log') rest t := by
  induction h with
  | refl p s => exact h'
  | answered ha _ ih => exact .answered ha (ih h')
  | failed e _ ih => exact .failed e (ih h')

end Program

/-- Which requests may be asked after a log, and what others may have done to the store when the
next request reaches it. -/
structure Discipline where
  allowed : Log → Store → Request → Prop
  meantime : Log → Store → Store → Prop

/-- Every way on from a log and a store asks allowed requests only and ends as `post` says. -/
def Program.Obeys {α : Type} (d : Discipline) (post : α → Log → Store → Prop) :
    Program α → Log → Store → Prop
  | .done a, log, s => post a log s
  | .ask r next, log, s =>
    ∀ t, d.meantime log s t → d.allowed log t r ∧
      (next (t.answer r).1).Obeys d post (log ++ [.answered r (t.answer r).1]) (t.answer r).2 ∧
      ∀ e, (next (.error e)).Obeys d post (log ++ [.failed r e]) t

namespace Program

variable {α β : Type} {d : Discipline}

theorem obeys_bind {post : β → Log → Store → Prop} (p : Program α) (f : α → Program β)
    (log : Log) (s : Store) :
    (p.bind f).Obeys d post log s ↔
      p.Obeys d (fun a log s => (f a).Obeys d post log s) log s := by
  induction p generalizing log s with
  | done a => rfl
  | ask r next ih => simp only [bind, Obeys, ih]

theorem Obeys.mono {p : Program α} {post post' : α → Log → Store → Prop} {log : Log} {s : Store}
    (hp : p.Obeys d post log s) (h : ∀ a log s, post a log s → post' a log s) :
    p.Obeys d post' log s := by
  induction p generalizing log s with
  | done a => exact h a log s hp
  | ask r next ih =>
    intro t ht
    obtain ⟨ha, hn, hf⟩ := hp t ht
    exact ⟨ha, ih _ hn, fun e => ih _ (hf e)⟩

theorem Obeys.later {p : Program α} {post : α → Log → Store → Prop} {log : Log} {s t : Store}
    (hp : p.Obeys d post log s) (ht : ∀ r, d.meantime log t r → d.meantime log s r)
    (stable : ∀ a, post a log s → post a log t) : p.Obeys d post log t := by
  cases p with
  | done a => exact stable a hp
  | ask r next => exact fun m hm => hp m (ht m hm)

/-- What holds at the start and is kept by every allowed request holds as far as a program comes
with nothing in between, and the rest of the program still obeys. -/
theorem Obeys.of_reaches (inv : Log → Store → Prop) {post : α → Log → Store → Prop}
    (alone : ∀ log s, inv log s → d.meantime log s s)
    (answered : ∀ log s r, inv log s → d.allowed log s r →
      inv (log ++ [.answered r (s.answer r).1]) (s.answer r).2)
    (failed : ∀ log s r e, inv log s → d.allowed log s r → inv (log ++ [.failed r e]) s)
    {p rest : Program α} {s t : Store} {before log : Log} (hr : p.Reaches s log rest t)
    (hp : p.Obeys d post before s) (hi : inv before s) :
    rest.Obeys d post (before ++ log) t ∧ inv (before ++ log) t := by
  induction hr generalizing before with
  | refl p s =>
    rw [List.append_nil]
    exact ⟨hp, hi⟩
  | @answered r a next s m t log rest hs _ ih =>
    obtain ⟨ha, hn, _⟩ := hp _ (alone _ _ hi)
    have hi' := answered _ _ _ hi ha
    rw [hs] at hn hi'
    rw [List.append_cons]
    exact ih hn hi'
  | failed e _ ih =>
    obtain ⟨ha, _, hf⟩ := hp _ (alone _ _ hi)
    rw [List.append_cons]
    exact ih (hf e) (failed _ _ _ e hi ha)

def Asks (kind : Request → Prop) : Program α → Prop
  | .done _ => True
  | .ask r next => kind r ∧ ∀ answer, (next answer).Asks kind

theorem Asks.bind {kind : Request → Prop} {p : Program α} {f : α → Program β}
    (hp : p.Asks kind) (hf : ∀ a, (f a).Asks kind) : (p.bind f).Asks kind := by
  induction p with
  | done a => exact hf a
  | ask r next ih => exact ⟨hp.1, fun answer => ih answer (hp.2 answer)⟩

theorem Asks.mono {kind kind' : Request → Prop} {p : Program α} (hp : p.Asks kind)
    (h : ∀ r, kind r → kind' r) : p.Asks kind' := by
  induction p with
  | done a => trivial
  | ask r next ih => exact ⟨h r hp.1, fun answer => ih answer (hp.2 answer)⟩

theorem Asks.of_reaches {kind : Request → Prop} (inv : Store → Prop)
    (kept : ∀ s r, kind r → inv s → inv (s.answer r).2) {p rest : Program α} {s t : Store}
    {log : Log} (hr : p.Reaches s log rest t) (hp : p.Asks kind) (hi : inv s) : inv t := by
  induction hr with
  | refl p s => exact hi
  | @answered r a next s m t log rest hs _ ih =>
    have hi' := kept s r hp.1 hi
    rw [hs] at hi'
    exact ih (hp.2 _) hi'
  | failed e _ ih => exact ih (hp.2 _) hi

theorem Asks.rest {kind : Request → Prop} {p rest : Program α} {s t : Store} {log : Log}
    (hr : p.Reaches s log rest t) (hp : p.Asks kind) : rest.Asks kind := by
  induction hr with
  | refl p s => exact hp
  | answered _ _ ih => exact ih (hp.2 _)
  | failed e _ ih => exact ih (hp.2 _)

theorem Asks.obeys {kind : Request → Prop} (inv : Log → Store → Prop)
    {post : α → Log → Store → Prop} {p : Program α} (hp : p.Asks kind)
    (allowed : ∀ log s t r, inv log s → d.meantime log s t → kind r → d.allowed log t r)
    (answered : ∀ log s t r, inv log s → d.meantime log s t → kind r →
      inv (log ++ [.answered r (t.answer r).1]) (t.answer r).2)
    (failed : ∀ log s t r e, inv log s → d.meantime log s t → kind r →
      inv (log ++ [.failed r e]) t)
    (done : ∀ a log s, inv log s → post a log s) {log : Log} {s : Store} (hi : inv log s) :
    p.Obeys d post log s := by
  induction p generalizing log s with
  | done a => exact done a log s hi
  | ask r next ih =>
    intro t ht
    exact ⟨allowed _ _ _ _ hi ht hp.1, ih _ (hp.2 _) (answered _ _ _ _ hi ht hp.1),
      fun e => ih _ (hp.2 _) (failed _ _ _ _ e hi ht hp.1)⟩

end Program

namespace Procedure

variable {α β : Type} {d : Discipline}

def Asks (kind : Request → Prop) (p : Procedure α) : Prop := Program.Asks kind (ExceptT.run p)

theorem asks_pure {kind : Request → Prop} (a : α) : (pure a : Procedure α).Asks kind := trivial

theorem asks_throw {kind : Request → Prop} (e : LedgerError) :
    (throw e : Procedure α).Asks kind := trivial

theorem Asks.bind {kind : Request → Prop} {p : Procedure α} {f : α → Procedure β}
    (hp : p.Asks kind) (hf : ∀ a, (f a).Asks kind) : (p >>= f).Asks kind := by
  refine Program.Asks.bind hp fun result => ?_
  cases result with
  | ok a => exact hf a
  | error e => trivial

theorem asks_attempt {kind : Request → Prop} {r : Request} (h : kind r) :
    (attempt r).Asks kind := ⟨h, fun _ => trivial⟩

theorem asks_ask {kind : Request → Prop} {r : Request} (h : kind r) : (ask r).Asks kind := by
  refine (asks_attempt h).bind fun result => ?_
  cases result with
  | ok a => trivial
  | error e => trivial

def Obeys (d : Discipline) (post : Except LedgerError α → Log → Store → Prop) (p : Procedure α) :
    Log → Store → Prop :=
  Program.Obeys d post (ExceptT.run p)

/-- What follows a procedure starts where the procedure ends with a result. -/
def andThen (d : Discipline) (post : Except LedgerError β → Log → Store → Prop)
    (f : α → Procedure β) (result : Except LedgerError α) (log : Log) (s : Store) : Prop :=
  match result with
  | .ok a => (f a).Obeys d post log s
  | .error e => post (.error e) log s

theorem obeys_bind {post : Except LedgerError β → Log → Store → Prop} (p : Procedure α)
    (f : α → Procedure β) (log : Log) (s : Store) :
    (p >>= f).Obeys d post log s ↔ p.Obeys d (andThen d post f) log s := by
  refine (Program.obeys_bind _ _ _ _).trans ⟨fun h => h.mono ?_, fun h => h.mono ?_⟩
  · intro result log s hr
    cases result with
    | ok a => exact hr
    | error e => exact hr
  · intro result log s hr
    cases result with
    | ok a => exact hr
    | error e => exact hr

theorem obeys_attempt {r : Request} {post : Except LedgerError r.Result → Log → Store → Prop}
    (log : Log) (s : Store) :
    (attempt r).Obeys d post log s ↔ ∀ t, d.meantime log s t → d.allowed log t r ∧
      post (.ok (t.answer r).1) (log ++ [.answered r (t.answer r).1]) (t.answer r).2 ∧
      ∀ e, post (.ok (.error e)) (log ++ [.failed r e]) t := Iff.rfl

def taken {α : Type} (result : Except StoreError α) : Except LedgerError α :=
  result.mapError .ofStore

theorem obeys_ask {r : Request} {post : Except LedgerError r.Answer → Log → Store → Prop}
    (log : Log) (s : Store) :
    (ask r).Obeys d post log s ↔ ∀ t, d.meantime log s t → d.allowed log t r ∧
      post (taken (t.answer r).1) (log ++ [.answered r (t.answer r).1]) (t.answer r).2 ∧
      ∀ e, post (.error (.ofStore e)) (log ++ [.failed r e]) t := by
  rw [ask, obeys_bind, obeys_attempt]
  refine forall_congr' fun t => imp_congr_right fun _ => and_congr_right fun _ => and_congr ?_ ?_
  · cases (t.answer r).1 with
    | ok a => rfl
    | error e => rfl
  · rfl

theorem Obeys.mono {p : Procedure α} {post post' : Except LedgerError α → Log → Store → Prop}
    {log : Log} {s : Store} (hp : p.Obeys d post log s)
    (h : ∀ a log s, post a log s → post' a log s) : p.Obeys d post' log s :=
  Program.Obeys.mono hp h

def onResult (post : α → Store → Prop) (result : Except LedgerError α) (_ : Log) (s : Store) :
    Prop :=
  match result with
  | .ok a => post a s
  | .error _ => True

theorem obeys_then {post : β → Store → Prop} {p : Procedure α} {f : α → Procedure β} {log : Log}
    {s : Store} (mid : α → Store → Prop) (hp : p.Obeys d (onResult mid) log s)
    (hf : ∀ a log t, mid a t → (f a).Obeys d (onResult post) log t) :
    (p >>= f).Obeys d (onResult post) log s := by
  rw [obeys_bind]
  refine hp.mono fun result log t h => ?_
  cases result with
  | ok a => exact hf a log t h
  | error e => trivial

theorem obeys_ask_onResult {r : Request} {post : r.Answer → Store → Prop} {log : Log} {s : Store}
    (h : ∀ t, d.meantime log s t → d.allowed log t r ∧
      ∀ a m, t.answer r = (.ok a, m) → post a m) : (ask r).Obeys d (onResult post) log s := by
  rw [obeys_ask]
  intro t ht
  obtain ⟨hallowed, hpost⟩ := h t ht
  refine ⟨hallowed, ?_, fun e => trivial⟩
  cases hr : (t.answer r).1 with
  | ok a => exact hpost a _ (Prod.ext hr rfl)
  | error e => trivial

end Procedure

end FormulaLedger
