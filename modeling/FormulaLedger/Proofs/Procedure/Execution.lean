import FormulaLedger.Proofs.Procedure.Discipline

set_option autoImplicit false

namespace FormulaLedger

namespace Program

variable {α β : Type}

theorem bind_assoc {γ : Type} (p : Program α) (f : α → Program β) (g : β → Program γ) :
    (p.bind f).bind g = p.bind fun a => (f a).bind g := by
  induction p with
  | done a => rfl
  | ask r next ih =>
    rw [bind, bind, bind]
    exact congrArg (Program.ask r) (funext ih)

theorem bind_done (p : Program α) : p.bind .done = p := by
  induction p with
  | done a => rfl
  | ask r next ih =>
    rw [bind]
    exact congrArg (Program.ask r) (funext ih)

instance : LawfulMonad Program :=
  LawfulMonad.mk' Program (fun p => bind_done p) (fun _ _ => rfl) bind_assoc

theorem runWith_bind {σ : Type} (answer : σ → (r : Request) → r.Result × σ) (p : Program α)
    (f : α → Program β) (s : σ) : (p >>= f).runWith answer s =
      (f (p.runWith answer s).1).runWith answer (p.runWith answer s).2 := by
  induction p generalizing s with
  | done a => rfl
  | ask r next ih => exact ih (answer s r).1 (answer s r).2

theorem run_bind (p : Program α) (f : α → Program β) (s : Store) :
    (p >>= f).run s = (f (p.run s).1).run (p.run s).2 := runWith_bind Store.answer p f s

theorem reaches_run (p : Program α) (s : Store) :
    ∃ log, p.Reaches s log (.done (p.run s).1) (p.run s).2 ∧ Log.faultless log = true := by
  induction p generalizing s with
  | done a => exact ⟨[], .refl _ _, rfl⟩
  | ask r next ih =>
    obtain ⟨log, hreaches, hfaultless⟩ := ih (s.answer r).1 (s.answer r).2
    exact ⟨_, .answered rfl hreaches, hfaultless⟩

theorem Reaches.kept {inv : Store → Prop} (kept : ∀ s r, inv s → inv (s.answer r).2)
    {p rest : Program α} {s t : Store} {log : Log} (h : p.Reaches s log rest t) (hs : inv s) :
    inv t := by
  induction h with
  | refl p s => exact hs
  | @answered r a next s m t log rest heq _ ih =>
    have hm := kept s r hs
    rw [heq] at hm
    exact ih hm
  | failed e _ ih => exact ih hs

/-- What holds at every point of a run, of the log, of what is left of the program and of the
store. -/
def Passes (post : Log → Program α → Store → Prop) : Program α → Log → Store → Prop
  | .done a, log, s => post log (.done a) s
  | .ask r next, log, s => post log (.ask r next) s ∧
    (next (s.answer r).1).Passes post (log ++ [.answered r (s.answer r).1]) (s.answer r).2

theorem Passes.of_reaches {post : Log → Program α → Store → Prop} {p rest : Program α}
    {s t : Store} {before log : Log} (hr : p.Reaches s log rest t) (hp : p.Passes post before s)
    (hlog : Log.faultless log = true) : post (before ++ log) rest t := by
  induction hr generalizing before with
  | refl p s =>
    rw [List.append_nil]
    cases p with
    | done a => exact hp
    | ask r next => exact hp.1
  | @answered r a next s m t log rest heq _ ih =>
    have hnext := hp.2
    rw [heq] at hnext
    rw [List.append_cons]
    exact ih hnext hlog
  | failed e _ _ => contradiction

end Program

namespace Procedure

variable {α β : Type} {s t : Store}

theorem runOn_bind (p : Procedure α) (f : α → Procedure β) (s : Store) :
    (p >>= f).runOn s =
      match p.runOn s with
      | (.ok a, t) => (f a).runOn t
      | (.error e, t) => (.error e, t) := by
  have hrun : (p >>= f).runOn s =
      Program.run (ExceptT.bindCont f (p.runOn s).1) (p.runOn s).2 := Program.run_bind _ _ s
  rw [hrun]
  generalize p.runOn s = ended
  obtain ⟨result, t⟩ := ended
  cases result with
  | ok a => rfl
  | error e => rfl

theorem runOn_bind_of_ok {p : Procedure α} {a : α} (h : p.runOn s = (.ok a, t))
    (f : α → Procedure β) : (p >>= f).runOn s = (f a).runOn t := by
  rw [runOn_bind, h]

theorem runOn_attempt (r : Request) (s : Store) :
    (attempt r).runOn s = (.ok (s.answer r).1, (s.answer r).2) := rfl

theorem runOn_ask_of_ok {r : Request} {a : r.Answer} (h : s.answer r = (.ok a, t)) :
    (ask r).runOn s = (.ok a, t) := by
  rw [ask, runOn_bind_of_ok (runOn_attempt r s), h]
  rfl

theorem runOn_ask_of_error {r : Request} {e : StoreError} (h : s.answer r = (.error e, t)) :
    (ask r).runOn s = (.error (.ofStore e), t) := by
  rw [ask, runOn_bind_of_ok (runOn_attempt r s), h]
  rfl

def Passes (post : Log → Program (Except LedgerError α) → Store → Prop) (p : Procedure α) :
    Log → Store → Prop :=
  Program.Passes post (ExceptT.run p)

section

variable {post : Log → Program (Except LedgerError β) → Store → Prop} {log : Log}

theorem passes_attempt {r : Request} {a : r.Result} {f : r.Result → Procedure β}
    (h : s.answer r = (a, t)) (here : post log (ExceptT.run (attempt r >>= f)) s)
    (next : (f a).Passes post (log ++ [.answered r a]) t) :
    (attempt r >>= f).Passes post log s := by
  refine ⟨here, ?_⟩
  rw [h]
  exact next

theorem passes_ask {r : Request} {a : r.Answer} {f : r.Answer → Procedure β}
    (h : s.answer r = (.ok a, t)) (here : post log (ExceptT.run (ask r >>= f)) s)
    (next : (f a).Passes post (log ++ [.answered r (.ok a)]) t) :
    (ask r >>= f).Passes post log s := by
  refine ⟨here, ?_⟩
  rw [h]
  exact next

theorem passes_ask_bind {r : Request} {a : r.Answer} {f : r.Answer → Procedure α}
    {k : α → Procedure β} (h : s.answer r = (.ok a, t))
    (here : post log (ExceptT.run ((ask r >>= f) >>= k)) s)
    (next : (f a >>= k).Passes post (log ++ [.answered r (.ok a)]) t) :
    ((ask r >>= f) >>= k).Passes post log s := by
  rw [LawfulMonad.bind_assoc] at here ⊢
  exact passes_ask h here next

theorem passes_attempt_bind {r : Request} {a : r.Result} {f : r.Result → Procedure α}
    {k : α → Procedure β} (h : s.answer r = (a, t))
    (here : post log (ExceptT.run ((attempt r >>= f) >>= k)) s)
    (next : (f a >>= k).Passes post (log ++ [.answered r a]) t) :
    ((attempt r >>= f) >>= k).Passes post log s := by
  rw [LawfulMonad.bind_assoc] at here ⊢
  exact passes_attempt h here next

end

end Procedure

end FormulaLedger
