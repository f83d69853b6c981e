import FormulaLedger.Proofs.Procedure.Discipline

set_option autoImplicit false

namespace FormulaLedger

namespace Program

variable {α β : Type} {p rest : Program α} {f : α → Program β} {s t : Store} {log : Log}

theorem Reaches.bind (h : p.Reaches s log rest t) (f : α → Program β) :
    (p.bind f).Reaches s log (rest.bind f) t := by
  induction h with
  | refl p s => exact .refl _ s
  | answered ha _ ih => exact .answered ha ih
  | failed e _ ih => exact .failed e ih

theorem Reaches.of_bind {b : β} (h : (p.bind f).Reaches s log (.done b) t) :
    ∃ a m before after, log = before ++ after ∧ p.Reaches s before (.done a) m ∧
      (f a).Reaches m after (.done b) t := by
  induction p generalizing s log with
  | done a => exact ⟨a, s, [], log, rfl, .refl _ s, h⟩
  | ask r next ih =>
    rw [Program.bind] at h
    cases h with
    | answered ha h =>
      obtain ⟨a, m, before, after, rfl, hp, hf⟩ := ih _ h
      exact ⟨a, m, _ :: before, after, rfl, .answered ha hp, hf⟩
    | failed e h =>
      obtain ⟨a, m, before, after, rfl, hp, hf⟩ := ih _ h
      exact ⟨a, m, _ :: before, after, rfl, .failed e hp, hf⟩

end Program

namespace Procedure

variable {α β : Type} {s m t : Store} {log before after : Log}

/-- The procedure ends with a result when its requests are answered, or fail, as in the log. -/
def Ends (p : Procedure α) (s : Store) (log : Log) (result : Except LedgerError α) (t : Store) :
    Prop :=
  Program.Reaches (ExceptT.run p) s log (.done result) t

section

variable {p : Procedure α} {f : α → Procedure β} {result : Except LedgerError β}

theorem ends_pure_iff {a : α} {result : Except LedgerError α} :
    (pure a : Procedure α).Ends s log result t ↔ log = [] ∧ result = .ok a ∧ t = s := by
  constructor
  · intro h
    cases h
    exact ⟨rfl, rfl, rfl⟩
  · rintro ⟨rfl, rfl, rfl⟩
    exact .refl _ _

theorem Ends.bind_ok {a : α} (hp : p.Ends s before (.ok a) m) (hf : (f a).Ends m after result t) :
    (p >>= f).Ends s (before ++ after) result t :=
  (Program.Reaches.bind hp (ExceptT.bindCont f)).trans hf

theorem Ends.bind_error {e : LedgerError} (hp : p.Ends s log (.error e) t) :
    (p >>= f).Ends s log (.error e) t := Program.Reaches.bind hp (ExceptT.bindCont f)

theorem Ends.of_bind (h : (p >>= f).Ends s log result t) :
    (∃ e, result = .error e ∧ p.Ends s log (.error e) t) ∨
      ∃ a m before after, log = before ++ after ∧ p.Ends s before (.ok a) m ∧
        (f a).Ends m after result t := by
  obtain ⟨first, m, before, after, rfl, hp, hf⟩ := Program.Reaches.of_bind h
  cases first with
  | ok a => exact .inr ⟨a, m, before, after, rfl, hp, hf⟩
  | error e =>
    cases hf
    rw [List.append_nil]
    exact .inl ⟨e, rfl, hp⟩

end

theorem ends_ask_of_ok {r : Request} {a : r.Answer} (h : s.answer r = (.ok a, t)) :
    (ask r).Ends s [.answered r (.ok a)] (.ok a) t := .answered h (.refl _ _)

theorem ends_ask_of_failed (r : Request) (e : StoreError) (s : Store) :
    (ask r).Ends s [.failed r e] (.error (.ofStore e)) s := .failed e (.refl _ _)

theorem Ends.of_ask {r : Request} {a : r.Answer} {result : Except LedgerError r.Answer}
    (h : s.answer r = (.ok a, m)) (hends : (ask r).Ends s log result t) :
    log = [.answered r (.ok a)] ∧ result = .ok a ∧ t = m ∨
      ∃ e, log = [.failed r e] ∧ result = .error (.ofStore e) ∧ t = s := by
  cases hends with
  | answered ha hdone =>
    rw [h] at ha
    cases ha
    cases hdone
    exact .inl ⟨rfl, rfl, rfl⟩
  | failed e hdone =>
    cases hdone
    exact .inr ⟨e, rfl, rfl, rfl⟩

end Procedure

end FormulaLedger
