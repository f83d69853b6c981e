import FormulaLedger.Proofs.Procedure.Discipline

/-!
Two programs that take turns on one store, with each request as one step. When each keeps a
discipline whose meantime covers what the other is allowed, both end as their disciplines say,
whatever the order of the steps.
-/

set_option autoImplicit false

namespace FormulaLedger

namespace Program

variable {α β : Type}

/-- Two programs come to their ends on one store, their requests answered in some order. -/
inductive Interleaves : Program α → Program β → Store → α → β → Store → Prop
  | done (a : α) (b : β) (s : Store) : Interleaves (.done a) (.done b) s a b s
  | left {r : Request} {next : r.Result → Program α} {q : Program β} {s t : Store} {a : α}
      {b : β} : Interleaves (next (s.answer r).1) q (s.answer r).2 a b t →
      Interleaves (.ask r next) q s a b t
  | right {p : Program α} {r : Request} {next : r.Result → Program β} {s t : Store} {a : α}
      {b : β} : Interleaves p (next (s.answer r).1) (s.answer r).2 a b t →
      Interleaves p (.ask r next) s a b t

theorem Interleaves.symm {p : Program α} {q : Program β} {s t : Store} {a : α} {b : β}
    (h : Interleaves p q s a b t) : Interleaves q p s b a t := by
  induction h with
  | done a b s => exact .done b a s
  | left _ ih => exact .right ih
  | right _ ih => exact .left ih

/-- The two programs in the order of a list, in which `true` stands for the first. -/
def takeTurns : List Bool → Program α → Program β → Store → Option ((α × β) × Store)
  | _, .done a, .done b, s => some ((a, b), s)
  | true :: turns, .ask r next, q, s =>
    takeTurns turns (next (s.answer r).1) q (s.answer r).2
  | false :: turns, p, .ask r next, s =>
    takeTurns turns p (next (s.answer r).1) (s.answer r).2
  | _, _, _, _ => none

theorem interleaves_of_takeTurns (turns : List Bool) {p : Program α} {q : Program β}
    {s t : Store} {a : α} {b : β} (h : takeTurns turns p q s = some ((a, b), t)) :
    Interleaves p q s a b t := by
  fun_induction takeTurns turns p q s with
  | case1 _ a b s =>
    cases h
    exact .done _ _ _
  | case2 turns r next q s ih => exact .left (ih h)
  | case3 turns p r next s ih => exact .right (ih h)
  | case4 => contradiction

theorem Obeys.and {d d' both : Discipline} {post post' : α → Log → Store → Prop}
    {p : Program α} {log : Log} {s : Store} (hp : p.Obeys d post log s)
    (hp' : p.Obeys d' post' log s)
    (meantime : ∀ log s t, both.meantime log s t → d.meantime log s t ∧ d'.meantime log s t)
    (allowed : ∀ log s r, d.allowed log s r → d'.allowed log s r → both.allowed log s r) :
    p.Obeys both (fun a log s => post a log s ∧ post' a log s) log s := by
  induction p generalizing log s with
  | done a => exact ⟨hp, hp'⟩
  | ask r next ih =>
    intro t ht
    obtain ⟨hm, hm'⟩ := meantime _ _ _ ht
    obtain ⟨ha, hn, hf⟩ := hp t hm
    obtain ⟨ha', hn', hf'⟩ := hp' t hm'
    exact ⟨allowed _ _ _ ha ha', ih _ hn hn', fun e => ih _ (hf e) (hf' e)⟩

end Program

/-- The meantime of a discipline comes in pieces, and does not undo the end. -/
structure Discipline.Steady {α : Type} (d : Discipline) (post : α → Log → Store → Prop) : Prop where
  trans : ∀ {log s t r}, d.meantime log s t → d.meantime log t r → d.meantime log s r
  stable : ∀ {a log s t}, d.meantime log s t → post a log s → post a log t

theorem Program.Obeys.meanwhile {α : Type} {d : Discipline} {post : α → Log → Store → Prop}
    (hd : d.Steady post) {p : Program α} {log : Log} {s t : Store} (hp : p.Obeys d post log s)
    (ht : d.meantime log s t) : p.Obeys d post log t :=
  hp.later (fun _ hr => hd.trans ht hr) fun _ ha => hd.stable ht ha

/-- Both programs end as they should when each step of one is what the other's discipline expects in
the meantime. -/
theorem Program.Interleaves.sound {α β : Type} {d₁ d₂ : Discipline}
    {post₁ : α → Log → Store → Prop} {post₂ : β → Log → Store → Prop} (hd₁ : d₁.Steady post₁)
    (hd₂ : d₂.Steady post₂) (inv : Log → Log → Store → Prop)
    (refl : ∀ log₁ log₂ s, inv log₁ log₂ s → d₁.meantime log₁ s s ∧ d₂.meantime log₂ s s)
    (left : ∀ log₁ log₂ s r, inv log₁ log₂ s → d₁.allowed log₁ s r →
      inv (log₁ ++ [.answered r (s.answer r).1]) log₂ (s.answer r).2 ∧
        d₂.meantime log₂ s (s.answer r).2)
    (right : ∀ log₁ log₂ s r, inv log₁ log₂ s → d₂.allowed log₂ s r →
      inv log₁ (log₂ ++ [.answered r (s.answer r).1]) (s.answer r).2 ∧
        d₁.meantime log₁ s (s.answer r).2)
    {p : Program α} {q : Program β} {s t : Store} {a : α} {b : β} (h : Interleaves p q s a b t)
    {log₁ log₂ : Log} (hp : p.Obeys d₁ post₁ log₁ s) (hq : q.Obeys d₂ post₂ log₂ s)
    (hi : inv log₁ log₂ s) :
    ∃ log₁' log₂', inv log₁' log₂' t ∧ post₁ a log₁' t ∧ post₂ b log₂' t := by
  -- the induction is on the order of the steps, and each is a piece of the other's meantime
  induction h generalizing log₁ log₂ with
  | done a b s => exact ⟨log₁, log₂, hi, hp, hq⟩
  | left _ ih =>
    obtain ⟨ha, hn, _⟩ := hp _ (refl _ _ _ hi).1
    obtain ⟨hi', hm⟩ := left _ _ _ _ hi ha
    exact ih hn (hq.meanwhile hd₂ hm) hi'
  | right _ ih =>
    obtain ⟨ha, hn, _⟩ := hq _ (refl _ _ _ hi).2
    obtain ⟨hi', hm⟩ := right _ _ _ _ hi ha
    exact ih (hp.meanwhile hd₁ hm) hn hi'

end FormulaLedger
