import FormulaLedger.Proofs.Formula.Descent

/-!
How deep a descent goes. It never turns back: every round and every activation starts at a later
place than the one before. Where an activation starts, as many are open as there are parentheses
open. So if the parentheses are balanced, at most one activation more is open at one time than
parentheses may be, and a budget of that many changes nothing.
-/

set_option autoImplicit false

namespace FormulaLedger.Formula

/-! ### The order of starts -/

def Event.start? : Event → Option Start
  | .start s => some s
  | _ => none

def starts (es : List Event) : List Start := es.filterMap Event.start?

theorem starts_append (es es' : List Event) : starts (es ++ es') = starts es ++ starts es' :=
  List.filterMap_append

/-- The first start is at an earlier place. Only a product with which no operator goes on leaves its
place to a round of the sum around it. -/
def Start.Before (ls : List Lexeme) (s s' : Start) : Prop :=
  s.place < s'.place ∨ s.place = s'.place ∧ s.stage = .round .product ∧ s'.stage = .round .sum ∧
    operatorAt? ls .product s.place = none

namespace Start

/-- A start takes up one half of its place, or both. -/
def first (s : Start) : Nat :=
  match s.stage with
  | .activation | .round .product => 2 * s.place
  | .round .sum => 2 * s.place + 1

def last (ls : List Lexeme) (s : Start) : Nat :=
  match s.stage with
  | .round .product =>
    if operatorAt? ls .product s.place = none then 2 * s.place else 2 * s.place + 1
  | .activation | .round .sum => 2 * s.place + 1

theorem before_iff {ls : List Lexeme} {s s' : Start} : s.Before ls s' ↔ s.last ls < s'.first := by
  obtain ⟨stage, place⟩ := s
  obtain ⟨stage', place'⟩ := s'
  by_cases hop : operatorAt? ls .product place = none <;> rcases stage with _ | _ | _ <;>
    rcases stage' with _ | _ | _ <;> simp [Before, first, last, hop] <;> omega

theorem first_le_last (ls : List Lexeme) (s : Start) : s.first ≤ s.last ls := by
  obtain ⟨_ | _ | _, place⟩ := s <;> simp only [first, last] <;> grind

theorem last_le (ls : List Lexeme) (stage : Stage) (p : Nat) : last ls ⟨stage, p⟩ ≤ 2 * p + 1 := by
  rcases stage with _ | _ | _ <;> simp only [last] <;> grind

end Start

/-- Before which half of a place the rounds of a tier have started that end there. -/
def Tier.beyond : Tier → Nat → Nat
  | .sum, p => 2 * p + 2
  | .product, p => 2 * p + 1

theorem Tier.beyond_eq {ls : List Lexeme} {tier : Tier} {p : Nat}
    (h : operatorAt? ls tier p = none) : tier.beyond p = Start.last ls ⟨.round tier, p⟩ + 1 := by
  cases tier with
  | sum => rfl
  | product => rw [Start.last, if_pos h, beyond]

namespace Routine

/-- From which half of a place on a routine starts anything. -/
def low : Routine → Nat → Nat
  | .chain .sum, p => 2 * p
  | .chain .product, p | .primary, p => 2 * p + 2
  | .rounds tier _, p => Start.first ⟨.round tier, p⟩

/-- Before which half of a place a routine has started everything that ends there. -/
def high : Routine → Nat → Nat
  | .chain tier, p | .rounds tier _, p => tier.beyond p
  | .primary, p => 2 * p

theorem low_operand (tier : Tier) (p : Nat) : tier.operand.low p = 2 * p + 2 := by
  cases tier <;> rfl

theorem low_rounds (tier : Tier) (left : Formula) (p : Nat) :
    (rounds tier left).low p = tier.operand.high p := by
  cases tier <;> rfl

end Routine

namespace Descent

structure Ordered {α : Type} (ls : List Lexeme) (low : Nat) (high : α → Nat) (x : Descent α) :
    Prop where
  ordered : (starts x.trace).Pairwise (Start.Before ls)
  above : ∀ s ∈ starts x.trace, low ≤ s.first
  below : ∀ a, x.result = .ok a → ∀ s ∈ starts x.trace, s.last ls < high a
  advances : ∀ a, x.result = .ok a → low ≤ high a

section

variable {α β : Type} {low low' : Nat} {high : α → Nat} {high' : β → Nat} {x : Descent α}
  {f : α → Descent β} {ls : List Lexeme} {p : Nat}

theorem Ordered.pure {a : α} (h : low ≤ high a) :
    (Pure.pure a : Descent α).Ordered ls low high where
  ordered := .nil
  above := nofun
  below := nofun
  advances b hb := by
    rw [← Except.ok.inj hb]
    exact h

theorem Ordered.halt (e : Halt) : (halt e : Descent α).Ordered ls low high :=
  ⟨.nil, nofun, nofun, nofun⟩

theorem Ordered.bind (h : x.Ordered ls low high)
    (hf : ∀ a, x.result = .ok a → (f a).Ordered ls (high a) high') :
    (x >>= f).Ordered ls low high' := by
  cases hx : x.result with
  | error e =>
    rw [bind_of_error hx]
    exact ⟨h.ordered, h.above, nofun, nofun⟩
  | ok a =>
    have hbelow := h.below a hx
    have hadvances := h.advances a hx
    have hf := hf a hx
    rw [bind_of_ok hx]
    refine ⟨?_, ?_, fun b hb => ?_, fun b hb => hadvances.trans (hf.advances b hb)⟩
    · rw [starts_append, List.pairwise_append]
      exact ⟨h.ordered, hf.ordered, fun s hs s' hs' =>
        Start.before_iff.2 ((hbelow s hs).trans_le (hf.above s' hs'))⟩
    · rw [starts_append]
      intro s hs
      rcases List.mem_append.1 hs with hs | hs
      · exact h.above s hs
      · exact hadvances.trans (hf.above s hs)
    · rw [starts_append]
      intro s hs
      rcases List.mem_append.1 hs with hs | hs
      · exact (hbelow s hs).trans_le (hf.advances b hb)
      · exact hf.below b hb s hs

theorem Ordered.mono (h : x.Ordered ls low high) (hlow : low' ≤ low) : x.Ordered ls low' high where
  ordered := h.ordered
  above s hs := hlow.trans (h.above s hs)
  below := h.below
  advances a ha := hlow.trans (h.advances a ha)

variable (ls) in
theorem ordered_note (s : Start) :
    (note (.start s)).Ordered ls s.first fun _ => s.last ls + 1 where
  ordered := List.pairwise_singleton _ _
  above _ hs := List.mem_singleton.1 hs ▸ le_rfl
  below _ _ _ hs := List.mem_singleton.1 hs ▸ Nat.lt_succ_self _
  advances _ _ := (s.first_le_last ls).trans (Nat.le_succ _)

theorem ordered_note_of_none {e : Event} (h : e.start? = none) :
    (note e).Ordered ls low fun _ => low := by
  have hnone : starts (note e).trace = [] := List.filterMap_cons_none h
  constructor
  · rw [hnone]
    exact .nil
  · rw [hnone]
    exact List.forall_mem_nil _
  · rw [hnone]
    exact fun _ _ => List.forall_mem_nil _
  · exact fun _ _ => le_rfl

theorem Ordered.activation (h : x.Ordered ls (2 * p + 2) high) :
    (activation p x).Ordered ls (2 * p) high := by
  have htrace : starts (Descent.activation p x).trace = ⟨.activation, p⟩ :: starts x.trace := by
    change starts ((_ :: x.trace) ++ [_]) = _
    rw [starts_append]
    exact List.append_nil _
  refine ⟨?_, ?_, fun a ha => ?_, fun a ha => ?_⟩
  · rw [htrace, List.pairwise_cons]
    exact ⟨fun s hs => Start.before_iff.2 (h.above s hs), h.ordered⟩
  · rw [htrace]
    intro s hs
    rcases List.mem_cons.1 hs with rfl | hs
    · exact le_rfl
    · exact le_trans (by omega) (h.above s hs)
  · rw [htrace]
    intro s hs
    rcases List.mem_cons.1 hs with rfl | hs
    · exact h.advances a ha
    · exact h.below a ha s hs
  · exact le_trans (by omega) (h.advances a ha)

end

end Descent

section

variable {ls : List Lexeme} {budget : Option Nat} {tier : Tier} {left : Formula} {p : Nat}

theorem ordered_activate {α : Type} {high : α → Nat} {body : Option Nat → Descent α}
    (h : ∀ budget, (body budget).Ordered ls (2 * p + 2) high) :
    (tier.activate budget p body).Ordered ls ((Routine.chain tier).low p) high := by
  cases tier with
  | product => exact h budget
  | sum =>
    rcases budget with _ | _ | b
    · exact (h none).activation
    · exact .halt _
    · exact (h (some b)).activation

theorem ordered_closing (inner : Reached (p + 1)) :
    (closing ls inner).Ordered ls (2 * inner.place + 2) fun r => 2 * r.place := by
  rw [closing]
  split
  · exact .pure le_rfl
  · exact .halt _
  · exact (Descent.ordered_note_of_none rfl).bind fun _ _ => .halt _

theorem ordered_thenRounds {q low : Nat} (hle : p ≤ q) {x : Descent (Reached q)}
    {complete : Formula → Formula} (hx : x.Ordered ls low fun r => tier.operand.high r.place)
    (hrounds : ∀ left r, q ≤ r → (descend ls budget (.rounds tier left) r).Ordered ls
      ((Routine.rounds tier left).low r) fun s => (Routine.rounds tier left).high s.place) :
    (thenRounds ls budget tier hle complete x).Ordered ls low
      fun r => (Routine.chain tier).high r.place := by
  refine hx.bind fun a _ => ?_
  have hrest := hrounds (complete a.formula) a.place a.leads
  rw [Routine.low_rounds] at hrest
  exact hrest.bind fun whole _ => .pure le_rfl

variable (ls) in
theorem ordered_descend (budget : Option Nat) (routine : Routine) (p : Nat) :
    (descend ls budget routine p).Ordered ls (routine.low p) fun r => routine.high r.place := by
  induction routine, p using descent_induction ls generalizing budget with
  | chain tier p hoperand hrounds =>
    rw [descend_chain]
    refine ordered_activate fun budget => ?_
    have hfirst := hoperand budget
    rw [Routine.low_operand] at hfirst
    exact ordered_thenRounds le_rfl hfirst fun left q hq => hrounds left q hq budget
  | rounds tier left p hoperand hrounds =>
    rw [descend_rounds]
    refine (Descent.ordered_note ls _).bind fun _ _ => ?_
    cases hop : operatorAt? ls tier p with
    | none => exact .pure (Tier.beyond_eq hop).ge
    | some op =>
      have hp := lt_of_operatorAt? hop
      have hright := hoperand hp budget
      rw [Routine.low_operand] at hright
      have hlater : Start.last ls ⟨.round tier, p⟩ + 1 ≤ 2 * (p + 1) + 2 :=
        (Nat.succ_le_succ (Start.last_le ls _ p)).trans (by omega)
      exact ordered_thenRounds (Nat.le_succ p) (hright.mono hlater)
        fun left q hq => hrounds hp left q hq budget
  | primary p hinner =>
    rw [descend_primary]
    cases hl : ls[p]? with
    | none => exact .halt _
    | some l =>
      obtain ⟨token, position⟩ := l
      cases token with
      | number value => exact .pure le_rfl
      | operator op => exact .halt _
      | closing => exact .halt _
      | opening =>
        refine (hinner (lt_of_getElem? hl) budget).bind fun inner _ => ?_
        exact ordered_closing inner

end

/-! ### Open activations and open parentheses -/

def Event.change : Event → Int
  | .start ⟨.activation, _⟩ => 1
  | .finish => -1
  | .start ⟨.round _, _⟩ | .unclosed _ | .leftover _ => 0

def openActivations : List Event → Int
  | [] => 0
  | e :: es => e.change + openActivations es

theorem openActivations_append (es es' : List Event) :
    openActivations (es ++ es') = openActivations es + openActivations es' := by
  induction es with
  | nil => exact (Int.zero_add _).symm
  | cons e es ih =>
    rw [List.cons_append, openActivations, openActivations, ih]
    omega

def openParentheses (ls : List Lexeme) (p : Nat) : Int :=
  ((ls.take p).map Lexeme.token).count .opening - ((ls.take p).map Lexeme.token).count .closing

/-- What an event means for the parentheses, if so many activations are open before it. -/
def Event.Fits (ls : List Lexeme) (count : Int) : Event → Prop
  | .start ⟨.activation, p⟩ => count = openParentheses ls p
  | .start ⟨.round _, p⟩ => count = openParentheses ls p + 1
  | .finish => True
  | .unclosed p => openParentheses ls ls.length = openParentheses ls p + 1
  | .leftover p => openParentheses ls p = 0

section

variable {ls : List Lexeme} {p position : Nat}

theorem openParentheses_end (h : ls[p]? = none) :
    openParentheses ls p = openParentheses ls ls.length := by
  have htake : ls.take p = ls.take ls.length := by
    rw [List.take_length, List.take_of_length_le (List.getElem?_eq_none_iff.1 h)]
  rw [openParentheses, htake, openParentheses]

theorem openParentheses_succ {l : Lexeme} (h : ls[p]? = some l) : openParentheses ls (p + 1) =
    openParentheses ls p + [l.token].count .opening - [l.token].count .closing := by
  simp only [openParentheses, List.take_add_one, h, Option.toList_some, List.map_append,
    List.map_cons, List.map_nil, List.count_append]
  omega

theorem openParentheses_opening (h : ls[p]? = some ⟨.opening, position⟩) :
    openParentheses ls (p + 1) = openParentheses ls p + 1 := by
  simp [openParentheses_succ h]

theorem openParentheses_closing (h : ls[p]? = some ⟨.closing, position⟩) :
    openParentheses ls (p + 1) = openParentheses ls p - 1 := by
  simp [openParentheses_succ h]

theorem openParentheses_number {value : Float} (h : ls[p]? = some ⟨.number value, position⟩) :
    openParentheses ls (p + 1) = openParentheses ls p := by
  simp [openParentheses_succ h]

theorem openParentheses_operator {op : Operator} (h : ls[p]? = some ⟨.operator op, position⟩) :
    openParentheses ls (p + 1) = openParentheses ls p := by
  simp [openParentheses_succ h]

end

theorem prefix_concat_append {α : Type} {us xs ys : List α} {a : α} (h : us ++ [a] <+: xs ++ ys) :
    us ++ [a] <+: xs ∨ ∃ vs, us = xs ++ vs ∧ vs ++ [a] <+: ys := by
  rcases List.prefix_or_prefix_of_prefix h (List.prefix_append xs ys) with hshort | ⟨vs, hvs⟩
  · exact .inl hshort
  · rcases List.eq_nil_or_concat vs with rfl | ⟨ws, b, rfl⟩
    · rw [List.append_nil] at hvs
      exact .inl (hvs ▸ List.prefix_rfl)
    · rw [List.concat_eq_append, ← List.append_assoc] at hvs
      obtain ⟨rfl, hab⟩ := List.append_inj' hvs rfl
      obtain rfl := List.singleton_inj.1 hab
      rw [List.append_assoc] at h
      exact .inr ⟨ws, rfl, (List.prefix_append_right_inj xs).1 h⟩

theorem concat_prefix_singleton {α : Type} {us : List α} {a b : α} (h : us ++ [a] <+: [b]) :
    us = [] ∧ a = b := by
  cases us with
  | nil => exact ⟨rfl, List.singleton_inj.1 (h.eq_of_length rfl)⟩
  | cons c us => simpa using h.length_le

namespace Descent

/-- All activations of a descent end, and every event fits if so many activations are open before
all of them. -/
structure Traced {α : Type} (ls : List Lexeme) (count : Int) (post : α → Prop) (x : Descent α) :
    Prop where
  ended : openActivations x.trace = 0
  fits : ∀ us e, us ++ [e] <+: x.trace → e.Fits ls (count + openActivations us)
  post : ∀ a, x.result = .ok a → post a

section

variable {α β : Type} {ls : List Lexeme} {count : Int} {post : α → Prop} {post' : β → Prop}
  {x : Descent α} {f : α → Descent β} {p : Nat}

theorem Traced.pure {a : α} (h : post a) : (Pure.pure a : Descent α).Traced ls count post where
  ended := rfl
  fits us e hus := absurd (List.prefix_nil.1 hus) (by simp)
  post b hb := by
    rw [← Except.ok.inj hb]
    exact h

theorem Traced.halt (e : Halt) : (halt e : Descent α).Traced ls count post where
  ended := rfl
  fits us e hus := absurd (List.prefix_nil.1 hus) (by simp)
  post := nofun

theorem traced_note {e : Event} (hchange : e.change = 0) (hfits : e.Fits ls count) :
    (note e).Traced ls count fun _ => True where
  ended := (Int.add_zero _).trans hchange
  fits us e' hus := by
    obtain ⟨rfl, rfl⟩ := concat_prefix_singleton hus
    rw [openActivations, Int.add_zero]
    exact hfits
  post _ _ := trivial

theorem Traced.bind (h : x.Traced ls count post)
    (hf : ∀ a, post a → (f a).Traced ls count post') : (x >>= f).Traced ls count post' := by
  cases hx : x.result with
  | error e =>
    rw [bind_of_error hx]
    exact ⟨h.ended, h.fits, nofun⟩
  | ok a =>
    have hf := hf a (h.post a hx)
    rw [bind_of_ok hx]
    refine ⟨?_, fun us e hus => ?_, hf.post⟩
    · rw [openActivations_append, h.ended, hf.ended]
      rfl
    · rcases prefix_concat_append hus with hus | ⟨vs, rfl, hvs⟩
      · exact h.fits us e hus
      · rw [openActivations_append, h.ended, Int.zero_add]
        exact hf.fits vs e hvs

theorem Traced.activation (h : x.Traced ls (openParentheses ls p + 1) post) :
    (activation p x).Traced ls (openParentheses ls p) post := by
  have htrace : (Descent.activation p x).trace =
      [.start ⟨.activation, p⟩] ++ (x.trace ++ [.finish]) := rfl
  refine ⟨?_, fun us e hus => ?_, h.post⟩
  · rw [htrace, openActivations_append, openActivations_append, h.ended]
    rfl
  · rw [htrace] at hus
    rcases prefix_concat_append hus with hus | ⟨vs, rfl, hvs⟩
    · obtain ⟨rfl, rfl⟩ := concat_prefix_singleton hus
      exact Int.add_zero _
    · rw [openActivations_append, ← Int.add_assoc]
      rcases prefix_concat_append hvs with hvs | ⟨ws, rfl, hws⟩
      · exact h.fits vs e hvs
      · obtain ⟨-, rfl⟩ := concat_prefix_singleton hws
        trivial

end

end Descent

def Routine.depth (ls : List Lexeme) : Routine → Nat → Int
  | .chain .sum, p => openParentheses ls p
  | .chain .product, p | .rounds _ _, p | .primary, p => openParentheses ls p + 1

theorem depth_operand (ls : List Lexeme) (tier : Tier) (p : Nat) :
    tier.operand.depth ls p = openParentheses ls p + 1 := by
  cases tier <;> rfl

def Keeps (ls : List Lexeme) (budget : Option Nat) (routine : Routine) (p : Nat) : Prop :=
  (descend ls budget routine p).Traced ls (routine.depth ls p) fun r =>
    openParentheses ls r.place = openParentheses ls p

section

variable {ls : List Lexeme} {budget : Option Nat} {tier : Tier} {p : Nat}

theorem traced_activate {α : Type} {post : α → Prop} {body : Option Nat → Descent α}
    (h : ∀ budget, (body budget).Traced ls (openParentheses ls p + 1) post) :
    (tier.activate budget p body).Traced ls ((Routine.chain tier).depth ls p) post := by
  cases tier with
  | product => exact h budget
  | sum =>
    rcases budget with _ | _ | b
    · exact (h none).activation
    · exact .halt _
    · exact (h (some b)).activation

theorem traced_closing {inner : Reached (p + 1)} {count : Int}
    (h : openParentheses ls inner.place = openParentheses ls p + 1) :
    (closing ls inner).Traced ls count fun r =>
      openParentheses ls r.place = openParentheses ls p := by
  rw [closing]
  split
  · next position hl =>
    refine .pure ?_
    rw [openParentheses_closing hl, h]
    exact Int.add_sub_cancel _ _
  · exact .halt _
  · next hl =>
    have hend : openParentheses ls ls.length = openParentheses ls p + 1 := by
      rw [← openParentheses_end hl, h]
    refine (Descent.traced_note rfl ?_).bind fun _ _ => .halt _
    exact hend

theorem traced_thenRounds {q : Nat} (hle : p ≤ q) {complete : Formula → Formula}
    {x : Descent (Reached q)} {count : Int}
    (hx : x.Traced ls (count + 1) fun r => openParentheses ls r.place = count)
    (hrounds : ∀ left r, q ≤ r → Keeps ls budget (.rounds tier left) r) :
    (thenRounds ls budget tier hle complete x).Traced ls (count + 1)
      fun r => openParentheses ls r.place = count := by
  refine hx.bind fun a ha => ?_
  have hrest := hrounds (complete a.formula) a.place a.leads
  simp only [Keeps, Routine.depth, ha] at hrest
  exact hrest.bind fun whole hwhole => .pure hwhole

variable (ls) in
theorem keeps (budget : Option Nat) (routine : Routine) (p : Nat) : Keeps ls budget routine p := by
  induction routine, p using descent_induction ls generalizing budget with
  | chain tier p hoperand hrounds =>
    simp only [Keeps, depth_operand] at hoperand
    rw [Keeps, descend_chain]
    exact traced_activate fun budget =>
      traced_thenRounds le_rfl (hoperand budget) fun left q hq => hrounds left q hq budget
  | rounds tier left p hoperand hrounds =>
    rw [Keeps, descend_rounds]
    have hround : (Event.start ⟨.round tier, p⟩).Fits ls (openParentheses ls p + 1) := rfl
    refine (Descent.traced_note rfl hround).bind fun _ _ => ?_
    cases hop : operatorAt? ls tier p with
    | none => exact .pure rfl
    | some op =>
      have hp := lt_of_operatorAt? hop
      obtain ⟨-, position, hl⟩ := operatorAt?_eq_some_iff.1 hop
      have hright := hoperand hp budget
      simp only [Keeps, depth_operand, openParentheses_operator hl] at hright
      exact traced_thenRounds (Nat.le_succ p) hright fun left q hq => hrounds hp left q hq budget
  | primary p hinner =>
    rw [Keeps, descend_primary]
    cases hl : ls[p]? with
    | none => exact .halt _
    | some l =>
      obtain ⟨token, position⟩ := l
      cases token with
      | number value => exact .pure (openParentheses_number hl)
      | operator op => exact .halt _
      | closing => exact .halt _
      | opening =>
        have hinside := hinner (lt_of_getElem? hl) budget
        simp only [Keeps, Routine.depth, openParentheses_opening hl] at hinside
        exact hinside.bind fun inner hinner => traced_closing hinner

variable (ls budget) in
theorem traced_readAll : (readAll ls budget).Traced ls 0 fun _ => True := by
  refine (keeps ls budget (.chain .sum) 0).bind fun whole hwhole => ?_
  cases ls[whole.place]? with
  | none => exact .pure trivial
  | some l =>
    refine (Descent.traced_note rfl ?_).bind fun _ _ => .halt _
    exact hwhole

end

/-! ### Balanced parentheses -/

namespace Balanced

variable {ls : List Lexeme} (h : Balanced (ls.map Lexeme.token))

include h

theorem openParentheses_nonneg (p : Nat) : 0 ≤ openParentheses ls p := by
  have hprefix := h.opened _ ((List.take_prefix p ls).map Lexeme.token)
  rw [openParentheses]
  omega

theorem openParentheses_le (p : Nat) : openParentheses ls p ≤ maxNesting := by
  have hprefix := h.shallow _ ((List.take_prefix p ls).map Lexeme.token)
  rw [openParentheses]
  omega

theorem openParentheses_length : openParentheses ls ls.length = 0 := by
  have hclosed := h.closed
  rw [openParentheses, List.take_length]
  omega

variable {es : List Event} (hfits : ∀ us e, us ++ [e] <+: es → e.Fits ls (openActivations us))

include hfits

theorem openActivations_le {us : List Event} (hus : us <+: es) :
    openActivations us ≤ maxNesting + 1 := by
  induction us using List.reverseRecOn with
  | nil =>
    change 0 ≤ (maxNesting : Int) + 1
    omega
  | append_singleton us e ih =>
    have hbefore := ih ((List.prefix_append us [e]).trans hus)
    have hfit := hfits us e hus
    have hchange : openActivations [e] = e.change := Int.add_zero _
    rw [openActivations_append, hchange]
    rcases e with ⟨_ | _, p⟩ | _ | p | p
    · have hle := h.openParentheses_le p
      simp only [Event.Fits, Event.change] at hfit ⊢
      omega
    all_goals
      simp only [Event.change]
      omega

theorem not_unclosed (p : Nat) : .unclosed p ∉ es := by
  intro hmem
  obtain ⟨us, vs, rfl⟩ := List.append_of_mem hmem
  have hfit : openParentheses ls ls.length = openParentheses ls p + 1 :=
    hfits us (.unclosed p) ⟨vs, by simp⟩
  have hnonneg := h.openParentheses_nonneg p
  rw [h.openParentheses_length] at hfit
  omega

theorem not_leftover {p : Nat} (hmem : .leftover p ∈ es) (position : Nat) :
    ls[p]? ≠ some ⟨.closing, position⟩ := by
  intro hl
  obtain ⟨us, vs, rfl⟩ := List.append_of_mem hmem
  have hfit : openParentheses ls p = 0 := hfits us (.leftover p) ⟨vs, by simp⟩
  have hnonneg := h.openParentheses_nonneg (p + 1)
  rw [openParentheses_closing hl, hfit] at hnonneg
  omega

end Balanced

section

variable {ls : List Lexeme} {tier : Tier} {p : Nat}

/-- A budget that the operand does not exhaust is as good as none if the rounds do not exhaust it
either. -/
theorem thenRounds_within {q b : Nat} (hle : p ≤ q) {complete : Formula → Formula}
    {x y : Descent (Reached q)} (hx : x = y)
    (hrounds : ∀ a, y.result = .ok a → descend ls (some b) (.rounds tier (complete a.formula))
      a.place = descend ls none (.rounds tier (complete a.formula)) a.place) :
    thenRounds ls (some b) tier hle complete x = thenRounds ls none tier hle complete y := by
  rw [hx]
  exact Descent.bind_congr fun a ha => by rw [hrounds a ha]

/-- A budget for the activations that parentheses leave room for is never exhausted. -/
theorem descend_within (h : Balanced (ls.map Lexeme.token)) (routine : Routine) (p b : Nat)
    (hb : maxNesting + 1 ≤ routine.depth ls p + b) :
    descend ls (some b) routine p = descend ls none routine p := by
  induction routine, p using descent_induction ls generalizing b with
  | chain tier p hoperand hrounds =>
    have hkeeps := (keeps ls none tier.operand p).post
    have hbody (b : Nat) (hb : maxNesting + 1 ≤ openParentheses ls p + 1 + b) :
        thenRounds ls (some b) tier le_rfl id (descend ls (some b) tier.operand p) =
          thenRounds ls none tier (le_refl p) id (descend ls none tier.operand p) := by
      refine thenRounds_within le_rfl (hoperand b (by rwa [depth_operand])) fun first hfirst => ?_
      exact hrounds _ _ first.leads b (by rwa [Routine.depth, hkeeps first hfirst])
    rw [descend_chain, descend_chain]
    cases tier with
    | product => exact hbody b hb
    | sum =>
      have hle := h.openParentheses_le p
      simp only [Routine.depth] at hb
      cases b with
      | zero => omega
      | succ b => exact congrArg (Descent.activation p) (hbody b (by omega))
  | rounds tier left p hoperand hrounds =>
    rw [descend_rounds, descend_rounds]
    cases hop : operatorAt? ls tier p with
    | none => rfl
    | some op =>
      have hp := lt_of_operatorAt? hop
      obtain ⟨-, position, hl⟩ := operatorAt?_eq_some_iff.1 hop
      have hkeeps := (keeps ls none tier.operand (p + 1)).post
      rw [Routine.depth, ← openParentheses_operator hl] at hb
      refine Descent.bind_congr fun _ _ => thenRounds_within (Nat.le_succ p)
        (hoperand hp b (by rwa [depth_operand])) fun right hright => ?_
      exact hrounds hp _ _ right.leads b (by rwa [Routine.depth, hkeeps right hright])
  | primary p hinner =>
    rw [descend_primary, descend_primary]
    cases hl : ls[p]? with
    | none => rfl
    | some l =>
      obtain ⟨token, position⟩ := l
      cases token with
      | number value => rfl
      | operator op => rfl
      | closing => rfl
      | opening =>
        rw [Routine.depth, ← openParentheses_opening hl] at hb
        dsimp only
        rw [hinner (lt_of_getElem? hl) b hb]

theorem readAll_within (h : Balanced (ls.map Lexeme.token)) :
    readAll ls (some (maxNesting + 1)) = readAll ls none := by
  have hb : maxNesting + 1 ≤ (Routine.chain .sum).depth ls 0 + (maxNesting + 1 : Nat) :=
    Int.le_of_eq (Int.zero_add _).symm
  rw [readAll, descend_within h (.chain .sum) 0 (maxNesting + 1) hb, readAll]

end

/-! ### Whole texts -/

theorem starts_readAll (ls : List Lexeme) (budget : Option Nat) :
    starts (readAll ls budget).trace = starts (descend ls budget (.chain .sum) 0).trace := by
  rw [readAll]
  cases hresult : (descend ls budget (.chain .sum) 0).result with
  | error e => rw [Descent.bind_of_error hresult]
  | ok whole =>
    rw [Descent.bind_of_ok hresult, starts_append]
    cases ls[whole.place]? with
    | none => exact List.append_nil _
    | some l => exact List.append_nil _

/-- Reading by descent comes to what the reader does on all tokens. Each start comes after the one
before, and where an activation starts, as many are open as there are parentheses open. If these are
balanced, at most one activation more is open at one time than parentheses may be, a budget of that
many changes nothing, and no parenthesis is found to be without another. So every text is read as by
`parse`, with that budget or without. -/
theorem recursion_bounded :
    (∀ ls, (readAll ls none).result = (ofLexemes ls).mapError .refused ∧
      (starts (readAll ls none).trace).Pairwise (Start.Before ls) ∧
      ∀ us p, us ++ [.start ⟨.activation, p⟩] <+: (readAll ls none).trace →
        openActivations us = openParentheses ls p) ∧
    (∀ ls, checkNesting 0 ls = .ok () →
      (∀ us, us <+: (readAll ls none).trace → openActivations us ≤ maxNesting + 1) ∧
      readAll ls (some (maxNesting + 1)) = readAll ls none ∧
      (∀ p, .unclosed p ∉ (readAll ls none).trace) ∧
      ∀ p position, .leftover p ∈ (readAll ls none).trace →
        ls[p]? ≠ some ⟨.closing, position⟩) ∧
    ∀ text, parseWithin none text = (parse text).mapError .refused ∧
      parseWithin (some (maxNesting + 1)) text = (parse text).mapError .refused := by
  have hbalanced (ls : List Lexeme) (h : checkNesting 0 ls = .ok ()) :
      Balanced (ls.map Lexeme.token) :=
    (nests_iff_balanced _).1 ((checkNesting_eq_ok_iff 0 ls).1 h)
  have hfits (ls : List Lexeme) (us : List Event) (e : Event)
      (hus : us ++ [e] <+: (readAll ls none).trace) : e.Fits ls (openActivations us) :=
    Int.zero_add (openActivations us) ▸ (traced_readAll ls none).fits us e hus
  refine ⟨fun ls => ⟨result_readAll ls, ?_, fun us p hus => hfits ls us _ hus⟩, fun ls h => ?_,
    fun text => ⟨?_, ?_⟩⟩
  · rw [starts_readAll]
    exact (ordered_descend ls none (.chain .sum) 0).ordered
  · have h := hbalanced ls h
    exact ⟨fun us => h.openActivations_le (hfits ls), readAll_within h, h.not_unclosed (hfits ls),
      fun p position hmem => h.not_leftover (hfits ls) hmem position⟩
  · exact parseWithin_eq (fun ls _ => result_readAll ls) text
  · refine parseWithin_eq (fun ls h => ?_) text
    rw [readAll_within (hbalanced ls h), result_readAll]

def brokenGroup : List Lexeme :=
  [⟨.opening, 0⟩, ⟨.number 1, 1⟩, ⟨.operator .add, 3⟩, ⟨.closing, 4⟩]

/-- The parentheses are balanced, and the expression in them is not complete. -/
theorem recursion_bounded_broken :
    (∀ us, us <+: (readAll brokenGroup none).trace → openActivations us ≤ maxNesting + 1) ∧
    (readAll brokenGroup (some (maxNesting + 1))).result =
      .error (.refused (.unexpected .closing 4)) := by
  obtain ⟨hread, hbalanced, -⟩ := recursion_bounded
  obtain ⟨hbounded, hwithin, -⟩ := hbalanced brokenGroup rfl
  refine ⟨hbounded, ?_⟩
  rw [hwithin, (hread brokenGroup).1]
  rfl

end FormulaLedger.Formula
