import FormulaLedger.Proofs.Formula.Offences

/-!
Reading by recursive descent. There is a routine for chains of operands at each tier of operators,
and one for a single operand, and parentheses lead from the last back to the first. A descent keeps
a trace of what it does, and the activations that are nested in it can be limited by a budget.
Without a limit it ends on all tokens as the reader does that goes over them once.
-/

set_option autoImplicit false

namespace FormulaLedger.Formula

inductive Tier
  | sum
  | product
  deriving DecidableEq, Repr

def Tier.of (op : Operator) : Tier := if op.isAdditive then .sum else .product

/-- What a descent starts: an activation of the routine for sums, or a round in which it looks for
an operator of a tier. -/
inductive Stage
  | activation
  | round (tier : Tier)
  deriving DecidableEq, Repr

/-- The place counts the tokens that were taken before. -/
structure Start where
  stage : Stage
  place : Nat
  deriving DecidableEq, Repr

inductive Event
  | start (s : Start)
  | finish
  /-- The tokens end where the parenthesis of a place should be closed. -/
  | unclosed (place : Nat)
  /-- The whole expression ends before the token of a place. -/
  | leftover (place : Nat)
  deriving DecidableEq, Repr

inductive Halt
  | refused (e : ParseError)
  | exhausted
  deriving DecidableEq, Repr

structure Descent (α : Type) where
  trace : List Event
  result : Except Halt α

namespace Descent

variable {α β : Type}

instance : Monad Descent where
  pure a := ⟨[], .ok a⟩
  bind x f :=
    match x.result with
    | .ok a => ⟨x.trace ++ (f a).trace, (f a).result⟩
    | .error e => ⟨x.trace, .error e⟩

def note (e : Event) : Descent Unit := ⟨[e], .ok ()⟩

def halt (e : Halt) : Descent α := ⟨[], .error e⟩

def activation (p : Nat) (x : Descent α) : Descent α :=
  ⟨.start ⟨.activation, p⟩ :: x.trace ++ [.finish], x.result⟩

theorem bind_of_ok {x : Descent α} {a : α} (h : x.result = .ok a) (f : α → Descent β) :
    x >>= f = ⟨x.trace ++ (f a).trace, (f a).result⟩ := by
  obtain ⟨trace, _⟩ := x
  subst h
  rfl

theorem bind_of_error {x : Descent α} {e : Halt} (h : x.result = .error e) (f : α → Descent β) :
    x >>= f = ⟨x.trace, .error e⟩ := by
  obtain ⟨trace, _⟩ := x
  subst h
  rfl

theorem result_bind (x : Descent α) (f : α → Descent β) :
    (x >>= f).result = x.result.bind fun a => (f a).result := by
  cases hx : x.result with
  | ok a => rw [bind_of_ok hx]; rfl
  | error e => rw [bind_of_error hx]; rfl

theorem bind_congr {x : Descent α} {f g : α → Descent β}
    (h : ∀ a, x.result = .ok a → f a = g a) : x >>= f = x >>= g := by
  cases hx : x.result with
  | ok a => rw [bind_of_ok hx, bind_of_ok hx, h a hx]
  | error e => rw [bind_of_error hx, bind_of_error hx]

end Descent

structure Reached (p : Nat) where
  formula : Formula
  place : Nat
  leads : p ≤ place

def Reached.since {p q : Nat} (r : Reached q) (h : p ≤ q) : Reached p :=
  ⟨r.formula, r.place, h.trans r.leads⟩

/-- The routines of a descent. A chain is its first operand and the rounds after it, each of which
takes an operator and an operand to go with the formula to the left. -/
inductive Routine
  | chain (tier : Tier)
  | rounds (tier : Tier) (left : Formula)
  | primary

namespace Routine

/-- At one place a routine only calls those of a lower rank. -/
def rank : Routine → Nat
  | .chain .sum => 2
  | .chain .product => 1
  | .rounds _ _ | .primary => 0

end Routine

namespace Tier

def operand : Tier → Routine
  | .sum => .chain .product
  | .product => .primary

theorem rank_operand (tier : Tier) : tier.operand.rank < (Routine.chain tier).rank := by
  cases tier <;> decide

theorem rank_rounds (tier : Tier) (left : Formula) :
    (Routine.rounds tier left).rank < (Routine.chain tier).rank := by
  cases tier <;> exact Nat.zero_lt_succ _

/-- Only the chains of sums count as activations. -/
def activate {α : Type} (tier : Tier) (budget : Option Nat) (p : Nat)
    (body : Option Nat → Descent α) : Descent α :=
  match tier, budget with
  | .product, budget => body budget
  | .sum, none => .activation p (body none)
  | .sum, some 0 => .halt .exhausted
  | .sum, some (b + 1) => .activation p (body (some b))

end Tier

def operatorAt? (ls : List Lexeme) (tier : Tier) (p : Nat) : Option Operator :=
  match ls[p]? with
  | some ⟨.operator op, _⟩ => if Tier.of op = tier then some op else none
  | _ => none

section

variable {ls : List Lexeme} {p q : Nat}

theorem lt_of_getElem? {l : Lexeme} (h : ls[p]? = some l) : p < ls.length :=
  (List.getElem?_eq_some_iff.1 h).1

theorem operatorAt?_eq_some_iff {tier : Tier} {op : Operator} :
    operatorAt? ls tier p = some op ↔
      Tier.of op = tier ∧ ∃ position, ls[p]? = some ⟨.operator op, position⟩ := by
  rw [operatorAt?]
  split
  · next op' position hl =>
    rw [hl, Option.ite_none_right_eq_some]
    constructor
    · rintro ⟨htier, heq⟩
      obtain rfl := Option.some.inj heq
      exact ⟨htier, position, rfl⟩
    · rintro ⟨htier, position', heq⟩
      obtain ⟨heq, -⟩ := Lexeme.mk.inj (Option.some.inj heq)
      obtain rfl := Token.operator.inj heq
      exact ⟨htier, rfl⟩
  · next hne => exact iff_of_false nofun fun ⟨_, position, hl⟩ => hne op position hl

theorem lt_of_operatorAt? {tier : Tier} {op : Operator} (h : operatorAt? ls tier p = some op) :
    p < ls.length := by
  obtain ⟨-, position, hp⟩ := operatorAt?_eq_some_iff.1 h
  exact lt_of_getElem? hp

theorem precedes_of_rank {r r' : Routine} (hle : p ≤ q) (hrank : r'.rank < r.rank) :
    Prod.Lex (· < ·) (· < ·) (ls.length - q, r'.rank) (ls.length - p, r.rank) := by
  rw [Prod.lex_def]
  dsimp only
  omega

theorem precedes_of_lt {r r' : Routine} (hp : p < ls.length) (hlt : p < q) :
    Prod.Lex (· < ·) (· < ·) (ls.length - q, r'.rank) (ls.length - p, r.rank) := by
  rw [Prod.lex_def]
  dsimp only
  omega

end

section

variable (ls : List Lexeme)

def closing {p : Nat} (inner : Reached (p + 1)) : Descent (Reached p) :=
  match ls[inner.place]? with
  | some ⟨.closing, _⟩ =>
    return ⟨inner.formula, inner.place + 1, (Nat.le_of_succ_le inner.leads).trans (Nat.le_succ _)⟩
  | some ⟨token, position⟩ => .halt (.refused (.unexpected token position))
  | none => do
    Descent.note (.unclosed p)
    .halt (.refused .incomplete)

def descend (budget : Option Nat) (routine : Routine) (p : Nat) : Descent (Reached p) :=
  match routine with
  | .chain tier => tier.activate budget p fun budget => do
    let first ← descend budget tier.operand p
    let whole ← descend budget (.rounds tier first.formula) first.place
    return whole.since first.leads
  | .rounds tier left => do
    Descent.note (.start ⟨.round tier, p⟩)
    match _h : operatorAt? ls tier p with
    | none => return ⟨left, p, le_rfl⟩
    | some op =>
      let right ← descend budget tier.operand (p + 1)
      let whole ← descend budget (.rounds tier (.binary op left right.formula)) right.place
      return whole.since ((Nat.le_succ p).trans right.leads)
  | .primary =>
    match _h : ls[p]? with
    | some ⟨.number value, _⟩ => return ⟨.number value, p + 1, Nat.le_succ p⟩
    | some ⟨.opening, _⟩ => do
      let inner ← descend budget (.chain .sum) (p + 1)
      closing ls inner
    | some ⟨token, position⟩ => .halt (.refused (.unexpected token position))
    | none => .halt (.refused .incomplete)
termination_by (ls.length - p, routine.rank)
decreasing_by
  · exact precedes_of_rank le_rfl tier.rank_operand
  · exact precedes_of_rank first.leads (tier.rank_rounds _)
  · exact precedes_of_lt (lt_of_operatorAt? _h) (Nat.lt_succ_self p)
  · exact precedes_of_lt (lt_of_operatorAt? _h) right.leads
  · exact precedes_of_lt (lt_of_getElem? _h) (Nat.lt_succ_self p)

@[elab_as_elim]
theorem descent_induction {motive : Routine → Nat → Prop}
    (chain : ∀ tier p, motive tier.operand p →
      (∀ left q, p ≤ q → motive (.rounds tier left) q) → motive (.chain tier) p)
    (rounds : ∀ tier left p, (p < ls.length → motive tier.operand (p + 1)) →
      (p < ls.length → ∀ left q, p < q → motive (.rounds tier left) q) →
      motive (.rounds tier left) p)
    (primary : ∀ p, (p < ls.length → motive (.chain .sum) (p + 1)) → motive .primary p)
    (routine : Routine) (p : Nat) : motive routine p :=
  match routine with
  | .chain tier => chain tier p (descent_induction chain rounds primary tier.operand p)
      fun left q _ => descent_induction chain rounds primary (.rounds tier left) q
  | .rounds tier left => rounds tier left p
      (fun _ => descent_induction chain rounds primary tier.operand (p + 1))
      fun _ left q _ => descent_induction chain rounds primary (.rounds tier left) q
  | .primary => primary p fun _ => descent_induction chain rounds primary (.chain .sum) (p + 1)
termination_by (ls.length - p, routine.rank)
decreasing_by
  · exact precedes_of_rank le_rfl tier.rank_operand
  · exact precedes_of_rank ‹_› (tier.rank_rounds _)
  · exact precedes_of_lt ‹_› (Nat.lt_succ_self p)
  · exact precedes_of_lt ‹_› ‹_›
  · exact precedes_of_lt ‹_› (Nat.lt_succ_self p)

def readAll (budget : Option Nat) : Descent Formula := do
  let whole ← descend ls budget (.chain .sum) 0
  match ls[whole.place]? with
  | none => return whole.formula
  | some ⟨token, position⟩ =>
    Descent.note (.leftover whole.place)
    .halt (.refused (.unexpected token position))

/-! ### One routine -/

def thenRounds (budget : Option Nat) (tier : Tier) {p q : Nat} (hle : p ≤ q)
    (complete : Formula → Formula) (operand : Descent (Reached q)) : Descent (Reached p) := do
  let a ← operand
  let whole ← descend ls budget (.rounds tier (complete a.formula)) a.place
  return whole.since (hle.trans a.leads)

section

variable (budget : Option Nat) (tier : Tier) (left : Formula) (p : Nat)

theorem descend_chain : descend ls budget (.chain tier) p =
    tier.activate budget p fun budget =>
      thenRounds ls budget tier le_rfl id (descend ls budget tier.operand p) := by
  rw [descend]
  rfl

theorem descend_rounds : descend ls budget (.rounds tier left) p = (do
    Descent.note (.start ⟨.round tier, p⟩)
    match operatorAt? ls tier p with
    | none => return ⟨left, p, le_rfl⟩
    | some op =>
      thenRounds ls budget tier (Nat.le_succ p) (.binary op left)
        (descend ls budget tier.operand (p + 1))) := by
  rw [descend]
  congr 1
  funext _
  split
  · next h => rw [h]
  · next h => rw [h]; rfl

theorem descend_primary : descend ls budget .primary p =
    match ls[p]? with
    | some ⟨.number value, _⟩ => return ⟨.number value, p + 1, Nat.le_succ p⟩
    | some ⟨.opening, _⟩ => do
      let inner ← descend ls budget (.chain .sum) (p + 1)
      closing ls inner
    | some ⟨token, position⟩ => .halt (.refused (.unexpected token position))
    | none => .halt (.refused .incomplete) := by
  rw [descend.eq_def ls budget .primary p]
  dsimp only
  split
  · next h => rw [h]
  · next h => rw [h]
  · next token position hnumber hopening h =>
    rw [h]
    cases token with
    | number value => exact absurd rfl (hnumber value)
    | opening => exact absurd rfl hopening
    | operator op => rfl
    | closing => rfl
  · next h => rw [h]

end

end

/-! ### The reader that goes over the tokens once -/

section

variable (ls : List Lexeme)

def resume (r : Reading) (p : Nat) : Except Halt Formula :=
  ((ls.drop p).foldlM Reading.step r >>= Reading.finish).mapError .refused

namespace Tier

def Clear (tier : Tier) (frame : Frame) : Prop :=
  frame.product = none ∧ (tier = .sum → frame.sum = none)

def Settled (tier : Tier) (p : Nat) : Prop := tier = .sum → operatorAt? ls .product p = none

structure Ends (tier : Tier) (p : Nat) : Prop where
  settled : tier.Settled ls p
  none : operatorAt? ls tier p = none

end Tier

def Reached.resume {p : Nat} (r : Reached p) (frame : Frame) (outer : List Frame) :
    Except Halt Formula :=
  Formula.resume ls ⟨frame, outer, some r.formula⟩ r.place

/-- An outcome is that of a chain from where the reader is before. -/
structure Guides {p : Nat} (tier : Tier) (before : Frame → List Frame → Except Halt Formula)
    (x : Except Halt (Reached p)) : Prop where
  ends : ∀ r, x = .ok r → tier.Ends ls r.place
  leads : ∀ frame outer, tier.Clear frame → before frame outer = x.bind (·.resume ls frame outer)

/-- The reader comes to the same from where a routine starts as from where it ends. -/
def Routine.Agrees : Routine → Nat → Prop
  | .chain tier, p => Guides ls tier (fun frame outer => Formula.resume ls ⟨frame, outer, none⟩ p)
    (descend ls none (.chain tier) p).result
  | .rounds tier left, p => tier.Settled ls p →
    Guides ls tier (fun frame outer => Formula.resume ls ⟨frame, outer, some left⟩ p)
      (descend ls none (.rounds tier left) p).result
  | .primary, p => ∀ frame outer, Formula.resume ls ⟨frame, outer, none⟩ p =
    (descend ls none .primary p).result.bind (·.resume ls frame outer)

section

variable {ls} {frame : Frame} {outer : List Frame} {tier : Tier} {op : Operator}
  {left right : Formula} {p q : Nat}

theorem resume_of_none (h : ls[p]? = none) (r : Reading) :
    resume ls r p = r.finish.mapError .refused := by
  rw [resume, List.drop_eq_nil_of_le (List.getElem?_eq_none_iff.1 h)]
  rfl

theorem resume_of_some {l : Lexeme} (h : ls[p]? = some l) (r : Reading) : resume ls r p =
    ((r.step l).mapError .refused).bind fun r' => resume ls r' (p + 1) := by
  obtain ⟨hp, rfl⟩ := List.getElem?_eq_some_iff.1 h
  rw [resume, List.drop_eq_getElem_cons hp, List.foldlM_cons]
  cases r.step ls[p] with
  | ok r' => rfl
  | error e => rfl

theorem resume_operator {position : Nat} (h : ls[p]? = some ⟨.operator op, position⟩) :
    resume ls ⟨frame, outer, some left⟩ p = resume ls ⟨frame.extend left op, outer, none⟩ (p + 1) :=
  resume_of_some h _

theorem resume_closing {position : Nat} (h : ls[p]? = some ⟨.closing, position⟩) (around : Frame) :
    resume ls ⟨frame, around :: outer, some left⟩ p =
      resume ls ⟨around, outer, some (frame.close left)⟩ (p + 1) :=
  resume_of_some h _

theorem operatorAt?_of {position : Nat} (h : ls[p]? = some ⟨.operator op, position⟩) :
    operatorAt? ls (.of op) p = some op :=
  operatorAt?_eq_some_iff.2 ⟨rfl, position, h⟩

theorem Tier.Ends.ne_operator (h : Tier.sum.Ends ls p) (op : Operator) (position : Nat) :
    ls[p]? ≠ some ⟨.operator op, position⟩ := by
  intro hl
  have hfound := operatorAt?_of hl
  cases htier : Tier.of op with
  | sum => rw [htier, h.none] at hfound; contradiction
  | product => rw [htier, h.settled rfl] at hfound; contradiction

theorem extend_of_sum (h : Tier.of op = .sum) :
    frame.extend left op = ⟨some (frame.close left, op), none⟩ := by
  cases op with
  | add | subtract => rfl
  | multiply | divide => contradiction

theorem extend_of_product (h : Tier.of op = .product) :
    frame.extend left op = ⟨frame.sum, some (frame.product.apply left, op)⟩ := by
  cases op with
  | add | subtract => contradiction
  | multiply | divide => rfl

theorem close_extend (left right : Formula) (hclear : (Tier.of op).Clear frame) :
    (frame.extend left op).close right = frame.close (.binary op left right) := by
  obtain ⟨sum, product⟩ := frame
  obtain ⟨rfl, hsum⟩ := hclear
  cases hop : Tier.of op with
  | sum =>
    obtain rfl := hsum hop
    rw [extend_of_sum hop]
    rfl
  | product =>
    rw [extend_of_product hop]
    rfl

theorem extend_extend {next : Operator} (hclear : (Tier.of op).Clear frame)
    (hnext : Tier.of op = .sum → Tier.of next ≠ .product) :
    (frame.extend left op).extend right next = frame.extend (.binary op left right) next := by
  have hclose := close_extend left right hclear
  cases hkind : Tier.of next with
  | sum => rw [extend_of_sum hkind, extend_of_sum hkind, hclose]
  | product =>
    cases hop : Tier.of op with
    | sum => exact absurd hkind (hnext hop)
    | product =>
      rw [extend_of_product hkind, extend_of_product hkind, extend_of_product hop, hclear.1]
      rfl

theorem resume_extend (hclear : (Tier.of op).Clear frame) (hsettled : (Tier.of op).Settled ls q) :
    resume ls ⟨frame.extend left op, outer, some right⟩ q =
      resume ls ⟨frame, outer, some (.binary op left right)⟩ q := by
  have hclose := close_extend left right hclear
  cases hl : ls[q]? with
  | none =>
    rw [resume_of_none hl, resume_of_none hl]
    cases outer with
    | nil => exact congrArg Except.ok hclose
    | cons => rfl
  | some l =>
    obtain ⟨token, position⟩ := l
    cases token with
    | number value => rw [resume_of_some hl, resume_of_some hl]; rfl
    | opening => rw [resume_of_some hl, resume_of_some hl]; rfl
    | closing =>
      cases outer with
      | nil => rw [resume_of_some hl, resume_of_some hl]; rfl
      | cons => rw [resume_closing hl, resume_closing hl, hclose]
    | operator next =>
      have hnext : Tier.of op = .sum → Tier.of next ≠ .product := fun hsum hproduct => by
        have hfound := operatorAt?_of hl
        rw [hproduct, hsettled hsum] at hfound
        contradiction
      rw [resume_operator hl, resume_operator hl, extend_extend hclear hnext]

theorem resume_closed {inner : Reached (p + 1)} (hends : Tier.sum.Ends ls inner.place)
    (frame : Frame) (outer : List Frame) : inner.resume ls .fresh (frame :: outer) =
      (closing ls inner).result.bind (·.resume ls frame outer) := by
  rw [Reached.resume, closing]
  cases hl : ls[inner.place]? with
  | none => exact resume_of_none hl _
  | some l =>
    obtain ⟨token, position⟩ := l
    cases token with
    | number value => exact resume_of_some hl _
    | opening => exact resume_of_some hl _
    | closing => exact resume_closing hl _
    | operator op => exact absurd hl (hends.ne_operator op position)

theorem result_thenRounds (budget : Option Nat) (hle : p ≤ q) (complete : Formula → Formula)
    (x : Descent (Reached q)) : (thenRounds ls budget tier hle complete x).result =
      x.result.bind fun a =>
        (descend ls budget (.rounds tier (complete a.formula)) a.place).result.map
          (·.since (hle.trans a.leads)) := by
  rw [thenRounds, Descent.result_bind]
  simp only [Descent.result_bind]
  rfl

theorem guides_thenRounds {before : Frame → List Frame → Except Halt Formula}
    {complete : Formula → Formula} {x : Descent (Reached q)} (hle : p ≤ q)
    (hsettled : ∀ a, x.result = .ok a → tier.Settled ls a.place)
    (hleads : ∀ frame outer, tier.Clear frame → before frame outer = x.result.bind fun a =>
      resume ls ⟨frame, outer, some (complete a.formula)⟩ a.place)
    (hrounds : ∀ left r, q ≤ r → (Routine.rounds tier left).Agrees ls r) :
    Guides ls tier before (thenRounds ls none tier hle complete x).result := by
  rw [result_thenRounds]
  cases hx : x.result with
  | error e =>
    rw [hx] at hleads
    exact ⟨nofun, hleads⟩
  | ok a =>
    obtain ⟨hends, hlast⟩ := hrounds (complete a.formula) a.place a.leads (hsettled a hx)
    rw [hx] at hleads
    simp only [Except.bind] at hleads ⊢
    cases hresult : (descend ls none (.rounds tier (complete a.formula)) a.place).result with
    | error e =>
      rw [hresult] at hlast
      exact ⟨nofun, fun frame outer hclear =>
        (hleads frame outer hclear).trans (hlast frame outer hclear)⟩
    | ok whole =>
      rw [hresult] at hlast
      refine ⟨fun r hr => ?_, fun frame outer hclear =>
        (hleads frame outer hclear).trans (hlast frame outer hclear)⟩
      rw [← Except.ok.inj hr]
      exact hends whole hresult

theorem Routine.Agrees.operand (h : tier.operand.Agrees ls p) :
    (∀ r, (descend ls none tier.operand p).result = .ok r → tier.Settled ls r.place) ∧
    ∀ frame outer, (tier = .sum → frame.product = none) →
      resume ls ⟨frame, outer, none⟩ p =
        (descend ls none tier.operand p).result.bind (·.resume ls frame outer) := by
  cases tier with
  | sum =>
    exact ⟨fun r hr _ => (h.ends r hr).none,
      fun frame outer hproduct => h.leads frame outer ⟨hproduct rfl, nofun⟩⟩
  | product => exact ⟨fun r _ => nofun, fun frame outer _ => h frame outer⟩

theorem agrees_chain (hoperand : tier.operand.Agrees ls p)
    (hrounds : ∀ left q, p ≤ q → (Routine.rounds tier left).Agrees ls q) :
    (Routine.chain tier).Agrees ls p := by
  obtain ⟨hsettled, hleads⟩ := hoperand.operand
  have hguides : Guides ls tier (fun frame outer => resume ls ⟨frame, outer, none⟩ p)
      (thenRounds ls none tier le_rfl id (descend ls none tier.operand p)).result :=
    guides_thenRounds le_rfl hsettled
      (fun frame outer hclear => hleads frame outer fun _ => hclear.1) hrounds
  rw [Routine.Agrees, descend_chain]
  cases tier with
  | sum => exact hguides
  | product => exact hguides

theorem agrees_rounds (hoperand : p < ls.length → tier.operand.Agrees ls (p + 1))
    (hrounds : p < ls.length → ∀ left q, p < q → (Routine.rounds tier left).Agrees ls q) :
    (Routine.rounds tier left).Agrees ls p := by
  intro hstart
  rw [descend_rounds]
  cases hop : operatorAt? ls tier p with
  | none =>
    refine ⟨fun r hr => ?_, fun frame outer _ => rfl⟩
    rw [← Except.ok.inj hr]
    exact ⟨hstart, hop⟩
  | some op =>
    have hp := lt_of_operatorAt? hop
    obtain ⟨rfl, position, hl⟩ := operatorAt?_eq_some_iff.1 hop
    obtain ⟨hsettled, hleads⟩ := (hoperand hp).operand
    refine guides_thenRounds (Nat.le_succ p) hsettled (fun frame outer hclear => ?_) (hrounds hp)
    have hproduct : Tier.of op = .sum → (frame.extend left op).product = none := fun hsum => by
      rw [extend_of_sum hsum]
    rw [resume_operator hl, hleads _ outer hproduct]
    cases hright : (descend ls none (Tier.of op).operand (p + 1)).result with
    | error e => rfl
    | ok right => exact resume_extend hclear (hsettled right hright)

theorem agrees_primary (hinner : p < ls.length → (Routine.chain .sum).Agrees ls (p + 1)) :
    Routine.primary.Agrees ls p := by
  intro frame outer
  rw [descend_primary]
  cases hl : ls[p]? with
  | none => exact resume_of_none hl _
  | some l =>
    obtain ⟨token, position⟩ := l
    cases token with
    | number value => exact resume_of_some hl _
    | operator op => exact resume_of_some hl _
    | closing => exact resume_of_some hl _
    | opening =>
      obtain ⟨hends, hleads⟩ := hinner (lt_of_getElem? hl)
      have hopened : resume ls ⟨frame, outer, none⟩ p =
          resume ls ⟨.fresh, frame :: outer, none⟩ (p + 1) := resume_of_some hl _
      rw [hopened, hleads .fresh (frame :: outer) ⟨rfl, fun _ => rfl⟩]
      dsimp only
      rw [Descent.result_bind]
      cases hresult : (descend ls none (.chain .sum) (p + 1)).result with
      | error e => rfl
      | ok inner => exact resume_closed (hends inner hresult) frame outer

variable (ls) in
theorem agrees (routine : Routine) (p : Nat) : routine.Agrees ls p := by
  induction routine, p using descent_induction ls with
  | chain tier p hoperand hrounds => exact agrees_chain hoperand hrounds
  | rounds tier left p hoperand hrounds => exact agrees_rounds hoperand hrounds
  | primary p hinner => exact agrees_primary hinner

end

/-- A descent without a budget ends as the reader does. -/
theorem result_readAll : (readAll ls none).result = (ofLexemes ls).mapError .refused := by
  obtain ⟨hends, hleads⟩ := agrees ls (.chain .sum) 0
  have hstart : (ofLexemes ls).mapError .refused = resume ls ⟨.fresh, [], none⟩ 0 := rfl
  rw [hstart, hleads .fresh [] ⟨rfl, fun _ => rfl⟩, readAll, Descent.result_bind]
  cases hresult : (descend ls none (.chain .sum) 0).result with
  | error e => rfl
  | ok whole =>
    change Descent.result _ = whole.resume ls .fresh []
    rw [Reached.resume]
    cases hl : ls[whole.place]? with
    | none => rw [resume_of_none hl]; rfl
    | some l =>
      obtain ⟨token, position⟩ := l
      cases token with
      | number value => rw [resume_of_some hl]; rfl
      | opening => rw [resume_of_some hl]; rfl
      | closing => rw [resume_of_some hl]; rfl
      | operator op => exact absurd hl ((hends whole hresult).ne_operator op position)

end

def parseWithin (budget : Option Nat) (text : String) : Except Halt Formula := do
  let ls ← (scan text).mapError .refused
  if ls.isEmpty then .error (.refused .empty)
  (checkNesting 0 ls).mapError .refused
  (readAll ls budget).result

theorem mapError_bind {α β : Type} {x : Except ParseError α} {f : α → Except ParseError β}
    {g : α → Except Halt β} (h : ∀ a, x = .ok a → g a = (f a).mapError .refused) :
    x.mapError .refused >>= g = (x >>= f).mapError .refused := by
  cases x with
  | error e => rfl
  | ok a => exact h a rfl

theorem parseWithin_eq {budget : Option Nat} (h : ∀ ls, checkNesting 0 ls = .ok () →
    (readAll ls budget).result = (ofLexemes ls).mapError .refused) (text : String) :
    parseWithin budget text = (parse text).mapError .refused := by
  refine mapError_bind fun ls _ => ?_
  by_cases hempty : ls.isEmpty = true
  · rw [if_pos hempty, if_pos hempty]
    rfl
  · rw [if_neg hempty, if_neg hempty]
    exact mapError_bind fun _ hnesting => h ls hnesting

end FormulaLedger.Formula
