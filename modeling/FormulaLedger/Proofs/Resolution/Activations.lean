import FormulaLedger.Proofs.Resolution.Agreement
import FormulaLedger.Proofs.Resolution.Reasons
import FormulaLedger.Proofs.Store.Latest
import Mathlib.Data.Finset.Card
import Mathlib.Logic.Function.Iterate

/-!
A resolver at work. It has one set of calculations, to which it adds a calculation when it enters
the calculation's row and from which it takes it when it leaves, and a stack of activations. It
always stops with the set it began with, it never has more activations inside one another than there
are calculations to enter, and what it comes to is what the evaluations come to that hand the set on
instead of changing it.
-/

set_option autoImplicit false

namespace FormulaLedger

namespace Store

def remaining (store : Store) (resolving : List String) : Finset String :=
  (store.latestRows.map (·.uniqueId)).toFinset.filter (· ∉ resolving)

end Store

namespace Calculation

variable {c : Calculation} {path : List String} {uniqueId : String}

theorem mem_enter : uniqueId ∈ c.enter path ↔ uniqueId ∈ path ∨ c.uniqueId = uniqueId := by
  rw [enter]
  split
  · next h =>
    have hmem := List.contains_iff_mem.1 h
    constructor
    · exact .inl
    · rintro (hpath | rfl)
      · exact hpath
      · exact hmem
  · rw [List.mem_cons, or_comm, eq_comm]

theorem erase_enter (c : Calculation) (path : List String) :
    (if !path.contains c.uniqueId then (c.enter path).erase c.uniqueId else c.enter path) =
      path := by
  rw [enter]
  by_cases h : path.contains c.uniqueId = true
  · rw [h, if_neg (by decide), if_pos rfl]
  · rw [if_pos (by simpa using h), if_neg h, List.erase_cons_head]

end Calculation

namespace Store

variable {store : Store} {path : List String} {c : Calculation}

theorem remaining_enter_subset (store : Store) (path : List String) (c : Calculation) :
    store.remaining (c.enter path) ⊆ store.remaining path := by
  intro x hx
  rw [remaining, Finset.mem_filter] at hx ⊢
  exact ⟨hx.1, fun hpath => hx.2 (Calculation.mem_enter.2 (.inl hpath))⟩

theorem remaining_enter_lt (hlatest : store.latest? c.uniqueId = some c)
    (hpath : c.uniqueId ∉ path) :
    (store.remaining (c.enter path)).card < (store.remaining path).card := by
  apply Finset.card_lt_card
  rw [Finset.ssubset_iff_of_subset (store.remaining_enter_subset path c)]
  refine ⟨c.uniqueId, Finset.mem_filter.2 ⟨?_, hpath⟩, fun hmem => ?_⟩
  · exact List.mem_toFinset.2 (List.mem_map_of_mem (latest?_mem_latestRows hlatest).1)
  · exact (Finset.mem_filter.1 hmem).2 (Calculation.mem_enter.2 (.inr rfl))

theorem remaining_lt_depth (store : Store) (path : List String) :
    (store.remaining path).card < store.depth := by
  have hids : (store.latestRows.map (·.uniqueId)).toFinset.card ≤ store.latestRows.length :=
    (List.toFinset_card_le _).trans (Nat.le_of_eq (List.length_map _))
  have hrows : store.latestRows.length ≤ store.rows.length := List.length_filter_le _ _
  have hpath : (store.remaining path).card ≤ _ := Finset.card_filter_le _ _
  rw [depth]
  omega

end Store

namespace Resolver

inductive Job
  | pointers (ps : List Pointer)
  | row (c : Calculation)

inductive Answer
  | resolution (r : Resolution)
  | evaluation (e : Evaluation)
  deriving DecidableEq

/-- Pointers that are being resolved one after the other. -/
structure Activation where
  /-- The row whose expression they are, unless they are resolved by themselves. -/
  row : Option Calculation
  /-- Whether the row's calculation was put into the set on entry. -/
  added : Bool
  left : List Pointer
  parts : List Resolution
  deriving DecidableEq

/-- The set of calculations that a resolver is evaluating, and its activations, each called by the
next. -/
inductive State
  | working (resolving : List String) (current : Activation) (callers : List Activation)
  | stopped (resolving : List String) (answer : Answer)
  deriving DecidableEq

namespace Activation

def ofPointers (ps : List Pointer) : Activation := ⟨none, false, ps, []⟩

def ofRow (resolving : List String) (c : Calculation) : Activation :=
  ⟨some c, !resolving.contains c.uniqueId, c.expression, []⟩

def take (a : Activation) (r : Resolution) : Activation :=
  { a with left := a.left.tail, parts := a.parts ++ [r] }

end Activation

/-- What a resolver does about a pointer: it has the operand at once, or evaluates a row for it. -/
inductive Lead
  | operand (r : Resolution)
  | row (c : Calculation)

variable (store : Store) (s : Setting)

def lead (resolving : List String) (p : Pointer) : Lead :=
  match p.target with
  | .literal text => .operand ⟨text, []⟩
  | .constant uniqueId => .operand (s.resolveConstant uniqueId (.ok (store.constant? uniqueId)))
  | .calculation uniqueId =>
    if resolving.contains uniqueId then .operand (.zero .cycle uniqueId)
    else
      match store.latest? uniqueId with
      | none => .operand (.zero .calculationUnresolved uniqueId)
      | some c => .row c
  | .cell materialId row column => .operand (s.resolveCell materialId row column)
  | .aggregate materialId scope function =>
    .operand (s.resolveAggregate materialId scope function)

/-- Resolves the next pointer or enters a row for it, and leaves an activation that has no pointer
left. -/
def step : State → State
  | .stopped resolving answer => .stopped resolving answer
  | .working resolving a callers =>
    match a.left with
    | p :: _ =>
      match lead store s resolving p with
      | .operand r => .working resolving (a.take r) callers
      | .row c => .working (c.enter resolving) (.ofRow resolving c) (a :: callers)
    | [] =>
      let r := Resolution.join a.parts
      match a.row with
      | none => .stopped resolving (.resolution r)
      | some c =>
        let outside := if a.added then resolving.erase c.uniqueId else resolving
        let e := evaluateText r.text r.reasons
        match callers with
        | [] => .stopped outside (.evaluation e)
        | b :: callers => .working outside (b.take (s.resolveNested c.uniqueId e)) callers

def start (resolving : List String) : Job → State
  | .pointers ps => .working resolving (.ofPointers ps) []
  | .row c => .working (c.enter resolving) (.ofRow resolving c) []

/-- What a job comes to where the set is handed on and the depth is limited. -/
def answer (depth : Nat) (resolving : List String) : Job → Answer
  | .pointers ps => .resolution (Id.run (resolveWith store.lookups s resolving
      (evaluateWithin store.lookups s depth resolving) ps))
  | .row c => .evaluation (Id.run (evaluateWithin store.lookups s depth resolving c))

/-- Jobs that one resolver does one after the other, each with the set that the last has left. -/
inductive InTurn : List String → List Job → List Answer → List String → Prop
  | nil (resolving : List String) : InTurn resolving [] [] resolving
  | cons {resolving inside after : List String} {job : Job} {jobs : List Job} {a : Answer}
      {answers : List Answer} {n : Nat} :
      (step store s)^[n] (start resolving job) = .stopped inside a →
      InTurn inside jobs answers after → InTurn resolving (job :: jobs) (a :: answers) after

section

variable {store : Store} {s : Setting}

def Leads (store : Store) (s : Setting) (m m' : State) : Prop := ∃ n, (step store s)^[n] m = m'

theorem Leads.trans {m m' m'' : State} (h : Leads store s m m') (h' : Leads store s m' m'') :
    Leads store s m m'' := by
  obtain ⟨n, rfl⟩ := h
  obtain ⟨n', rfl⟩ := h'
  exact ⟨n' + n, Function.iterate_add_apply _ _ _ _⟩

theorem leads_step (store : Store) (s : Setting) (m : State) :
    Leads store s m (step store s m) := ⟨1, rfl⟩

theorem iterate_stopped (n : Nat) (resolving : List String) (a : Answer) :
    (step store s)^[n] (.stopped resolving a) = .stopped resolving a :=
  Function.iterate_fixed rfl n

theorem stopped_unique {m : State} {n n' : Nat} {resolving resolving' : List String}
    {a a' : Answer} (h : (step store s)^[n] m = .stopped resolving a)
    (h' : (step store s)^[n'] m = .stopped resolving' a') :
    State.stopped resolving a = .stopped resolving' a' := by
  rcases Nat.le_total n n' with hle | hle
  · obtain ⟨k, rfl⟩ := Nat.exists_eq_add_of_le' hle
    rw [Function.iterate_add_apply, h, iterate_stopped] at h'
    exact h'
  · obtain ⟨k, rfl⟩ := Nat.exists_eq_add_of_le' hle
    rw [Function.iterate_add_apply, h', iterate_stopped] at h
    exact h.symm

theorem lead_calculation (resolving : List String) {p : Pointer} {uniqueId : String}
    (h : p.target = .calculation uniqueId) : lead store s resolving p =
      if resolving.contains uniqueId then .operand (.zero .cycle uniqueId)
      else
        match store.latest? uniqueId with
        | none => .operand (.zero .calculationUnresolved uniqueId)
        | some c => .row c := by
  rw [lead, h]

theorem of_lead_row {resolving : List String} {p : Pointer} {c : Calculation}
    (h : lead store s resolving p = .row c) : p.target = .calculation c.uniqueId ∧
      store.latest? c.uniqueId = some c ∧ c.uniqueId ∉ resolving := by
  obtain ⟨label, target⟩ := p
  cases target with
  | literal text => contradiction
  | constant uniqueId => contradiction
  | cell materialId row column => contradiction
  | aggregate materialId scope function => contradiction
  | calculation uniqueId =>
    rw [lead_calculation resolving rfl] at h
    split at h
    · contradiction
    · next hpath =>
      split at h
      · contradiction
      · next hlatest =>
        cases h
        obtain ⟨_, rfl⟩ := Store.mem_of_latest? hlatest
        exact ⟨rfl, hlatest, mt List.contains_iff_mem.2 hpath⟩

theorem resolved_eq (store : Store) (s : Setting) (depth : Nat) (resolving : List String)
    (p : Pointer) : store.resolved s depth resolving p =
      match lead store s resolving p with
      | .operand r => r
      | .row c => s.resolveNested c.uniqueId
          (Id.run (evaluateWithin store.lookups s depth resolving c)) := by
  obtain ⟨label, target⟩ := p
  cases target with
  | literal text => rfl
  | constant uniqueId => rfl
  | cell materialId row column => rfl
  | aggregate materialId scope function => rfl
  | calculation uniqueId =>
    rw [store.resolved_calculation s depth resolving rfl, lead_calculation resolving rfl]
    by_cases hcycle : resolving.contains uniqueId = true
    · rw [if_pos hcycle, if_pos hcycle]
    · rw [if_neg hcycle, if_neg hcycle]
      cases hlatest : store.latest? uniqueId with
      | none => rfl
      | some c =>
        obtain ⟨_, rfl⟩ := Store.mem_of_latest? hlatest
        rfl

theorem step_evaluated (depth : Nat) (resolving : List String) (c : Calculation)
    (callers : List Activation) :
    step store s (.working (c.enter resolving) ⟨some c, !resolving.contains c.uniqueId, [],
      c.expression.map (store.resolved s depth (c.enter resolving))⟩ callers) =
      let e := Id.run (evaluateWithin store.lookups s (depth + 1) resolving c)
      match callers with
      | [] => .stopped resolving (.evaluation e)
      | b :: callers => .working resolving (b.take (s.resolveNested c.uniqueId e)) callers := by
  rw [Store.evaluateWithin_succ]
  unfold step
  dsimp only
  rw [Calculation.erase_enter]

/-- A row that is entered gives its operand to the activation that led to it. -/
def Returns (store : Store) (s : Setting) (depth : Nat) (resolving : List String)
    (c : Calculation) : Prop :=
  ∀ b callers, Leads store s (.working (c.enter resolving) (.ofRow resolving c) (b :: callers))
    (.working resolving (b.take (s.resolveNested c.uniqueId
      (Id.run (evaluateWithin store.lookups s depth resolving c)))) callers)

theorem leads_through {depth : Nat} {resolving : List String}
    (hreturns : ∀ p c, lead store s resolving p = .row c → Returns store s depth resolving c)
    (a : Activation) (callers : List Activation) :
    Leads store s (.working resolving a callers) (.working resolving
      { a with left := [], parts := a.parts ++ a.left.map (store.resolved s depth resolving) }
      callers) := by
  obtain ⟨row, added, left, parts⟩ := a
  induction left generalizing parts with
  | nil => exact ⟨0, by simp⟩
  | cons p ps ih =>
    have hnext : Leads store s (.working resolving ⟨row, added, p :: ps, parts⟩ callers)
        (.working resolving ⟨row, added, ps, parts ++ [store.resolved s depth resolving p]⟩
          callers) := by
      have hstep := leads_step store s (.working resolving ⟨row, added, p :: ps, parts⟩ callers)
      have hresolved := resolved_eq store s depth resolving p
      unfold step at hstep
      dsimp only at hstep
      cases hlead : lead store s resolving p with
      | operand r =>
        rw [hlead] at hstep hresolved
        rw [hresolved]
        exact hstep
      | row c =>
        rw [hlead] at hstep hresolved
        rw [hresolved]
        exact hstep.trans (hreturns p c hlead _ callers)
    have hrest := ih (parts ++ [store.resolved s depth resolving p])
    rw [List.append_assoc] at hrest
    exact hnext.trans hrest

/-- With a depth for all calculations that can be entered, an activation goes through its pointers
and leaves the set as it was. -/
theorem leads_done {depth : Nat} {resolving : List String}
    (hdepth : (store.remaining resolving).card ≤ depth) (a : Activation)
    (callers : List Activation) :
    Leads store s (.working resolving a callers) (.working resolving
      { a with left := [], parts := a.parts ++ a.left.map (store.resolved s depth resolving) }
      callers) := by
  -- The depth bounds the calculations left to enter, and entering a row leaves one fewer of them.
  induction depth generalizing resolving a callers with
  | zero =>
    refine leads_through (fun p c hlead => ?_) a callers
    obtain ⟨_, hlatest, hpath⟩ := of_lead_row hlead
    have hlt := Store.remaining_enter_lt hlatest hpath
    omega
  | succ depth ih =>
    refine leads_through (fun p c hlead b callers => ?_) a callers
    obtain ⟨_, hlatest, hpath⟩ := of_lead_row hlead
    have hlt := Store.remaining_enter_lt hlatest hpath
    have hinside : (store.remaining (c.enter resolving)).card ≤ depth := by omega
    have hinner := ih hinside (.ofRow resolving c) (b :: callers)
    exact hinner.trans ⟨1, step_evaluated depth resolving c (b :: callers)⟩

/-- Every job comes to an end, and to what the evaluations come to that hand the set on. -/
theorem leads_stopped {depth : Nat} {resolving : List String}
    (hdepth : (store.remaining resolving).card < depth) (job : Job) :
    Leads store s (start resolving job)
      (.stopped resolving (answer store s depth resolving job)) := by
  cases job with
  | pointers ps =>
    have hdone := leads_done (s := s) (Nat.le_of_lt hdepth) (.ofPointers ps) []
    refine hdone.trans ⟨1, ?_⟩
    rw [answer, Store.resolveWith_eq]
    rfl
  | row c =>
    cases depth with
    | zero => omega
    | succ depth =>
      have hle := Finset.card_le_card (store.remaining_enter_subset resolving c)
      have hinside : (store.remaining (c.enter resolving)).card ≤ depth := by omega
      have hdone := leads_done (s := s) hinside (.ofRow resolving c) []
      exact hdone.trans ⟨1, step_evaluated depth resolving c []⟩

end

/-- A stack of activations and the set that belongs to it. The rows that pointers led to are latest
rows of calculations that were not in the set. -/
inductive Stacked (store : Store) (resolving : List String) :
    List String → List Activation → Prop
  | pointers {left : List Pointer} {parts : List Resolution} :
      Stacked store resolving resolving [⟨none, false, left, parts⟩]
  | row {c : Calculation} {left : List Pointer} {parts : List Resolution} :
      Stacked store resolving (c.enter resolving)
        [⟨some c, !resolving.contains c.uniqueId, left, parts⟩]
  | nested {inside : List String} {callers : List Activation} {c : Calculation}
      {left : List Pointer} {parts : List Resolution} :
      Stacked store resolving inside callers → store.latest? c.uniqueId = some c →
      c.uniqueId ∉ inside → Stacked store resolving (c.enter inside)
        (⟨some c, !inside.contains c.uniqueId, left, parts⟩ :: callers)

namespace Stacked

variable {store : Store} {resolving inside : List String} {a : Activation}
  {callers : List Activation}

theorem take (h : Stacked store resolving inside (a :: callers)) (r : Resolution) :
    Stacked store resolving inside (a.take r :: callers) := by
  cases h with
  | pointers => exact .pointers
  | row => exact .row
  | nested hstacked hlatest hinside => exact .nested hstacked hlatest hinside

theorem mem_iff {stack : List Activation} (h : Stacked store resolving inside stack)
    (uniqueId : String) : uniqueId ∈ inside ↔
      uniqueId ∈ resolving ∨ ∃ a ∈ stack, ∃ c, a.row = some c ∧ c.uniqueId = uniqueId := by
  induction h with
  | pointers => simp
  | row => simp [Calculation.mem_enter]
  | nested _ _ _ ih => simp [Calculation.mem_enter, ih, or_left_comm, or_comm]

theorem length_le {stack : List Activation} (h : Stacked store resolving inside stack) :
    stack.length + (store.remaining inside).card ≤ (store.remaining resolving).card + 1 := by
  induction h with
  | pointers => simp [Nat.add_comm]
  | @row c left parts =>
    have hle := Finset.card_le_card (store.remaining_enter_subset resolving c)
    rw [List.length_singleton]
    omega
  | nested _ hlatest hinside ih =>
    have hlt := Store.remaining_enter_lt hlatest hinside
    rw [List.length_cons]
    omega

end Stacked

def Sound (store : Store) (resolving : List String) : State → Prop
  | .working inside a callers => Stacked store resolving inside (a :: callers)
  | .stopped inside _ => inside = resolving

section

variable {store : Store} {s : Setting} {resolving : List String}

theorem sound_start (job : Job) : Sound store resolving (start resolving job) := by
  cases job with
  | pointers ps => exact .pointers
  | row c => exact .row

theorem Sound.step {m : State} (h : Sound store resolving m) :
    Sound store resolving (step store s m) := by
  cases m with
  | stopped inside a => exact h
  | working inside a callers =>
    unfold Resolver.step
    dsimp only
    split
    · split
      · next r _ => exact Stacked.take h r
      · next c hlead =>
        obtain ⟨_, hlatest, hinside⟩ := of_lead_row hlead
        exact .nested h hlatest hinside
    · cases h with
      | pointers => rfl
      | @row c left parts =>
        dsimp only
        rw [Calculation.erase_enter]
        rfl
      | @nested before callers c left parts hstacked hlatest hinside =>
        dsimp only
        rw [Calculation.erase_enter]
        cases callers with
        | nil => cases hstacked
        | cons b callers => exact hstacked.take _

theorem sound_iterate (store : Store) (s : Setting) (resolving : List String) (job : Job)
    (n : Nat) : Sound store resolving ((Resolver.step store s)^[n] (start resolving job)) := by
  induction n with
  | zero => exact sound_start job
  | succ n ih =>
    rw [Function.iterate_succ_apply']
    exact ih.step

/-- A pointer to a calculation is reported as a cycle when the calculation is in the set, and only
then: a row that is entered makes a new activation, and a missing one gives another reason. -/
theorem step_eq_cycle_iff {inside : List String} {a : Activation} {callers : List Activation}
    {p : Pointer} {ps : List Pointer} {uniqueId : String} (hleft : a.left = p :: ps)
    (htarget : p.target = .calculation uniqueId) :
    step store s (.working inside a callers) =
        .working inside (a.take (.zero .cycle uniqueId)) callers ↔
      uniqueId ∈ inside := by
  unfold step
  dsimp only
  rw [hleft]
  dsimp only
  rw [lead_calculation inside htarget]
  by_cases hinside : inside.contains uniqueId = true
  · rw [if_pos hinside]
    exact iff_of_true rfl (List.contains_iff_mem.1 hinside)
  · rw [if_neg hinside]
    refine iff_of_false (fun heq => ?_) (mt List.contains_iff_mem.2 hinside)
    cases hlatest : store.latest? uniqueId with
    | none =>
      rw [hlatest] at heq
      have hparts := congrArg Activation.parts (State.working.inj heq).2.1
      have hlast := List.append_cancel_left hparts
      have hreasons := congrArg Resolution.reasons (List.cons.inj hlast).1
      cases hreasons
    | some c =>
      rw [hlatest] at heq
      exact List.cons_ne_self _ _ (State.working.inj heq).2.2

theorem inTurn_iff {depth : Nat} (hdepth : (store.remaining resolving).card < depth)
    {jobs : List Job} {answers : List Answer} {after : List String} :
    InTurn store s resolving jobs answers after ↔
      after = resolving ∧ answers = jobs.map (answer store s depth resolving) := by
  constructor
  · intro h
    induction h with
    | nil resolving => exact ⟨rfl, rfl⟩
    | @cons resolving inside after job jobs a answers n hstopped _ ih =>
      obtain ⟨k, hk⟩ := leads_stopped (s := s) hdepth job
      obtain ⟨rfl, rfl⟩ := State.stopped.inj (stopped_unique hk hstopped)
      obtain ⟨rfl, rfl⟩ := ih hdepth
      exact ⟨rfl, rfl⟩
  · rintro ⟨rfl, rfl⟩
    induction jobs with
    | nil => exact .nil _
    | cons job jobs ih =>
      obtain ⟨k, hk⟩ := leads_stopped (s := s) hdepth job
      exact .cons hk ih

end

/-- A resolver that begins with any set of calculations stops at every job, with that set and with
what the evaluations come to that hand it on, whatever depth beyond the calculations that can be
entered they are given. On its way no more activations stand inside one another than there are such
calculations, and one more; and it reports a pointer as a cycle exactly when the pointer leads to
a calculation of the set it began with, or to one whose row is being evaluated. So one resolver that
does many jobs does each like a new one. -/
theorem stops_as_begun (store : Store) (s : Setting) (resolving : List String) :
    (∀ (job : Job) (depth : Nat), (store.remaining resolving).card < depth →
      (∃ n, (step store s)^[n] (start resolving job) =
        .stopped resolving (answer store s depth resolving job)) ∧
      ∀ n after a, (step store s)^[n] (start resolving job) = .stopped after a →
        after = resolving ∧ a = answer store s depth resolving job) ∧
    (store.remaining resolving).card < store.depth ∧
    (∀ (job : Job) (n : Nat) (inside : List String) (a : Activation) (callers : List Activation),
      (step store s)^[n] (start resolving job) = .working inside a callers →
      (a :: callers).length ≤ (store.remaining resolving).card + 1 ∧
      ∀ p ps uniqueId, a.left = p :: ps → p.target = .calculation uniqueId →
        (step store s (.working inside a callers) =
            .working inside (a.take (.zero .cycle uniqueId)) callers ↔
          uniqueId ∈ resolving ∨
            ∃ b ∈ a :: callers, ∃ c, b.row = some c ∧ c.uniqueId = uniqueId)) ∧
    ∀ (jobs : List Job) (answers : List Answer) (after : List String),
      InTurn store s resolving jobs answers after ↔
        after = resolving ∧ answers = jobs.map (answer store s store.depth resolving) := by
  refine ⟨fun job depth hdepth => ?_, store.remaining_lt_depth resolving,
    fun job n inside a callers hworking => ?_,
    fun jobs answers after => inTurn_iff (store.remaining_lt_depth resolving)⟩
  · obtain ⟨k, hk⟩ := leads_stopped (s := s) hdepth job
    refine ⟨⟨k, hk⟩, fun n after a hstopped => ?_⟩
    obtain ⟨rfl, rfl⟩ := State.stopped.inj (stopped_unique hk hstopped)
    exact ⟨rfl, rfl⟩
  · have hsound := sound_iterate store s resolving job n
    rw [hworking] at hsound
    have hstacked : Stacked store resolving inside (a :: callers) := hsound
    have hlength := hstacked.length_le
    refine ⟨by omega, fun p ps uniqueId hleft htarget => ?_⟩
    rw [step_eq_cycle_iff hleft htarget]
    exact hstacked.mem_iff uniqueId

def inShare : Activation :=
  ⟨some Store.share, true, Store.share.expression.tail, [⟨"(2 *", []⟩]⟩

def inRest : Activation :=
  ⟨some Store.rest, true, [.of (.calculation "share")], [⟨"3 -", []⟩, ⟨"5", []⟩, ⟨"+", []⟩]⟩

/-- After five steps the resolver is at the pointer that closes the cycle, and it reports it. -/
theorem stops_as_begun_crossed :
    (Store.crossed.remaining []).card < Store.crossed.depth ∧
    (∃ n, (step Store.crossed Store.plainSetting)^[n] (start [] (.row Store.share)) =
      .stopped [] (.evaluation ⟨.number (-0.8), [.about .cycle "share"]⟩)) ∧
    (step Store.crossed Store.plainSetting)^[5] (start [] (.row Store.share)) =
      .working ["rest", "share"] inRest [inShare] ∧
    step Store.crossed Store.plainSetting (.working ["rest", "share"] inRest [inShare]) =
      .working ["rest", "share"] (inRest.take (.zero .cycle "share")) [inShare] := by
  obtain ⟨hstops, hdepth, hworks, _⟩ := stops_as_begun Store.crossed Store.plainSetting []
  have hanswer : answer Store.crossed Store.plainSetting Store.crossed.depth [] (.row Store.share) =
      .evaluation ⟨.number (-0.8), [.about .cycle "share"]⟩ := by decide +kernel
  have hworking : (step Store.crossed Store.plainSetting)^[5] (start [] (.row Store.share)) =
      .working ["rest", "share"] inRest [inShare] := by decide +kernel
  have hcycle := ((hworks _ _ _ _ _ hworking).2 _ _ "share" rfl rfl).2
    (.inr ⟨inShare, by simp, Store.share, rfl, rfl⟩)
  rw [← hanswer]
  exact ⟨hdepth, (hstops _ _ hdepth).1, hworking, hcycle⟩

end Resolver

end FormulaLedger
