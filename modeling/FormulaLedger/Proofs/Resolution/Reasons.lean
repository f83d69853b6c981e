import FormulaLedger.Proofs.Resolution.Interpretation
import FormulaLedger.Proofs.Resolution.Requests

set_option autoImplicit false

namespace FormulaLedger

def Oddity.isOperand : Oddity → Bool
  | .cycle | .staleRevision | .rowMissing => false
  | _ => true

def Resolution.Own (r : Resolution) : Prop :=
  ∀ reason ∈ r.reasons, ∃ oddity subject,
    reason = .about oddity subject ∧ oddity.isOperand = true

namespace Resolution

theorem own_nil (text : String) : Own ⟨text, []⟩ := fun reason hr => by contradiction

theorem own_zero {oddity : Oddity} (h : oddity.isOperand = true) (subject : String) :
    (zero oddity subject).Own :=
  fun _ hr => ⟨oddity, subject, List.mem_singleton.1 hr, h⟩

theorem eq_of_mem_ofNumber {x : Float} {subject : String} {reason : Reason}
    (h : reason ∈ (ofNumber x subject).reasons) : reason = .about .notFinite subject := by
  rw [ofNumber] at h
  split at h
  · contradiction
  · exact List.mem_singleton.1 h

theorem own_ofNumber (x : Float) (subject : String) : (ofNumber x subject).Own :=
  fun _ h => ⟨.notFinite, subject, eq_of_mem_ofNumber h, rfl⟩

end Resolution

namespace Setting

variable (s : Setting)

theorem own_constant (uniqueId : String) (found : Except StoreError (Option Constant)) :
    (s.resolveConstant uniqueId found).Own := by
  unfold resolveConstant
  split
  · exact Resolution.own_zero rfl _
  · split
    · exact Resolution.own_ofNumber _ _
    · exact Resolution.own_zero rfl _

theorem own_cell (materialId : String) (row column : Nat) :
    (s.resolveCell materialId row column).Own := by
  unfold resolveCell
  dsimp only
  split
  · exact Resolution.own_zero rfl _
  · exact Resolution.own_nil _
  · split
    · exact Resolution.own_ofNumber _ _
    · exact Resolution.own_zero rfl _

theorem own_aggregate (materialId : String) (scope : Scope) (function : AggregateFunction) :
    (s.resolveAggregate materialId scope function).Own := by
  unfold resolveAggregate
  split
  · exact Resolution.own_zero rfl _
  · exact Resolution.own_ofNumber _ _

theorem reasons_resolveNested (uniqueId : String) (e : Evaluation) {reason : Reason}
    (h : reason ∈ (s.resolveNested uniqueId e).reasons) :
    reason ∈ e.reasons ∨ reason = .about .notFinite uniqueId := by
  unfold resolveNested at h
  split at h
  · rcases List.mem_append.1 h with h | h
    · split at h
      · exact .inl h
      · contradiction
    · exact .inr (Resolution.eq_of_mem_ofNumber h)
  · exact .inl h

theorem mem_resolveNested (hnested : s.options.includeNestedReasons = true) (uniqueId : String)
    {e : Evaluation} {reason : Reason} (h : reason ∈ e.reasons) :
    reason ∈ (s.resolveNested uniqueId e).reasons := by
  unfold resolveNested
  split
  · rw [hnested, if_pos rfl]
    exact List.mem_append_left _ h
  · exact h

end Setting

theorem mem_reasons_evaluateText {text : String} {reasons : List Reason} {reason : Reason} :
    reason ∈ (evaluateText text reasons).reasons ↔
      reason ∈ reasons ∨ ∃ f, Formula.valueOf text = .error f ∧ reason = .failure f := by
  rw [evaluateText]
  cases Formula.valueOf text with
  | ok value => simp
  | error f => simp

namespace Store

theorem evaluateLatest_of_none {store : Store} {u : String} (s : Setting)
    (h : store.latest? u = none) :
    store.evaluateLatest s u = .error (.calculationNotFound u) := by
  have hfound : store.lookups.latest u = .ok none := congrArg _ h
  rw [evaluateLatest, Calculator.evaluateLatest, Calculator.found, hfound]
  rfl

theorem evaluateLatest_of_some {store : Store} {u : String} {c : Calculation} (s : Setting)
    (h : store.latest? u = some c) : store.evaluateLatest s u = .ok (store.evaluateRow s c) := by
  have hfound : store.lookups.latest u = .ok (some c) := congrArg _ h
  rw [evaluateLatest, Calculator.evaluateLatest, Calculator.found, hfound]
  rfl

variable (store : Store) (s : Setting)

def resolved (depth : Nat) (path : List String) (p : Pointer) : Resolution :=
  Id.run (resolvePointer store.lookups s path (evaluateWithin store.lookups s depth path) p)

theorem resolved_calculation (depth : Nat) (path : List String) {p : Pointer} {uniqueId : String}
    (h : p.target = .calculation uniqueId) : store.resolved s depth path p =
      if path.contains uniqueId = true then .zero .cycle uniqueId
      else
        match store.latest? uniqueId with
        | none => .zero .calculationUnresolved uniqueId
        | some c =>
          s.resolveNested uniqueId (Id.run (evaluateWithin store.lookups s depth path c)) := by
  obtain ⟨label, target⟩ := p
  obtain rfl : target = .calculation uniqueId := h
  unfold resolved resolvePointer
  dsimp only
  by_cases hcycle : path.contains uniqueId = true
  · rw [if_pos hcycle, if_pos hcycle]
    rfl
  · rw [if_neg hcycle, if_neg hcycle]
    have hlook : store.lookups.latest uniqueId = .ok (store.latest? uniqueId) := rfl
    rw [hlook]
    cases store.latest? uniqueId with
    | none => rfl
    | some c => rfl

theorem resolved_own (depth : Nat) (path : List String) {p : Pointer}
    (h : ∀ uniqueId, p.target ≠ .calculation uniqueId) : (store.resolved s depth path p).Own := by
  obtain ⟨label, target⟩ := p
  cases target with
  | literal text => exact Resolution.own_nil text
  | constant uniqueId => exact s.own_constant uniqueId (.ok (store.constant? uniqueId))
  | calculation uniqueId => exact absurd rfl (h uniqueId)
  | cell materialId row column => exact s.own_cell materialId row column
  | aggregate materialId scope function => exact s.own_aggregate materialId scope function

theorem resolveWith_eq (depth : Nat) (path : List String) (ps : List Pointer) :
    Id.run (resolveWith store.lookups s path (evaluateWithin store.lookups s depth path) ps) =
      .join (ps.map (store.resolved s depth path)) := by
  rw [resolveWith, Id.run_bind, List.idRun_mapM]
  rfl

theorem evaluateWithin_succ (depth : Nat) (path : List String) (c : Calculation) :
    Id.run (evaluateWithin store.lookups s (depth + 1) path c) =
      let r := Resolution.join (c.expression.map (store.resolved s depth (c.enter path)))
      evaluateText r.text r.reasons := by
  rw [← resolveWith_eq]
  rfl

/-- The reasons of a row are those of its pointers, and perhaps the failure of its text. -/
theorem mem_reasons_evaluateWithin {depth : Nat} {path : List String} {c : Calculation}
    {reason : Reason} :
    reason ∈ (Id.run (evaluateWithin store.lookups s (depth + 1) path c)).reasons ↔
      (∃ p ∈ c.expression, reason ∈ (store.resolved s depth (c.enter path) p).reasons) ∨
        ∃ f, Formula.valueOf (Id.run (resolveWith store.lookups s (c.enter path)
          (evaluateWithin store.lookups s depth (c.enter path)) c.expression)).text = .error f ∧
          reason = .failure f := by
  rw [evaluateWithin_succ, mem_reasons_evaluateText, resolveWith_eq]
  have hreasons : (Resolution.join
      (c.expression.map (store.resolved s depth (c.enter path)))).reasons =
      c.expression.flatMap fun p => (store.resolved s depth (c.enter path) p).reasons :=
    List.flatMap_map _ _ _
  rw [hreasons, List.mem_flatMap]

end Store

/-- The reasons that evaluations give. Nothing is said of a row's place in a report. -/
def Reason.Arises : Reason → Prop
  | .about oddity _ => oddity ≠ .staleRevision ∧ oddity ≠ .rowMissing
  | .failure _ => True
  | .stated _ => False

theorem Reason.Arises.of_own {reason : Reason}
    (h : ∃ oddity subject, reason = .about oddity subject ∧ oddity.isOperand = true) :
    reason.Arises := by
  obtain ⟨oddity, subject, rfl, hoperand⟩ := h
  constructor
  · rintro rfl
    contradiction
  · rintro rfl
    contradiction

def Evaluation.Arises (e : Evaluation) : Prop := ∀ reason ∈ e.reasons, reason.Arises

section

variable (s : Setting)

theorem always_arises_resolvePointer {resolving : List String}
    {enter : Calculation → Program Evaluation} (h : ∀ c, (enter c).Always Evaluation.Arises)
    (p : Pointer) : (resolvePointer Program.lookups s resolving enter p).Always fun r =>
      ∀ reason ∈ r.reasons, reason.Arises := by
  obtain ⟨label, target⟩ := p
  refine (s.always_resolves resolving h ⟨label, target⟩).mono fun r hr reason hmem => ?_
  cases hr with
  | literal text => contradiction
  | constant uniqueId found => exact .of_own (s.own_constant uniqueId found reason hmem)
  | cell materialId row column => exact .of_own (s.own_cell materialId row column reason hmem)
  | aggregate materialId scope function =>
    exact .of_own (s.own_aggregate materialId scope function reason hmem)
  | unresolved uniqueId hoddity =>
    obtain rfl := List.mem_singleton.1 hmem
    constructor
    · rintro rfl
      contradiction
    · rintro rfl
      contradiction
  | nested uniqueId he =>
    rcases s.reasons_resolveNested uniqueId _ hmem with hmem | hown
    · exact he reason hmem
    · exact .of_own ⟨_, _, hown, rfl⟩

theorem arises_evaluateText {text : String} {reasons : List Reason}
    (h : ∀ reason ∈ reasons, reason.Arises) : (evaluateText text reasons).Arises := by
  intro reason hmem
  rcases mem_reasons_evaluateText.1 hmem with hmem | ⟨f, _, rfl⟩
  · exact h reason hmem
  · trivial

theorem arises_join {ps : List Pointer} {parts : List Resolution}
    (h : List.Forall₂ (fun _ r => ∀ reason ∈ r.reasons, reason.Arises) ps parts) :
    ∀ reason ∈ (Resolution.join parts).reasons, reason.Arises := by
  induction h with
  | nil => exact fun reason hmem => by contradiction
  | cons hr _ ih =>
    intro reason hmem
    rcases List.mem_append.1 hmem with hmem | hmem
    · exact hr reason hmem
    · exact ih reason hmem

theorem always_arises_resolveWith {resolving : List String}
    {enter : Calculation → Program Evaluation} (h : ∀ c, (enter c).Always Evaluation.Arises)
    (ps : List Pointer) : (resolveWith Program.lookups s resolving enter ps).Always fun r =>
      ∀ reason ∈ r.reasons, reason.Arises :=
  (Program.Always.mapM (always_arises_resolvePointer s h) ps).bind fun _ hparts =>
    Program.always_pure (arises_join hparts)

theorem always_arises_evaluateWithin (depth : Nat) (resolving : List String) (c : Calculation) :
    (evaluateWithin Program.lookups s depth resolving c).Always Evaluation.Arises := by
  induction depth generalizing resolving c with
  | zero =>
    refine Program.always_pure fun reason hmem => ?_
    obtain rfl := List.mem_singleton.1 hmem
    exact ⟨by simp, by simp⟩
  | succ depth ih =>
    exact (always_arises_resolveWith s (ih _) c.expression).bind fun r hr =>
      Program.always_pure (arises_evaluateText hr)

end

/-- What a reason says to be missing is missing in a store: a constant, or a sample of it for the
company's location, and the latest row of a calculation. -/
def Reason.BorneOut (store : Store) (s : Setting) : Reason → Prop
  | .about .constantUnresolved uniqueId =>
    ∀ c, store.constant? uniqueId = some c → c.resolve? s.company.location s.defaultLocation? = none
  | .about .calculationUnresolved uniqueId => store.latest? uniqueId = none
  | _ => True

namespace Store

variable (store : Store) (s : Setting)

theorem borneOut_resolved {depth : Nat} {path : List String}
    (h : ∀ c, ∀ reason ∈ (Id.run (evaluateWithin store.lookups s depth path c)).reasons,
      reason.BorneOut store s) (p : Pointer) :
    ∀ reason ∈ (store.resolved s depth path p).reasons, reason.BorneOut store s := by
  intro reason hmem
  obtain ⟨label, target⟩ := p
  cases target with
  | literal text => contradiction
  | constant uniqueId =>
    change reason ∈ (s.resolveConstant uniqueId (.ok (store.constant? uniqueId))).reasons at hmem
    unfold Setting.resolveConstant at hmem
    dsimp only at hmem
    split at hmem
    · rw [Resolution.eq_of_mem_ofNumber hmem]
      trivial
    · next hnone =>
      rw [List.mem_singleton.1 hmem]
      exact fun c hc => by rwa [hc] at hnone
  | calculation uniqueId =>
    rw [store.resolved_calculation s depth path rfl] at hmem
    split at hmem
    · rw [List.mem_singleton.1 hmem]
      trivial
    · split at hmem
      · next hnone =>
        rw [List.mem_singleton.1 hmem]
        exact hnone
      · rcases s.reasons_resolveNested uniqueId _ hmem with hmem | rfl
        · exact h _ reason hmem
        · trivial
  | cell materialId row column =>
    change reason ∈ (s.resolveCell materialId row column).reasons at hmem
    unfold Setting.resolveCell at hmem
    dsimp only at hmem
    split at hmem
    · rw [List.mem_singleton.1 hmem]
      trivial
    · contradiction
    · split at hmem
      · rw [Resolution.eq_of_mem_ofNumber hmem]
        trivial
      · rw [List.mem_singleton.1 hmem]
        trivial
  | aggregate materialId scope function =>
    change reason ∈ (s.resolveAggregate materialId scope function).reasons at hmem
    unfold Setting.resolveAggregate at hmem
    split at hmem
    · rw [List.mem_singleton.1 hmem]
      trivial
    · rw [Resolution.eq_of_mem_ofNumber hmem]
      trivial

theorem borneOut_evaluateWithin (depth : Nat) (path : List String) (c : Calculation) :
    ∀ reason ∈ (Id.run (evaluateWithin store.lookups s depth path c)).reasons,
      reason.BorneOut store s := by
  induction depth generalizing path c with
  | zero =>
    intro reason hmem
    rw [List.mem_singleton.1 hmem]
    trivial
  | succ depth ih =>
    intro reason hmem
    rcases (store.mem_reasons_evaluateWithin s).1 hmem with ⟨p, _, hmem⟩ | ⟨f, _, rfl⟩
    · exact store.borneOut_resolved s (ih _) p reason hmem
    · trivial

end Store

theorem Store.arises_evaluateWithin (store : Store) (s : Setting) (depth : Nat)
    (path : List String) (c : Calculation) :
    (Id.run (evaluateWithin store.lookups s depth path c)).Arises := by
  have hrun := (always_arises_evaluateWithin s depth path c).runWith Store.answer store
  rw [← Program.run, run_evaluateWithin] at hrun
  exact hrun

end FormulaLedger
