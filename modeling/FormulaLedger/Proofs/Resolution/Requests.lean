import FormulaLedger.Calculator
import FormulaLedger.Proofs.Procedure.Execution
import Mathlib.Data.List.Forall2

set_option autoImplicit false

namespace FormulaLedger

namespace Program

variable {α β : Type}

/-- Every way through the program ends as `post` says, whatever the answers are. -/
def Always (post : α → Prop) : Program α → Prop
  | .done a => post a
  | .ask _ next => ∀ result, (next result).Always post

theorem always_pure {post : α → Prop} {a : α} (h : post a) : (pure a : Program α).Always post := h

theorem Always.bind {inner : α → Prop} {post : β → Prop} {p : Program α} {f : α → Program β}
    (hp : p.Always inner) (hf : ∀ a, inner a → (f a).Always post) : (p >>= f).Always post := by
  induction p with
  | done a => exact hf a hp
  | ask r next ih =>
    intro result
    exact ih result (hp result)

theorem always_any (p : Program α) : p.Always fun _ => True := by
  induction p with
  | done a => trivial
  | ask r next ih => exact ih

theorem Always.mono {inner post : α → Prop} {p : Program α} (hp : p.Always inner)
    (h : ∀ a, inner a → post a) : p.Always post := by
  induction p with
  | done a => exact h a hp
  | ask r next ih => exact fun result => ih result (hp result)

theorem Always.runWith {σ : Type} {post : α → Prop} {p : Program α} (hp : p.Always post)
    (answer : σ → (r : Request) → r.Result × σ) (s : σ) : post (p.runWith answer s).1 := by
  induction p generalizing s with
  | done a => exact hp
  | ask r next ih => exact ih (answer s r).1 (hp _) (answer s r).2

theorem Always.lift_bind {inner : α → Prop} {post : Except LedgerError β → Prop}
    {p : Program α} {f : α → Procedure β} (hp : p.Always inner)
    (hf : ∀ a, inner a → (ExceptT.run (f a)).Always post) :
    (ExceptT.run ((p : Procedure α) >>= f)).Always post := by
  have hlift : (ExceptT.run (p : Procedure α)).Always fun x =>
      ∃ a, x = .ok a ∧ inner a := hp.bind fun a ha => always_pure ⟨a, rfl, ha⟩
  refine hlift.bind fun x hx => ?_
  obtain ⟨a, rfl, ha⟩ := hx
  exact hf a ha

theorem Always.mapM {relate : α → β → Prop} {f : α → Program β}
    (hf : ∀ a, (f a).Always (relate a)) (as : List α) :
    (as.mapM f).Always fun bs => List.Forall₂ relate as bs := by
  induction as with
  | nil => exact always_pure .nil
  | cons a as ih =>
    rw [List.mapM_cons]
    exact (hf a).bind fun b hb => ih.bind fun bs hbs => always_pure (.cons hb hbs)

theorem run_mapM {f : α → Program β} {g : α → β} {s : Store}
    (h : ∀ a, (f a).run s = (g a, s)) (as : List α) : (as.mapM f).run s = (as.map g, s) := by
  induction as with
  | nil => rfl
  | cons a as ih =>
    rw [List.mapM_cons, run_bind, h, run_bind, ih]
    rfl

end Program

/-- What a pointer can resolve to, whatever a store answers, where the rows that are entered come to
evaluations of one kind. -/
inductive Setting.Resolves (s : Setting) (entered : Evaluation → Prop) : Target → Resolution → Prop
  | literal (text : String) : s.Resolves entered (.literal text) ⟨text, []⟩
  | constant (uniqueId : String) (found : Except StoreError (Option Constant)) :
    s.Resolves entered (.constant uniqueId) (s.resolveConstant uniqueId found)
  | unresolved (uniqueId : String) {oddity : Oddity}
    (h : oddity ∈ [.cycle, .lookupFailed, .calculationUnresolved]) :
    s.Resolves entered (.calculation uniqueId) (.zero oddity uniqueId)
  | nested (uniqueId : String) {e : Evaluation} (he : entered e) :
    s.Resolves entered (.calculation uniqueId) (s.resolveNested uniqueId e)
  | cell (materialId : String) (row column : Nat) :
    s.Resolves entered (.cell materialId row column) (s.resolveCell materialId row column)
  | aggregate (materialId : String) (scope : Scope) (function : AggregateFunction) :
    s.Resolves entered (.aggregate materialId scope function)
      (s.resolveAggregate materialId scope function)

theorem Setting.always_resolves (s : Setting) (resolving : List String)
    {enter : Calculation → Program Evaluation} {entered : Evaluation → Prop}
    (h : ∀ c, (enter c).Always entered) (p : Pointer) :
    (resolvePointer Program.lookups s resolving enter p).Always (s.Resolves entered p.target) := by
  obtain ⟨label, target⟩ := p
  cases target with
  | literal text => exact Program.always_pure (.literal text)
  | constant uniqueId => exact fun found => .constant uniqueId found
  | cell materialId row column => exact Program.always_pure (.cell materialId row column)
  | aggregate materialId scope function =>
    exact Program.always_pure (.aggregate materialId scope function)
  | calculation uniqueId =>
    unfold resolvePointer
    dsimp only
    split
    · exact Program.always_pure (.unresolved uniqueId (by decide))
    · intro found
      cases found with
      | error e => exact Program.always_pure (.unresolved uniqueId (by decide))
      | ok latest =>
        cases latest with
        | none => exact Program.always_pure (.unresolved uniqueId (by decide))
        | some c => exact (h c).bind fun e he => Program.always_pure (.nested uniqueId he)

theorem Procedure.runOn_lift {α : Type} {p : Program α} {a : α} {s t : Store}
    (h : p.run s = (a, t)) : Procedure.runOn (p : Procedure α) s = (.ok a, t) := by
  have hlift : Procedure.runOn (p : Procedure α) s =
      (p >>= fun a => pure (.ok a) : Program _).run s := rfl
  rw [hlift, Program.run_bind, h]
  rfl

variable (store : Store) (s : Setting)

theorem run_resolvePointer {resolving : List String} {enter : Calculation → Program Evaluation}
    {enter' : Calculation → Evaluation} (h : ∀ c, (enter c).run store = (enter' c, store))
    (p : Pointer) : (resolvePointer Program.lookups s resolving enter p).run store =
      (Id.run (resolvePointer store.lookups s resolving enter' p), store) := by
  obtain ⟨label, target⟩ := p
  cases target with
  | literal text => rfl
  | constant uniqueId => rfl
  | cell materialId row column => rfl
  | aggregate materialId scope function => rfl
  | calculation uniqueId =>
    unfold resolvePointer
    dsimp only
    by_cases hcycle : resolving.contains uniqueId = true
    · rw [if_pos hcycle, if_pos hcycle]
      rfl
    · rw [if_neg hcycle, if_neg hcycle, Program.run_bind]
      have hlook : (Program.lookups.latest uniqueId).run store =
          (.ok (store.latest? uniqueId), store) := rfl
      have hlook' : store.lookups.latest uniqueId = .ok (store.latest? uniqueId) := rfl
      rw [hlook, hlook']
      cases store.latest? uniqueId with
      | none => rfl
      | some c =>
        dsimp only
        rw [Program.run_bind, h c]
        rfl

theorem run_resolveWith {resolving : List String} {enter : Calculation → Program Evaluation}
    {enter' : Calculation → Evaluation} (h : ∀ c, (enter c).run store = (enter' c, store))
    (ps : List Pointer) : (resolveWith Program.lookups s resolving enter ps).run store =
      (Id.run (resolveWith store.lookups s resolving enter' ps), store) := by
  rw [resolveWith, resolveWith, Program.run_bind,
    Program.run_mapM (run_resolvePointer store s h) ps, Id.run_bind, List.idRun_mapM]
  rfl

theorem run_evaluateWithin (depth : Nat) (resolving : List String) (c : Calculation) :
    (evaluateWithin Program.lookups s depth resolving c).run store =
      (Id.run (evaluateWithin store.lookups s depth resolving c), store) := by
  induction depth generalizing resolving c with
  | zero => rfl
  | succ depth ih =>
    unfold evaluateWithin
    dsimp only
    rw [Program.run_bind, run_resolveWith store s (ih _)]
    rfl

theorem runOn_found {α : Type} {p : Program (Except StoreError (Option α))}
    {found : Except StoreError (Option α)} (h : p.run store = (found, store))
    (missing : LedgerError) : Procedure.runOn (Calculator.found p missing) store =
      (Calculator.found (m := Id) found missing, store) := by
  unfold Calculator.found
  rw [Procedure.runOn_bind, Procedure.runOn_lift h]
  cases found with
  | error e => rfl
  | ok a =>
    cases a with
    | none => rfl
    | some a => rfl

theorem runOn_evaluateLatest (depth : Nat) (uniqueId : String) :
    Procedure.runOn (Calculator.evaluateLatest Program.lookups s depth uniqueId) store =
      (Calculator.evaluateLatest store.lookups s depth uniqueId, store) := by
  have hfound := runOn_found store (p := Program.lookups.latest uniqueId) rfl
    (.calculationNotFound uniqueId)
  have hlook : store.lookups.latest uniqueId = .ok (store.latest? uniqueId) := rfl
  unfold Calculator.evaluateLatest
  rw [Procedure.runOn_bind, hfound, hlook]
  cases store.latest? uniqueId with
  | none => rfl
  | some c => exact Procedure.runOn_lift (run_evaluateWithin store s depth [] c)

theorem runOn_evaluateRows (depth : Nat) (rows : List ReportRow) (stats : ReportStats)
    (ids : List RowId) :
    Procedure.runOn (Calculator.evaluateRows Program.lookups s depth rows stats ids) store =
      (Calculator.evaluateRows (m := Id) store.lookups s depth rows stats ids, store) := by
  induction ids generalizing rows stats with
  | nil => rfl
  | cons id ids ih =>
    have hlook : store.lookups.row id = .ok (store.row? id) := rfl
    unfold Calculator.evaluateRows
    rw [Procedure.runOn_bind, Procedure.runOn_lift (p := Program.lookups.row id) rfl, hlook]
    cases store.row? id with
    | none => exact ih _ _
    | some c =>
      have hrow : Procedure.runOn (Calculator.evaluateRow Program.lookups s depth c : Program _)
          store = (.ok (Calculator.evaluateRow store.lookups s depth c), store) :=
        Procedure.runOn_lift (run_evaluateWithin store s depth [] c)
      dsimp only
      rw [Procedure.runOn_bind, hrow]
      exact ih _ _

theorem runOn_evaluateReport (depth : Nat) (name : String) :
    Procedure.runOn (Calculator.evaluateReport Program.lookups s depth name) store =
      (Calculator.evaluateReport store.lookups s depth name, store) := by
  have hfound := runOn_found store (p := Program.lookups.report name) rfl (.reportNotFound name)
  have hlook : store.lookups.report name = .ok (store.report? name) := rfl
  unfold Calculator.evaluateReport
  rw [Procedure.runOn_bind, hfound, hlook]
  cases store.report? name with
  | none => rfl
  | some r =>
    have hrows := runOn_evaluateRows store s depth [] .zero r.rows
    let result (found : List ReportRow × ReportStats) : ReportEvaluation :=
      ⟨r.name, found.1, found.2⟩
    change Procedure.runOn (Calculator.evaluateRows Program.lookups s depth [] .zero r.rows >>=
        fun found => pure (result found)) store =
      ((Calculator.evaluateRows (m := Id) store.lookups s depth [] .zero r.rows).bind
        fun found => .ok (result found), store)
    rw [Procedure.runOn_bind, hrows]
    generalize Calculator.evaluateRows (m := Id) store.lookups s depth [] .zero r.rows = found
    cases found with
    | error e => rfl
    | ok found => rfl

end FormulaLedger
