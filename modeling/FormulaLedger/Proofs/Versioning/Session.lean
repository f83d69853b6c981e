import FormulaLedger.Proofs.Store.Past
import FormulaLedger.Proofs.Versioning.Effect

set_option autoImplicit false

namespace FormulaLedger

open Procedure Versioning

namespace Procedure

variable {α β : Type} {s : Store}

theorem runOn_bind_pure (p : Procedure α) (f : α → β) (s : Store) :
    ((p >>= fun a => pure (f a)).runOn s).2 = (p.runOn s).2 := by
  rw [runOn_bind]
  generalize p.runOn s = ended
  obtain ⟨result, t⟩ := ended
  cases result with
  | ok a => rfl
  | error e => rfl

theorem runOn_ask (r : Request) (s : Store) : ((ask r).runOn s).2 = (s.answer r).2 := by
  cases h : (s.answer r).1 with
  | ok a => rw [runOn_ask_of_ok (Prod.ext h rfl)]
  | error e => rw [runOn_ask_of_error (Prod.ext h rfl)]

end Procedure

namespace Store

variable {s : Store}

theorem succeeded_congr {c copy : Calculation} (hid : copy.id = c.id)
    (hu : copy.uniqueId = c.uniqueId) (hv : copy.version = c.version) (d : Draft) :
    s.succeeded copy d = s.succeeded c d := by
  rw [succeeded, succeeded, hid, hu, hv]

end Store

namespace Operation

/-- What an operation can do to a store that does not fail. -/
inductive Effect (s : Store) : Operation → Store → Prop
  | refused (op : Operation) : Effect s op s
  | created {u : String} {d : Draft} : d.check u = .ok () → s.revisions u = [] →
      Effect s (.change (.create u d)) (s.withRow (.first u d))
  | bumped {c : Calculation} {d : Draft} : d.check c.uniqueId = .ok () → c ∈ s.latestRows →
      Effect s (.change (.bump c.uniqueId d)) (s.succeeded c d)
  | bumpedFrom {c copy : Calculation} {d : Draft} : c ∈ s.latestRows → copy.id = c.id →
      copy.uniqueId = c.uniqueId → copy.version = c.version →
      Effect s (.change (.bumpFrom copy d)) (s.succeeded c d)
  | edited {c : Calculation} {d : Draft} : d.check c.uniqueId = .ok () → c ∈ s.latestRows →
      s.referrers .calculation c.uniqueId = [] →
      Effect s (.change (.edit c.uniqueId d)) (s.modifyRow c.id fun c => { c with draft := d })
  | versioned {c : Calculation} {d : Draft} : d.check c.uniqueId = .ok () → c ∈ s.latestRows →
      (c.unit = d.unit ∨ s.referring .calculation c.uniqueId = []) →
      Effect s (.change (.edit c.uniqueId d)) ((s.succeeded c d).redirected c.id (s.lastId + 1))
  | removed {u : String} : s.referrers .calculation u = [] →
      Effect s (.deleteCalculation u) (s.deleteCalculation u).2
  | constantCreated {c : Constant} : Text.isBlankText c.uniqueId = false →
      Effect s (.createConstant c) (s.answer (.insertConstant c)).2
  | constantEdited {u : String} {old c : Constant} : s.constant? u = some old →
      (old.identity = c.identity ∨ s.referring .constant u = []) →
      Effect s (.editConstant u c) (s.answer (.updateConstant u c)).2
  | constantRemoved {u : String} : s.referring .constant u = [] →
      Effect s (.deleteConstant u) (s.answer (.deleteConstant u)).2
  | reportInserted (r : Report) : Effect s (.insertReport r) (s.answer (.insertReport r)).2
  | reportUpdated (r : Report) : Effect s (.updateReport r) (s.answer (.updateReport r)).2

variable {s : Store}

theorem effect_create (hs : s.Chained) (u : String) (d : Draft) :
    Effect s (.change (.create u d)) ((createCalculation u d).runOn s).2 := by
  rw [runOn_createCalculation hs]
  split
  · exact .refused _
  · next hcheck =>
    split
    · next hnew => exact .created hcheck hnew
    · exact .refused _

theorem effect_bump (hs : s.Chained) (u : String) (d : Draft) :
    Effect s (.change (.bump u d)) ((bumpVersion u d).runOn s).2 := by
  rw [runOn_bumpVersion hs]
  split
  · exact .refused _
  · next hcheck =>
    split
    · next c hlatest =>
      obtain ⟨hc, rfl⟩ := Store.latest?_mem_latestRows hlatest
      exact .bumped hcheck hc
    · exact .refused _

theorem effect_bumpFrom (hs : s.Chained) {copy : Calculation} (hcopy : s.Agrees copy) (d : Draft) :
    Effect s (.change (.bumpFrom copy d)) ((bumpFrom copy d).runOn s).2 := by
  rw [runOn_bumpFrom hs hcopy]
  split
  · next hlatest =>
    obtain ⟨c, hc, hid, hu, hv⟩ := (hcopy.stillLatest_iff hs).1 hlatest
    rw [Store.succeeded_congr hid.symm hu.symm hv.symm]
    exact .bumpedFrom hc hid.symm hu.symm hv.symm
  · exact .refused _

theorem effect_edit (hs : s.Chained) (hn : s.Named) (u : String) (d : Draft) :
    Effect s (.change (.edit u d)) ((editCalculation u d).runOn s).2 := by
  rw [runOn_editCalculation hs hn]
  split
  · exact .refused _
  · next hcheck =>
    split
    · exact .refused _
    · next c hlatest =>
      obtain ⟨hc, rfl⟩ := Store.latest?_mem_latestRows hlatest
      by_cases hrefused : c.unit ≠ d.unit ∧ s.referring .calculation c.uniqueId ≠ []
      · rw [if_pos hrefused]
        exact .refused _
      · rw [if_neg hrefused]
        by_cases hunused : s.referrers .calculation c.uniqueId = []
        · rw [if_pos hunused]
          exact .edited hcheck hc hunused
        · rw [if_neg hunused]
          refine .versioned hcheck hc ?_
          rw [Decidable.not_and_iff_or_not, Decidable.not_not, Decidable.not_not] at hrefused
          exact hrefused

theorem effect_delete (s : Store) (u : String) :
    Effect s (.deleteCalculation u) ((Versioning.deleteCalculation u).runOn s).2 := by
  rw [runOn_deleteCalculation]
  split
  · exact .refused _
  · split
    · next hfree => exact .removed hfree
    · exact .refused _

theorem effect_createConstant (s : Store) (c : Constant) :
    Effect s (.createConstant c) ((Versioning.createConstant c).runOn s).2 := by
  rw [runOn_createConstant]
  split
  · exact .refused _
  · next hblank =>
    rw [runOn_ask]
    exact .constantCreated (Bool.eq_false_iff.2 hblank)

theorem effect_editConstant (s : Store) (u : String) (c : Constant) :
    Effect s (.editConstant u c) ((Versioning.editConstant u c).runOn s).2 := by
  rw [runOn_editConstant]
  split
  · exact .refused _
  · next old hold =>
    split
    · next hguard =>
      rw [runOn_ask]
      exact .constantEdited hold hguard
    · exact .refused _

theorem effect_deleteConstant (s : Store) (u : String) :
    Effect s (.deleteConstant u) ((Versioning.deleteConstant u).runOn s).2 := by
  rw [runOn_deleteConstant]
  split
  · exact .refused _
  · split
    · next hfree =>
      rw [runOn_ask]
      exact .constantRemoved hfree
    · exact .refused _

theorem effect (hs : s.Chained) (hn : s.Named) {held : List Calculation}
    (hheld : ∀ c ∈ held, s.Agrees c) {op : Operation} (ho : op.StartsFrom held) :
    op.Effect s (op.procedure.runOn s).2 := by
  cases op with
  | change x =>
    cases x with
    | create u d =>
      rw [procedure, Change.procedure, runOn_bind_pure]
      exact effect_create hs u d
    | bump u d =>
      rw [procedure, Change.procedure, runOn_bind_pure]
      exact effect_bump hs u d
    | bumpFrom copy d =>
      rw [procedure, Change.procedure, runOn_bind_pure]
      exact effect_bumpFrom hs (hheld copy ho) d
    | edit u d =>
      rw [procedure, Change.procedure, runOn_bind_pure]
      exact effect_edit hs hn u d
  | deleteCalculation u =>
    rw [procedure, runOn_bind_pure]
    exact effect_delete s u
  | createConstant c =>
    rw [procedure, runOn_bind_pure]
    exact effect_createConstant s c
  | editConstant u c =>
    rw [procedure, runOn_bind_pure]
    exact effect_editConstant s u c
  | deleteConstant u =>
    rw [procedure, runOn_bind_pure]
    exact effect_deleteConstant s u
  | insertReport r =>
    rw [procedure, runOn_bind_pure, runOn_ask]
    exact .reportInserted r
  | updateReport r =>
    rw [procedure, runOn_bind_pure, runOn_ask]
    exact .reportUpdated r

end Operation

theorem Run.orderly {es : List Episode} {held : List Calculation} {s : Store}
    (h : Run es held s) : s.Orderly := by
  induction h with
  | start => exact Store.orderly_empty
  | read c _ _ ih => exact ih
  | perform _ _ hr ih => exact hr.kept (fun _ r hs => hs.answer r) ih

theorem Run.named {es : List Episode} {held : List Calculation} {s : Store} (h : Run es held s) :
    s.Named := h.orderly.reports

/-- What is left of a run by one more operation, no request of which fails. -/
theorem Run.runOn {es : List Episode} {held : List Calculation} {s : Store} (h : Run es held s)
    {op : Operation} (ho : op.StartsFrom held) :
    ∃ e, Log.faultless e.log = true ∧ Run (es ++ [e]) held (op.procedure.runOn s).2 := by
  obtain ⟨log, hreaches, hlog⟩ := Program.reaches_run (ExceptT.run op.procedure) s
  exact ⟨⟨op, log, _⟩, hlog, h.perform ho hreaches⟩

theorem Run.runOn_all {es : List Episode} {held : List Calculation} {s : Store} (h : Run es held s)
    {ops : List Operation} (hops : ∀ op ∈ ops, op.StartsFrom held) :
    ∃ es, Run es held (ops.foldl (fun s op => (op.procedure.runOn s).2) s) := by
  induction ops generalizing es s with
  | nil => exact ⟨es, h⟩
  | cons op ops ih =>
    obtain ⟨e, _, hnext⟩ := h.runOn (hops op List.mem_cons_self)
    exact ih hnext fun o ho => hops o (List.mem_cons_of_mem _ ho)

/-- A store after operations that may be done, one after the other. -/
inductive Session (may : Store → Operation → Prop) : Store → Prop
  | start : Session may Store.empty
  | perform {s : Store} {op : Operation} : Session may s → may s op →
      Session may (op.procedure.runOn s).2

/-- A session is a run without failures when its operations start from no rows read before. -/
theorem Session.run {may : Store → Operation → Prop} {s : Store}
    (hmay : ∀ s op, may s op → op.StartsFrom []) (h : Session may s) :
    ∃ es, Run es [] s ∧ ∀ e ∈ es, Log.faultless e.log = true := by
  induction h with
  | start => exact ⟨[], .start, fun e he => absurd he List.not_mem_nil⟩
  | perform _ hop ih =>
    obtain ⟨es, hrun, hes⟩ := ih
    obtain ⟨e, he, hnext⟩ := hrun.runOn (hmay _ _ hop)
    refine ⟨es ++ [e], hnext, fun e' he' => ?_⟩
    rcases List.mem_append.1 he' with he' | he'
    · exact hes e' he'
    · obtain rfl := List.mem_singleton.1 he'
      exact he

end FormulaLedger
