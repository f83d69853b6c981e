import FormulaLedger.Proofs.Pointer.Record
import FormulaLedger.Proofs.Snapshot.Opening
import FormulaLedger.Proofs.Store.Past
import FormulaLedger.Proofs.Versioning.Run

set_option autoImplicit false

namespace FormulaLedger

open Procedure

def Request.constant? : Request → Option Constant
  | .insertConstant c | .updateConstant _ c => some c
  | _ => none

theorem Request.constant?_of_not_writesConstants {r : Request} (h : r.writesConstants = false) :
    r.constant? = none := by
  cases r <;> trivial

theorem Request.writesConstants_of_isRead {r : Request} (h : r.isRead = true) :
    r.writesConstants = false := by
  cases r <;> trivial

theorem Store.mem_constants_answer {s : Store} {r : Request} {c : Constant}
    (h : c ∈ (s.answer r).2.constants) : c ∈ s.constants ∨ r.constant? = some c := by
  by_cases hr : r.writesConstants = false
  · rw [s.answer_constants hr] at h
    exact .inl h
  · revert h
    cases r with
    | insertConstant d =>
      refine change_induction (p := fun t => c ∈ t.constants → _) .inl fun t ht h => ?_
      obtain ⟨_, rfl⟩ := insertConstant_eq_ok_iff.1 ht
      exact (List.mem_append.1 h).imp_right fun hd => congrArg some (List.mem_singleton.1 hd).symm
    | updateConstant u d =>
      refine change_induction (p := fun t => c ∈ t.constants → _) .inl fun t ht h => ?_
      obtain ⟨_, _, rfl⟩ := updateConstant_eq_ok_iff.1 ht
      obtain ⟨old, hold, rfl⟩ := List.mem_map.1 h
      by_cases hu : old.uniqueId = u
      · exact .inr (congrArg some (if_pos hu).symm)
      · rw [if_neg hu]
        exact .inl hold
    | deleteConstant u =>
      refine change_induction (p := fun t => c ∈ t.constants → _) .inl fun t ht h => ?_
      obtain ⟨_, rfl⟩ := deleteConstant_eq_ok_iff.1 ht
      exact .inl (List.mem_filter.1 h).1
    | _ => exact absurd rfl hr

namespace Versioning

variable {α : Type} {kind : EntityKind} {u : String} {d : Draft} {c : Calculation}

abbrev SparesConstants (p : Procedure α) : Prop := p.Asks fun r => r.writesConstants = false

theorem sparesConstants_ask {r : Request} (h : r.writesConstants = false) :
    SparesConstants (ask r) := asks_ask h

theorem sparesConstants_attempt {r : Request} (h : r.writesConstants = false) :
    SparesConstants (attempt r) := asks_attempt h

theorem sparesConstants_of_reads {p : Procedure α} (h : p.Asks fun r => r.isRead = true) :
    SparesConstants p :=
  Program.Asks.mono h fun _ => Request.writesConstants_of_isRead

theorem sparesConstants_validate : SparesConstants (validate u d) := by
  unfold validate
  split
  · exact asks_pure _
  · exact asks_throw _

theorem sparesConstants_latestForEdit : SparesConstants (latestForEdit u) := by
  refine (sparesConstants_ask (r := .latest u) rfl).bind fun c => ?_
  cases c with
  | some c => exact asks_pure _
  | none =>
    refine (sparesConstants_ask (r := .history u) rfl).bind fun rows => ?_
    split
    · exact asks_throw _
    · exact asks_throw _

theorem sparesConstants_createCalculation : SparesConstants (createCalculation u d) := by
  refine sparesConstants_validate.bind fun _ => ?_
  refine (sparesConstants_ask (r := .history u) rfl).bind fun rows => ?_
  dsimp only
  split
  · exact asks_throw _
  · exact sparesConstants_ask (r := .insertRow _) rfl

theorem sparesConstants_restoreLatest : SparesConstants (restoreLatest c) := by
  refine (sparesConstants_attempt (r := .latest c.uniqueId) rfl).bind fun found => ?_
  split
  · exact (sparesConstants_attempt (r := .setLatest c.id true) rfl).bind fun _ => asks_pure _
  · exact asks_pure _

theorem sparesConstants_insertNext : SparesConstants (insertNext c d) := by
  refine (sparesConstants_attempt (r := .insertRow _) rfl).bind fun stored => ?_
  split
  · exact asks_pure _
  · exact sparesConstants_restoreLatest.bind fun _ => asks_throw _

theorem sparesConstants_bumpFrom : SparesConstants (bumpFrom c d) := by
  refine (sparesConstants_ask (r := .row c.id) rfl).bind fun reread => ?_
  dsimp only
  split
  · exact asks_throw _
  refine (sparesConstants_ask (r := .version _ _) rfl).bind fun taken => ?_
  split
  · exact asks_throw _
  refine (sparesConstants_ask (r := .setLatest _ _) rfl).bind fun wasLatest => ?_
  split
  · exact asks_throw _
  · exact sparesConstants_insertNext

theorem sparesConstants_redirectEach {old new : RowId} (rs : List Report) :
    SparesConstants (redirectEach old new rs) := by
  induction rs with
  | nil => exact asks_pure _
  | cons r rs ih =>
    rw [redirectEach]
    split
    · refine (sparesConstants_ask (r := .updateReport _) rfl).bind fun _ => ?_
      exact ih.bind fun _ => asks_pure _
    · exact ih

theorem sparesConstants_redirectReports {old new : RowId} :
    SparesConstants (redirectReports old new) := by
  unfold redirectReports
  split
  · exact asks_pure _
  · refine (sparesConstants_ask (r := .reportsListing _) rfl).bind fun rs => ?_
    exact sparesConstants_redirectEach rs

theorem sparesConstants_editInPlace : SparesConstants (editInPlace c d) := by
  refine (sparesConstants_attempt (r := .updateLatest _ _) rfl).bind fun updated => ?_
  split
  · exact asks_pure _
  · exact asks_throw _
  · exact asks_throw _

theorem sparesConstants_editAsVersion : SparesConstants (editAsVersion c d) :=
  sparesConstants_bumpFrom.bind fun _ => sparesConstants_redirectReports.bind fun _ => asks_pure _

theorem sparesConstants_editCalculation : SparesConstants (editCalculation u d) := by
  refine sparesConstants_validate.bind fun _ => sparesConstants_latestForEdit.bind fun c => ?_
  refine (sparesConstants_of_reads (Change.expressionReferrers_asks _ _)).bind fun found => ?_
  dsimp only
  split
  · exact asks_throw _
  refine (sparesConstants_of_reads (Change.isUnused_asks _ _)).bind fun unused => ?_
  cases unused with
  | true => exact sparesConstants_editInPlace
  | false => exact sparesConstants_editAsVersion

end Versioning

namespace Operation

open Versioning

/-- The constant comes with the operation, which has looked at its id unless it is an edit. -/
def Brings (c : Constant) : Operation → Prop
  | .createConstant d => d = c ∧ Text.isBlankText c.uniqueId = false
  | .editConstant _ d => d = c
  | _ => False

/-- The requests that put only such constants into a store as come with the operation. -/
def MayAsk (op : Operation) (r : Request) : Prop := ∀ c, r.constant? = some c → op.Brings c

variable {α : Type} {op : Operation}

theorem mayAsk_of_spares {p : Procedure α} (h : SparesConstants p) (op : Operation) :
    p.Asks op.MayAsk :=
  Program.Asks.mono h fun r hr c hc => by
    rw [Request.constant?_of_not_writesConstants hr] at hc
    contradiction

theorem mayAsk_of_reads {p : Procedure α} (h : p.Asks fun r => r.isRead = true) (op : Operation) :
    p.Asks op.MayAsk := mayAsk_of_spares (sparesConstants_of_reads h) op

theorem sparesConstants_change (x : Change) : SparesConstants x.procedure := by
  cases x with
  | create u d => exact sparesConstants_createCalculation.bind fun _ => asks_pure _
  | bump u d =>
    refine Asks.bind ?_ fun _ => asks_pure _
    exact sparesConstants_validate.bind fun _ =>
      sparesConstants_latestForEdit.bind fun _ => sparesConstants_bumpFrom
  | bumpFrom copy d => exact sparesConstants_bumpFrom.bind fun _ => asks_pure _
  | edit u d => exact sparesConstants_editCalculation.bind fun _ => asks_pure _

theorem mayAsk (op : Operation) : op.procedure.Asks op.MayAsk := by
  cases op with
  | change x => exact mayAsk_of_spares (sparesConstants_change x) _
  | deleteCalculation u =>
    refine Asks.bind ?_ fun _ => asks_pure _
    refine (mayAsk_of_reads (latest_asks u) _).bind fun _ => ?_
    refine (mayAsk_of_reads (assertDeletable_asks .calculation u) _).bind fun _ => ?_
    exact mayAsk_of_spares (sparesConstants_ask (r := .deleteCalculation u) rfl) _
  | createConstant c =>
    refine Asks.bind ?_ fun _ => asks_pure _
    show (if Text.isBlankText c.uniqueId then _ else _ : Procedure Unit).Asks _
    split
    · exact asks_throw _
    · next hblank =>
      refine asks_ask (r := .insertConstant c) fun d hd => ?_
      obtain rfl := Option.some.inj hd
      exact ⟨rfl, Bool.eq_false_iff.2 hblank⟩
  | editConstant u c =>
    refine Asks.bind ?_ fun _ => asks_pure _
    refine (mayAsk_of_reads (assertIdentityEditable_asks .constant u c.identity) _).bind fun _ => ?_
    exact asks_ask (r := .updateConstant u c) fun d hd => Option.some.inj hd
  | deleteConstant u =>
    refine Asks.bind ?_ fun _ => asks_pure _
    refine (mayAsk_of_spares (sparesConstants_ask (r := .constant u) rfl) _).bind fun found => ?_
    cases found with
    | none => exact asks_throw _
    | some c =>
      refine (mayAsk_of_reads (assertDeletable_asks .constant u) _).bind fun _ => ?_
      exact asks_ask (r := .deleteConstant u) nofun
  | insertReport r =>
    exact mayAsk_of_spares
      ((sparesConstants_ask (r := .insertReport r) rfl).bind fun _ => asks_pure _) _
  | updateReport r =>
    exact mayAsk_of_spares
      ((sparesConstants_ask (r := .updateReport r) rfl).bind fun _ => asks_pure _) _

/-- However far an operation comes, a constant has been there before or comes with it. -/
theorem brings_of_reaches {s t : Store} {log : Log} {rest : Program (Except LedgerError Outcome)}
    (hr : op.Reaches s log rest t) {c : Constant} (hc : c ∈ t.constants) :
    c ∈ s.constants ∨ op.Brings c := by
  refine Program.Asks.of_reaches (fun t => ∀ c ∈ t.constants, c ∈ s.constants ∨ op.Brings c)
    (fun t r hmay ht c hc => ?_) hr op.mayAsk (fun c => .inl) c hc
  rcases Store.mem_constants_answer hc with hc | hstored
  · exact ht c hc
  · exact .inr (hmay c hstored)

theorem Brings.visible {c : Constant} (h : op.Brings c) :
    (∃ x ∈ c.uniqueId.toList, Text.isBlank x = false) ∨ ∃ u, op = .editConstant u c := by
  cases op with
  | createConstant d =>
    obtain ⟨rfl, hnamed⟩ := h
    exact .inl (Text.isBlankText_eq_false_iff.1 hnamed)
  | editConstant u d =>
    obtain rfl : d = c := h
    exact .inr ⟨u, rfl⟩
  | _ => exact absurd h id

end Operation

/-- What operations, one after the other, leave of a store, whatever requests fail. -/
inductive Store.Continued (first : Store) : List Operation → Store → Prop
  | start : Continued first [] first
  | perform {ops : List Operation} {s t : Store} {op : Operation} {log : Log}
      {result : Except LedgerError Outcome} : Continued first ops s →
      op.Reaches s log (.done result) t → Continued first (ops ++ [op]) t

namespace Store

variable {first s : Store} {ops : List Operation}

theorem Continued.brought (h : first.Continued ops s) {c : Constant} (hc : c ∈ s.constants) :
    c ∈ first.constants ∨ ∃ op ∈ ops, op.Brings c := by
  induction h with
  | start => exact .inl hc
  | perform _ hr ih =>
    rcases Operation.brings_of_reaches hr hc with hc | hbrings
    · exact (ih hc).imp_right fun ⟨op, hop, hbrings⟩ => ⟨op, List.mem_append_left _ hop, hbrings⟩
    · exact .inr ⟨_, List.mem_append_right _ List.mem_cons_self, hbrings⟩

theorem visible_of_build {snapshot : Snapshot} {sheets : Materials}
    (h : snapshot.build = .ok (s, sheets)) {c : Constant} (hc : c ∈ s.constants) :
    ∃ x ∈ c.uniqueId.toList, Text.isBlank x = false := by
  have hopens := (Snapshot.opens_of_build h).1
  rw [hopens.held.constants] at hc
  exact Text.isBlankText_eq_false_iff.1 (hopens.acceptable.named c hc)

end Store

/-- The unique ids that a constant can be referred to by. -/
theorem PointerRecord.exists_decode_constant_iff (k : String) :
    (∃ (r : PointerRecord) (p : Pointer), r.decode = .ok p ∧ p.target = .constant k) ↔
      k ≠ "" ∧ Text.trim k = k := by
  constructor
  · rintro ⟨r, p, hdecode, htarget⟩
    have hwell := (Pointer.wellFormed_of_decode hdecode).target
    rw [htarget] at hwell
    exact ⟨hwell.ne_empty, hwell.trim_eq⟩
  · rintro ⟨hne, htrim⟩
    exact ⟨_, .of (.constant k), Pointer.decode_record_iff.2 ⟨hne, hne, htrim⟩, rfl⟩

namespace Store

/-- After operations on the empty store or on one that a snapshot is opened to, whatever requests
fail, and between the requests of an operation that follows them: a constant has a unique id with
a visible character unless an edit was given that very constant. A pointer can be read that refers
to it exactly if its unique id is not empty and has no blanks at its ends. -/
theorem Continued.constants_visible {first s : Store} {ops : List Operation}
    (h : first.Continued ops s)
    (hfirst : first = empty ∨
      ∃ (snapshot : Snapshot) (sheets : Materials), snapshot.build = .ok (first, sheets)) :
    (∀ c ∈ s.constants, (∃ x ∈ c.uniqueId.toList, Text.isBlank x = false) ∨
      ∃ u, .editConstant u c ∈ ops) ∧
    (∀ (op : Operation) (log : Log) (rest : Program (Except LedgerError Outcome)) (t : Store),
      op.Reaches s log rest t →
      ∀ c ∈ t.constants, (∃ x ∈ c.uniqueId.toList, Text.isBlank x = false) ∨
        ∃ u, .editConstant u c ∈ ops ++ [op]) ∧
    ∀ c ∈ s.constants,
      (∃ (r : PointerRecord) (p : Pointer), r.decode = .ok p ∧ p.target = .constant c.uniqueId) ↔
        c.uniqueId ≠ "" ∧ Text.trim c.uniqueId = c.uniqueId := by
  have hfirst : ∀ c ∈ first.constants, ∃ x ∈ c.uniqueId.toList, Text.isBlank x = false := by
    intro c hc
    obtain rfl | ⟨snapshot, sheets, hbuild⟩ := hfirst
    · exact absurd hc List.not_mem_nil
    · exact visible_of_build hbuild hc
  have hvisible : ∀ c ∈ s.constants, (∃ x ∈ c.uniqueId.toList, Text.isBlank x = false) ∨
      ∃ u, .editConstant u c ∈ ops := by
    intro c hc
    rcases h.brought hc with hc | ⟨op, hop, hbrings⟩
    · exact .inl (hfirst c hc)
    · exact hbrings.visible.imp_right fun ⟨u, hedit⟩ => ⟨u, hedit ▸ hop⟩
  refine ⟨hvisible, fun op log rest t hr c hc => ?_,
    fun c _ => PointerRecord.exists_decode_constant_iff c.uniqueId⟩
  rcases Operation.brings_of_reaches hr hc with hc | hbrings
  · exact (hvisible c hc).imp_right fun ⟨u, hedit⟩ => ⟨u, List.mem_append_left _ hedit⟩
  · exact hbrings.visible.imp_right fun ⟨u, hedit⟩ => ⟨u, by simp [hedit]⟩

theorem Continued.runOn {first s : Store} {ops : List Operation} (h : first.Continued ops s)
    (op : Operation) : first.Continued (ops ++ [op]) (op.procedure.runOn s).2 := by
  obtain ⟨log, hreaches, _⟩ := Program.reaches_run (ExceptT.run op.procedure) s
  exact h.perform hreaches

def rate (uniqueId : String) : Constant := ⟨uniqueId, 2024, "%", none, []⟩

def renamings : List Operation :=
  [.createConstant (rate "rate"), .editConstant "rate" (rate " ")]

def blankRate : Store := { empty with constants := [rate " "] }

theorem continued_blankRate : empty.Continued renamings blankRate := by
  have hstart : empty.Continued [] empty := .start
  have hedited := (hstart.runOn (.createConstant (rate "rate"))).runOn
    (.editConstant "rate" (rate " "))
  have hstore : ((Operation.editConstant "rate" (rate " ")).procedure.runOn
      ((Operation.createConstant (rate "rate")).procedure.runOn empty).2).2 = blankRate := by
    decide +kernel
  rw [hstore] at hedited
  exact hedited

/-- The blank id comes with the edit. What a snapshot brings has a visible id. -/
theorem constants_visible_rate :
    (∃ u, .editConstant u (rate " ") ∈ renamings) ∧
    ∃ s sheets, Snapshot.forwardSnapshot.build = .ok (s, sheets) ∧
      ∀ c ∈ s.constants, ∃ x ∈ c.uniqueId.toList, Text.isBlank x = false := by
  constructor
  · have h := (continued_blankRate.constants_visible (.inl rfl)).1 (rate " ") List.mem_cons_self
    exact h.resolve_left (mt Text.isBlankText_eq_false_iff.2 (by decide +kernel))
  · obtain ⟨s, sheets, hbuild⟩ := Snapshot.build_forwardSnapshot
    refine ⟨s, sheets, hbuild, fun c hc => ?_⟩
    have h := (Continued.start.constants_visible (.inr ⟨_, _, hbuild⟩)).1 c hc
    exact h.resolve_right fun ⟨u, hu⟩ => List.not_mem_nil hu

/-- A constant is renamed to a blank id, and no pointer can be read that refers to it. -/
theorem blank_constant_stored : ∃ ops s, empty.Continued ops s ∧ ∃ c ∈ s.constants,
    (∀ x ∈ c.uniqueId.toList, Text.isBlank x = true) ∧
    ¬ ∃ (r : PointerRecord) (p : Pointer), r.decode = .ok p ∧ p.target = .constant c.uniqueId := by
  have hblank : Text.isBlankText " " = true := by decide +kernel
  refine ⟨_, _, continued_blankRate, rate " ", List.mem_cons_self, List.all_eq_true.1 hblank,
    fun h => ?_⟩
  exact absurd ((PointerRecord.exists_decode_constant_iff " ").1 h) (by decide +kernel)

end Store

end FormulaLedger
