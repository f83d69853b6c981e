import FormulaLedger.Proofs.Pointer.Faults
import FormulaLedger.Proofs.Resolution.Reasons
import FormulaLedger.Proofs.Snapshot.Order
import FormulaLedger.Proofs.Versioning.Deletion

/-!
Names in a snapshot. An entry keeps its id as it is written, and the id that a pointer is written
with is trimmed. So a pointer that is written with the id of another entry refers to that entry
exactly if the id has no blanks at its ends, and then the entry cannot be deleted and is not missing
when the pointer's calculation is evaluated.
-/

set_option autoImplicit false

namespace FormulaLedger

open Procedure Versioning

def EntityKind.unresolved : EntityKind → Oddity
  | .constant => .constantUnresolved
  | .calculation => .calculationUnresolved

def Entity.deletion (x : Entity) : Operation :=
  match x.kind with
  | .constant => .deleteConstant x.uniqueId
  | .calculation => .deleteCalculation x.uniqueId

namespace PointerRecord

theorem target_of_decode {r : PointerRecord} {p : Pointer} {x : Entity} (h : r.decode = .ok p)
    (hkind : r.kind = x.kind.name) (hid : r.uniqueId = some x.uniqueId) :
    p.target = Entity.target ⟨x.kind, Text.trim x.uniqueId⟩ := by
  obtain ⟨kind, u⟩ := x
  obtain ⟨kind', hkind', -, htarget, -⟩ := decode_eq_ok_iff_targetOf.1 h
  obtain ⟨rfl, -, hspells⟩ := targetOf_eq_ok_iff.1 htarget
  have hname := hkind'.symm.trans hkind
  generalize p.target = target at hspells hname
  -- the kinds of the other pointers have other names
  cases kind with
  | constant =>
    cases target with
    | constant v => simpa [Spells, hid, Entity.target, eq_comm] using hspells
    | _ => simp [Target.kind, PointerKind.name, EntityKind.name] at hname
  | calculation =>
    cases target with
    | calculation v => simpa [Spells, hid, Entity.target, eq_comm] using hspells
    | _ => simp [Target.kind, PointerKind.name, EntityKind.name] at hname

end PointerRecord

theorem CalculationEntry.decode_expression {e : CalculationEntry} {d : Draft}
    (h : e.draft = .ok d) : e.expression.map PointerRecord.decode = d.expression.map .ok := by
  rw [draft] at h
  split at h
  · next ps hdecoded =>
    obtain rfl := Except.ok.inj h
    exact decodeFrom_eq_ok_iff.1 hdecoded
  · contradiction

namespace Snapshot

def idsOf (s : Snapshot) : EntityKind → List String
  | .constant => s.constantIds
  | .calculation => s.calculationIds

/-- A calculation's entry has a pointer that is written with the id of another entry. -/
structure Mentions (s : Snapshot) (e : CalculationEntry) (x : Entity) : Prop where
  entered : e ∈ s.calculations
  written : ∃ r ∈ e.expression, r.kind = x.kind.name ∧ r.uniqueId = some x.uniqueId
  named : x.uniqueId ∈ s.idsOf x.kind
  other : x.kind = .calculation → x.uniqueId ≠ e.uniqueId

section

variable {s : Snapshot} {t : Store} {e : CalculationEntry} {x : Entity}

theorem Opens.pointsAt_trimmed (h : s.Opens t) (hm : s.Mentions e x) :
    t.PointsAt e.uniqueId (Entity.target ⟨x.kind, Text.trim x.uniqueId⟩) := by
  obtain ⟨r, hr, hkind, hid⟩ := hm.written
  obtain ⟨d, hdraft, -⟩ := h.acceptable.drafts e hm.entered
  have hdecoded : r.decode ∈ d.expression.map .ok :=
    e.decode_expression hdraft ▸ List.mem_map_of_mem hr
  obtain ⟨p, hp, hdecode⟩ := List.mem_map.1 hdecoded
  exact ⟨_, h.latest?_entry hm.entered hdraft, p, hp,
    PointerRecord.target_of_decode hdecode.symm hkind hid⟩

theorem Opens.wellFormed_of_pointsAt (h : s.Opens t) {u : String} {target : Target}
    (hpoints : t.PointsAt u target) : target.WellFormed := by
  obtain ⟨c, hc, p, hp, rfl⟩ := hpoints
  obtain ⟨i, hi⟩ := List.mem_iff_getElem?.1 (Store.mem_of_latest? hc).1
  obtain ⟨e, d, -, hdraft, rfl⟩ := h.held.getElem?_rows hi
  have hdecoded : .ok p ∈ e.expression.map PointerRecord.decode :=
    e.decode_expression hdraft ▸ List.mem_map_of_mem hp
  obtain ⟨r, -, hdecode⟩ := List.mem_map.1 hdecoded
  exact (Pointer.wellFormed_of_decode hdecode).target

theorem Opens.mem_referring (h : s.Opens t) (hm : s.Mentions e x)
    (htrim : Text.trim x.uniqueId = x.uniqueId) :
    e.uniqueId ∈ t.referring x.kind x.uniqueId := by
  have hpoints := h.pointsAt_trimmed hm
  rw [htrim] at hpoints
  exact (h.held.oneLatest h.acceptable.calculations).mem_referring_iff.2
    ⟨fun hkind => (hm.other hkind).symm, hpoints⟩

theorem Opens.referring_eq_nil (h : s.Opens t) {kind : EntityKind} {u : String}
    (hu : Text.trim u ≠ u) : t.referring kind u = [] := by
  rw [List.eq_nil_iff_forall_not_mem]
  intro y hy
  have hwf := h.wellFormed_of_pointsAt
    ((h.held.oneLatest h.acceptable.calculations).mem_referring_iff.1 hy).2
  cases kind with
  | constant => exact hu hwf.trim_eq
  | calculation => exact hu hwf.trim_eq

theorem Opens.exists_constant? (h : s.Opens t) {u : String} (hu : u ∈ s.constantIds) :
    ∃ c, t.constant? u = some c := by
  rw [← Option.isSome_iff_exists, Store.constant?_isSome_iff, h.held.constants]
  exact hu

theorem Opens.runOn_deletion (h : s.Opens t) {y : String}
    (hx : x.uniqueId ∈ s.idsOf x.kind) (hy : y ∈ t.referring x.kind x.uniqueId) :
    ∃ found, x.deletion.procedure.runOn t =
      (.error (.referenced x.kind x.uniqueId found), t) ∧ .calculation y ∈ found := by
  obtain ⟨kind, u⟩ := x
  have hmem : Referrer.calculation y ∈ (t.referring kind u).map .calculation :=
    List.mem_map_of_mem hy
  cases kind with
  | constant =>
    obtain ⟨c, hc⟩ := h.exists_constant? hx
    have hrun : (deleteConstant u).runOn t =
        (.error (.referenced .constant u (t.referrers .constant u)), t) := by
      rw [runOn_deleteConstant, hc]
      exact if_neg (List.ne_nil_of_mem hy)
    refine ⟨_, ?_, t.referrers_constant u ▸ hmem⟩
    rw [Entity.deletion, Operation.procedure, runOn_bind, hrun]
  | calculation =>
    obtain ⟨c, hc, -⟩ := h.held.latest?_eq h.acceptable.calculations hx
    have hfound : Referrer.calculation y ∈ t.referrers .calculation u := by
      rw [Store.referrers_calculation]
      exact List.mem_append_left _ hmem
    have hrun : (deleteCalculation u).runOn t =
        (.error (.referenced .calculation u (t.referrers .calculation u)), t) := by
      rw [runOn_deleteCalculation, hc]
      exact if_neg (List.ne_nil_of_mem hfound)
    refine ⟨_, ?_, hfound⟩
    rw [Entity.deletion, Operation.procedure, runOn_bind, hrun]

/-- What an open snapshot has an entry for is never missing. A constant may lack a sample. -/
theorem Opens.unresolved_of_reason (h : s.Opens t) (hx : x.uniqueId ∈ s.idsOf x.kind)
    {setting : Setting}
    (hreason : (Reason.about x.kind.unresolved x.uniqueId).BorneOut t setting) :
    x.kind = .constant ∧ ∃ c ∈ s.constants, c.uniqueId = x.uniqueId ∧
      c.resolve? setting.company.location setting.defaultLocation? = none := by
  obtain ⟨kind, u⟩ := x
  cases kind with
  | constant =>
    obtain ⟨c, hc⟩ := h.exists_constant? hx
    exact ⟨rfl, c, h.held.constants ▸ List.mem_of_find?_eq_some hc,
      Store.uniqueId_of_constant? hc, hreason c hc⟩
  | calculation =>
    obtain ⟨c, hc, -⟩ := h.held.latest?_eq h.acceptable.calculations hx
    exact absurd (hc.symm.trans hreason) (Option.some_ne_none c)

end

/-- A pointer that is written with the id of another entry refers to the id without the blanks at
its ends. If there are none it refers to the entry: the calculation is listed among those that do,
the entry cannot be deleted, and no evaluation of the calculation finds it missing. If there are
any, no calculation refers to the entry. -/
theorem mentions_meet {s : Snapshot} {t : Store} {sheets : Materials} {e : CalculationEntry}
    {x : Entity} (hbuild : s.build = .ok (t, sheets)) (hm : s.Mentions e x) :
    t.PointsAt e.uniqueId (Entity.target ⟨x.kind, Text.trim x.uniqueId⟩) ∧
    (Text.trim x.uniqueId = x.uniqueId →
      (∃ found, (expressionReferrers x.kind x.uniqueId).runOn t = (.ok found, t) ∧
        .calculation e.uniqueId ∈ found) ∧
      (∃ found, x.deletion.procedure.runOn t =
        (.error (.referenced x.kind x.uniqueId found), t) ∧ .calculation e.uniqueId ∈ found) ∧
      ∀ setting, ∃ v, t.evaluateLatest setting e.uniqueId = .ok v ∧
        (.about x.kind.unresolved x.uniqueId ∈ v.reasons →
          x.kind = .constant ∧ ∃ c ∈ s.constants, c.uniqueId = x.uniqueId ∧
            c.resolve? setting.company.location setting.defaultLocation? = none)) ∧
    (Text.trim x.uniqueId ≠ x.uniqueId →
      (expressionReferrers x.kind x.uniqueId).runOn t = (.ok [], t)) := by
  obtain ⟨h, -⟩ := opens_of_build hbuild
  have hpoints := h.pointsAt_trimmed hm
  refine ⟨hpoints, fun htrim => ?_, fun htrim => ?_⟩
  · have hmem := h.mem_referring hm htrim
    refine ⟨⟨_, runOn_expressionReferrers _ _ _, List.mem_map_of_mem hmem⟩,
      h.runOn_deletion hm.named hmem, fun setting => ?_⟩
    obtain ⟨c, hc, -⟩ := hpoints
    refine ⟨_, Store.evaluateLatest_of_some setting hc, fun hreason => ?_⟩
    exact h.unresolved_of_reason hm.named
      (t.borneOut_evaluateWithin setting _ _ c _ hreason)
  · rw [runOn_expressionReferrers, h.referring_eq_nil htrim]
    rfl

def feeEntry (rate : String) : CalculationEntry :=
  ⟨"fee", "USD", [{ PointerRecord.bare "constant" with uniqueId := some rate }]⟩

def totalEntry : CalculationEntry :=
  ⟨"total", "USD", [{ PointerRecord.bare "calculation" with uniqueId := some "fee" }]⟩

def feeSnapshot (rate : String) : Snapshot where
  constants := [⟨rate, 2024, "%", none, [⟨"default", 4⟩]⟩]
  calculations := [feeEntry rate, totalEntry]
  materials := []
  reports := []

theorem mentions_feeEntry (rate : String) :
    (feeSnapshot rate).Mentions (feeEntry rate) ⟨.constant, rate⟩ :=
  ⟨List.mem_cons_self, ⟨_, List.mem_cons_self, rfl, rfl⟩, List.mem_cons_self, nofun⟩

theorem mentions_totalEntry (rate : String) :
    (feeSnapshot rate).Mentions totalEntry ⟨.calculation, "fee"⟩ :=
  ⟨List.mem_cons_of_mem _ List.mem_cons_self, ⟨_, List.mem_cons_self, rfl, rfl⟩,
    List.mem_cons_self, fun _ => by decide⟩

theorem resolve?_of_mem_feeSnapshot {rate : String} {c : Constant}
    (hc : c ∈ (feeSnapshot rate).constants) (location : String) :
    (c.resolve? location (some "default")).isSome = true := by
  rw [List.mem_singleton.1 hc]
  simp [Constant.resolve?, Constant.sampleFor?]

def feeStore (rate : String) : Store := ((feeSnapshot rate).enter.runOn .empty).2

/-- The rate and the fee cannot be deleted, and the rate is there when the fee is evaluated. -/
theorem mentions_meet_fee :
    (∃ found, (Entity.deletion ⟨.constant, "rate"⟩).procedure.runOn (feeStore "rate") =
      (.error (.referenced .constant "rate" found), feeStore "rate") ∧
        .calculation "fee" ∈ found) ∧
    (∃ found, (Entity.deletion ⟨.calculation, "fee"⟩).procedure.runOn (feeStore "rate") =
      (.error (.referenced .calculation "fee" found), feeStore "rate") ∧
        .calculation "total" ∈ found) ∧
    ∀ company : Company, ∃ v,
      (feeStore "rate").evaluateLatest ⟨[], company, .standard⟩ "fee" = .ok v ∧
        .about .constantUnresolved "rate" ∉ v.reasons := by
  have hbuild : (feeSnapshot "rate").build = .ok (feeStore "rate", []) := by decide +kernel
  obtain ⟨-, hrate, -⟩ := mentions_meet hbuild (mentions_feeEntry "rate")
  obtain ⟨-, hfee, -⟩ := mentions_meet hbuild (mentions_totalEntry "rate")
  obtain ⟨-, hdeleteRate, hpresent⟩ := hrate (by decide +kernel)
  obtain ⟨-, hdeleteFee, -⟩ := hfee (by decide +kernel)
  refine ⟨hdeleteRate, hdeleteFee, fun company => ?_⟩
  obtain ⟨v, hv, hlacks⟩ := hpresent ⟨[], company, .standard⟩
  refine ⟨v, hv, fun hreason => ?_⟩
  obtain ⟨-, c, hc, -, hnone⟩ := hlacks hreason
  have hsample := resolve?_of_mem_feeSnapshot hc company.location
  rw [Option.isSome_iff_ne_none] at hsample
  exact hsample hnone

/-- A rate whose id has blanks at its ends is there, and has a sample for every company. It is
deleted all the same, and the fee that is written with the same id lacks it. -/
theorem blank_edged_constant_missed :
    (feeSnapshot " rate ").build = .ok (feeStore " rate ", []) ∧
    (feeSnapshot " rate ").Mentions (feeEntry " rate ") ⟨.constant, " rate "⟩ ∧
    (expressionReferrers .constant " rate ").runOn (feeStore " rate ") =
      (.ok [], feeStore " rate ") ∧
    ((Entity.deletion ⟨.constant, " rate "⟩).procedure.runOn (feeStore " rate ")).1 = .ok .done ∧
    ∀ company : Company,
      (∀ c ∈ (feeSnapshot " rate ").constants,
        (c.resolve? company.location (some "default")).isSome = true) ∧
      ∃ v, (feeStore " rate ").evaluateLatest ⟨[], company, .standard⟩ "fee" = .ok v ∧
        .about .constantUnresolved "rate" ∈ v.reasons := by
  refine ⟨by decide +kernel, mentions_feeEntry _, by decide +kernel, by decide +kernel,
    fun company => ⟨fun c hc => resolve?_of_mem_feeSnapshot hc company.location, ?_⟩⟩
  have hrow : (feeStore " rate ").latest? "fee" =
      some ⟨1, "fee", 1, true, "USD", [.of (.constant "rate")]⟩ := by decide +kernel
  have hlacks : (feeStore " rate ").constant? "rate" = none := by decide +kernel
  refine ⟨_, Store.evaluateLatest_of_some _ hrow, ?_⟩
  refine ((feeStore " rate ").mem_reasons_evaluateWithin _).2
    (.inl ⟨_, List.mem_singleton_self _, ?_⟩)
  change _ ∈ (Setting.resolveConstant _ "rate" (.ok ((feeStore " rate ").constant? "rate"))).reasons
  rw [hlacks]
  exact List.mem_singleton_self _

end Snapshot

end FormulaLedger
