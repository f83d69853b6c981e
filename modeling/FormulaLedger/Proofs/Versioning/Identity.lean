import FormulaLedger.Proofs.Versioning.Session

set_option autoImplicit false

namespace FormulaLedger

namespace Store

variable {s t : Store} {k : String}

def HasConstant (s : Store) (k unit : String) : Prop :=
  ∃ c, s.constant? k = some c ∧ c.unit = unit

theorem HasConstant.of_constants_eq {unit : String} (h : s.HasConstant k unit)
    (ht : t.constants = s.constants) : t.HasConstant k unit := by
  rw [HasConstant, constant?, ht]
  exact h

/-- A constant that is replaced under its own unique id keeps its unit if its identity is kept, and
no other constant takes the place of one that is stored. -/
theorem hasConstant_updateConstant {u : String} {c old : Constant}
    (h : s.updateConstant u c = .ok t) (hold : s.constant? k = some old)
    (hsame : u = k → old.identity = c.identity) : t.HasConstant k old.unit := by
  obtain ⟨_, hfree, _⟩ := updateConstant_eq_ok_iff.1 h
  rw [HasConstant, constant?_updateConstant h]
  by_cases hk : k = c.uniqueId
  · -- a replacement that takes the unique id of another constant is refused
    have hu : c.uniqueId = u := hfree.resolve_right (by rw [← hk, hold]; nofun)
    rw [if_pos hk]
    exact ⟨c, rfl, (congrArg Identity.unit (hsame (hu.symm.trans hk.symm))).symm⟩
  · have hne : k ≠ u := by
      rintro rfl
      exact hk ((uniqueId_of_constant? hold).symm.trans
        (congrArg Identity.uniqueId (hsame rfl)))
    rw [if_neg hk, if_neg hne]
    exact ⟨old, hold, rfl⟩

end Store

namespace Operation

variable {s t : Store} {op : Operation}

def bumpedUnit? (u : String) : Operation → Option String
  | .change (.bump v d) => if v = u then some d.unit else none
  | .change (.bumpFrom copy d) => if copy.uniqueId = u then some d.unit else none
  | _ => none

theorem Effect.constant_kept (h : op.Effect s t) {k : String} {old : Constant}
    (href : s.referring .constant k ≠ []) (hold : s.constant? k = some old) :
    t.HasConstant k old.unit := by
  have hsame : s.HasConstant k old.unit := ⟨old, hold, rfl⟩
  have hchange : ∀ next, (∀ t, next = .ok t → t.HasConstant k old.unit) →
      (s.change next).2.HasConstant k old.unit := fun next =>
    Store.change_induction (p := fun t => t.HasConstant k old.unit) hsame
  cases h with
  | refused => exact hsame
  | created _ _ => exact hsame
  | bumped _ _ => exact hsame
  | bumpedFrom _ _ _ _ => exact hsame
  | edited _ _ _ => exact hsame
  | versioned _ _ _ => exact hsame
  | removed _ => exact hsame
  | constantCreated _ =>
    refine hchange _ fun t ht => ⟨old, ?_, rfl⟩
    have hfree := (Store.insertConstant_eq_ok_iff.1 ht).1
    rw [Store.constant?_insertConstant ht, if_neg]
    · exact hold
    · rintro rfl
      rw [hfree] at hold
      contradiction
  | @constantEdited u own c hown hguard =>
    refine hchange _ fun t ht => ?_
    refine Store.hasConstant_updateConstant ht hold fun hu => ?_
    subst hu
    obtain rfl := Option.some.inj (hown.symm.trans hold)
    exact hguard.resolve_right href
  | @constantRemoved u hfree =>
    refine hchange _ fun t ht => ?_
    have hne : k ≠ u := fun hu => href (hu ▸ hfree)
    refine ⟨old, ?_, rfl⟩
    rw [Store.constant?_deleteConstant ht, if_neg hne, hold]
  | reportInserted r =>
    exact hchange _ fun t ht =>
      hsame.of_constants_eq (by grind [Store.insertReport])
  | reportUpdated r =>
    exact hchange _ fun t ht =>
      hsame.of_constants_eq (by grind [Store.updateReport])

/-- A calculation that another refers to keeps a latest row, and its unit unless it is bumped. -/
theorem Effect.unit_kept (h : op.Effect s t) (hs : s.Chained) {old : Calculation}
    (href : s.referring .calculation old.uniqueId ≠ []) (hold : old ∈ s.latestRows) :
    ∃ new ∈ t.latestRows, new.uniqueId = old.uniqueId ∧
      (new.unit = old.unit ∨ op.bumpedUnit? old.uniqueId = some new.unit) := by
  have hsame : ∃ new ∈ s.latestRows, new.uniqueId = old.uniqueId ∧
      (new.unit = old.unit ∨ op.bumpedUnit? old.uniqueId = some new.unit) :=
    ⟨old, hold, rfl, .inl rfl⟩
  have hother : ∀ c : Calculation, c.uniqueId ≠ old.uniqueId → c ∈ s.latestRows →
      old.id ≠ c.id := by
    intro c hne hc heq
    have hrow := hs.eq_of_id (Store.mem_latestRows.1 hold).1 (Store.mem_latestRows.1 hc).1 heq
    exact hne (congrArg Calculation.uniqueId hrow).symm
  -- a successor has its own unit if it succeeds the calculation itself
  have hsucceeded : ∀ (c : Calculation) (d : Draft), c ∈ s.latestRows →
      ∃ new ∈ (s.succeeded c d).latestRows, new.uniqueId = old.uniqueId ∧
        (c.uniqueId = old.uniqueId ∧ new.unit = d.unit ∨
          c.uniqueId ≠ old.uniqueId ∧ new.unit = old.unit) := by
    intro c d hc
    by_cases hu : c.uniqueId = old.uniqueId
    · exact ⟨_, Store.stored_mem_latestRows rfl, hu, .inl ⟨hu, rfl⟩⟩
    · have hstays := Store.mem_latestRows_modifyRow_of_ne (fun c => { c with latest := false })
        hold (hother c hu hc)
      exact ⟨old, Store.mem_latestRows_withRow _ hstays, rfl, .inr ⟨hu, rfl⟩⟩
  cases h with
  | refused => exact hsame
  | created _ _ => exact ⟨old, Store.mem_latestRows_withRow _ hold, rfl, .inl rfl⟩
  | @bumped c d _ hc =>
    obtain ⟨new, hnew, huid, ⟨hu, hunit⟩ | ⟨_, hunit⟩⟩ := hsucceeded c d hc
    · exact ⟨new, hnew, huid, .inr (by rw [bumpedUnit?, if_pos hu, hunit])⟩
    · exact ⟨new, hnew, huid, .inl hunit⟩
  | @bumpedFrom c copy d hc _ hcopy _ =>
    obtain ⟨new, hnew, huid, ⟨hu, hunit⟩ | ⟨_, hunit⟩⟩ := hsucceeded c d hc
    · exact ⟨new, hnew, huid, .inr (by rw [bumpedUnit?, if_pos (hcopy.trans hu), hunit])⟩
    · exact ⟨new, hnew, huid, .inl hunit⟩
  | @edited c d _ hc hfree =>
    have hu : c.uniqueId ≠ old.uniqueId := fun hu =>
      href (hu ▸ (Store.referrers_calculation_eq_nil.1 hfree).1)
    exact ⟨old, Store.mem_latestRows_modifyRow_of_ne _ hold (hother c hu hc), rfl, .inl rfl⟩
  | @versioned c d _ hc hguard =>
    obtain ⟨new, hnew, huid, ⟨hu, hunit⟩ | ⟨_, hunit⟩⟩ := hsucceeded c d hc
    · -- the edit has found the referring calculation, so the draft has the unit of the row
      have hkept : c.unit = d.unit := hguard.resolve_right (hu ▸ href)
      obtain rfl := hs.oneLatest.eq_of_uniqueId hc hold hu
      exact ⟨new, hnew, huid, .inl (hunit.trans hkept.symm)⟩
    · exact ⟨new, hnew, huid, .inl hunit⟩
  | @removed u hfree =>
    have hne : old.uniqueId ≠ u := fun hu =>
      href (hu ▸ (Store.referrers_calculation_eq_nil.1 hfree).1)
    exact ⟨old, Store.mem_latestRows_deleteCalculation hold hne, rfl, .inl rfl⟩
  | _ =>
    rw [Store.latestRows_of_rows_eq (s.answer_sameRows rfl).1]
    exact hsame

end Operation

namespace Run

variable {es : List Episode} {held : List Calculation} {s t : Store} {op : Operation}

/-- What latest calculations refer to is still there after one more operation. A constant has its
unit, and so has a calculation that another one refers to, or it has the unit of the bump that the
operation is. -/
theorem identity_kept (h : Run es held s) (ho : op.StartsFrom held)
    {result : Except LedgerError Outcome} (hr : op.procedure.runOn s = (result, t)) :
    ∀ c ∈ s.latestRows, ∀ p ∈ c.expression,
      (∀ k old, p.target = .constant k → s.constant? k = some old →
        ∃ new, t.constant? k = some new ∧ new.unit = old.unit) ∧
      ∀ u old, p.target = .calculation u → c.uniqueId ≠ u → s.latest? u = some old →
        ∃ new, t.latest? u = some new ∧
          (new.unit = old.unit ∨ op.bumpedUnit? u = some new.unit) := by
  intro c hc p hp
  have hs := h.sound.chained
  have heffect : op.Effect s t := by
    have heffect := Operation.effect hs h.named h.sound.held ho
    rw [hr] at heffect
    exact heffect
  have ht : t.Chained := by
    obtain ⟨e, _, hnext⟩ := h.runOn ho
    rw [hr] at hnext
    exact hnext.sound.chained
  constructor
  · intro k old htarget hold
    have hentity : ⟨.constant, k⟩ ∈ c.entities :=
      Calculation.mem_entities.2 ⟨p, hp, by rw [Pointer.entity?, htarget]⟩
    have href := Store.referring_ne_nil hc hentity fun hkind => by contradiction
    exact heffect.constant_kept href hold
  · intro u old htarget hne hold
    obtain ⟨hmem, rfl⟩ := Store.latest?_mem_latestRows hold
    have hentity : ⟨.calculation, old.uniqueId⟩ ∈ c.entities :=
      Calculation.mem_entities.2 ⟨p, hp, Pointer.entity?_eq_calculation.2 htarget⟩
    have href := Store.referring_ne_nil hc hentity fun _ => hne
    obtain ⟨new, hnew, huid, hunit⟩ := heffect.unit_kept hs href hmem
    refine ⟨new, ?_, hunit⟩
    rw [← huid]
    exact ht.oneLatest.latest?_eq hnew

def price (unit : String) : Draft := ⟨unit, [.of (.literal "1")]⟩

def total : Draft := ⟨"USD", [.of (.calculation "price")]⟩

def pricedStore : Store :=
  let first := ((Operation.change (.create "price" (price "USD"))).procedure.runOn Store.empty).2
  ((Operation.change (.create "total" total)).procedure.runOn first).2

theorem run_pricedStore : ∃ es, Run es [] pricedStore := by
  let ops : List Operation :=
    [.change (.create "price" (price "USD")), .change (.create "total" total)]
  have hops : ∀ op ∈ ops, op.StartsFrom [] := by
    simp [ops, Operation.StartsFrom, Change.StartsFrom]
  exact Run.start.runOn_all hops

theorem total_mem_latestRows : ⟨2, "total", 1, true, total⟩ ∈ pricedStore.latestRows := by
  decide +kernel

/-- The price is edited, and its new version is in dollars. -/
theorem identity_kept_edit : ∃ t result new,
    (Operation.change (.edit "price" (price "USD"))).procedure.runOn pricedStore = (result, t) ∧
      t.latest? "price" = some new ∧ new.unit = "USD" := by
  obtain ⟨es, hrun⟩ := run_pricedStore
  have hlatest : pricedStore.latest? "price" = some ⟨1, "price", 1, true, price "USD"⟩ := by
    decide +kernel
  let edit : Operation := .change (.edit "price" (price "USD"))
  have hkept := hrun.identity_kept (show edit.StartsFrom [] from trivial) rfl _
    total_mem_latestRows _ List.mem_cons_self
  obtain ⟨new, hnew, hunit⟩ := hkept.2 "price" _ rfl (by decide) hlatest
  exact ⟨_, _, new, rfl, hnew, hunit.resolve_right nofun⟩

/-- The price is bumped to another unit while the total refers to it. -/
theorem bump_changes_unit : ∃ es t id, Run es [] pricedStore ∧
    (Operation.change (.bump "price" (price "EUR"))).procedure.runOn pricedStore =
      (.ok (.stored id), t) ∧
    (∃ c ∈ pricedStore.latestRows, c.uniqueId ≠ "price" ∧
      ∃ p ∈ c.expression, p.target = .calculation "price") ∧
    (pricedStore.latest? "price").map (·.unit) = some "USD" ∧
    (t.latest? "price").map (·.unit) = some "EUR" := by
  obtain ⟨es, hrun⟩ := run_pricedStore
  have hbump : ((Operation.change (.bump "price" (price "EUR"))).procedure.runOn pricedStore).1 =
      .ok (.stored 3) := by decide +kernel
  refine ⟨es, _, 3, hrun, Prod.ext hbump rfl,
    ⟨_, total_mem_latestRows, by decide, _, List.mem_cons_self, rfl⟩, ?_, ?_⟩
  · decide +kernel
  · decide +kernel

end Run

end FormulaLedger
