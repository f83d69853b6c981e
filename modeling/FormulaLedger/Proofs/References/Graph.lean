import FormulaLedger.Proofs.References.Table

set_option autoImplicit false

namespace FormulaLedger

namespace Entity

theorem lt_def (a b : Entity) : a < b ↔
    (a.kind = .constant ∧ b.kind = .calculation) ∨ a.kind = b.kind ∧ a.uniqueId < b.uniqueId := by
  obtain ⟨kind, uniqueId⟩ := a
  obtain ⟨kind', uniqueId'⟩ := b
  change lt _ _ ↔ _
  cases kind <;> cases kind' <;> simp [lt]

instance : Std.Irrefl fun a b : Entity => a < b where
  irrefl a := by
    rw [lt_def]
    rintro (⟨hconstant, hcalculation⟩ | ⟨_, hlt⟩)
    · rw [hconstant] at hcalculation
      contradiction
    · exact String.lt_irrefl _ hlt

instance : IsTrans Entity fun a b => a < b where
  trans a b c hab hbc := by
    rw [lt_def] at *
    rcases hab with ⟨ha, hb⟩ | ⟨hk, hlt⟩
    · rcases hbc with ⟨hb', _⟩ | ⟨hk', _⟩
      · rw [hb] at hb'
        contradiction
      · exact .inl ⟨ha, hk' ▸ hb⟩
    · rcases hbc with ⟨hb, hc⟩ | ⟨hk', hlt'⟩
      · exact .inl ⟨hk.trans hb, hc⟩
      · exact .inr ⟨hk.trans hk', String.lt_trans hlt hlt'⟩

instance : Std.Trichotomous fun a b : Entity => a < b where
  trichotomous a b hab hba := by
    rw [lt_def] at hab hba
    obtain ⟨kind, uniqueId⟩ := a
    obtain ⟨kind', uniqueId'⟩ := b
    have hkind : kind = kind' := by
      cases kind <;> cases kind' <;> simp_all
    obtain rfl := hkind
    have hid : uniqueId = uniqueId' := by
      simp only [true_and, not_or] at hab hba
      exact String.le_antisymm (String.not_lt.1 hba.2) (String.not_lt.1 hab.2)
    rw [hid]

end Entity

namespace Calculation

def entities (c : Calculation) : List Entity := c.expression.filterMap Pointer.entity?

theorem mem_entities {c : Calculation} {e : Entity} :
    e ∈ c.entities ↔ ∃ p ∈ c.expression, p.entity? = some e := by
  rw [entities, List.mem_filterMap]

end Calculation

def Entity.target (e : Entity) : Target :=
  match e.kind with
  | .constant => .constant e.uniqueId
  | .calculation => .calculation e.uniqueId

theorem Pointer.entity?_eq_some_iff {p : Pointer} {e : Entity} :
    p.entity? = some e ↔ p.target = e.target := by
  obtain ⟨kind, uniqueId⟩ := e
  unfold Pointer.entity?
  cases kind <;> split <;> simp_all [Entity.target]

theorem Pointer.entity?_eq_calculation {p : Pointer} {uniqueId : String} :
    p.entity? = some ⟨.calculation, uniqueId⟩ ↔ p.target = .calculation uniqueId :=
  Pointer.entity?_eq_some_iff

namespace ReferenceGraph

variable {g : ReferenceGraph} {source x : String} {target e : Entity}

structure Ordered (g : ReferenceGraph) : Prop where
  incoming : KeysSorted g.incoming
  outgoing : KeysSorted g.outgoing

theorem ordered_empty : Ordered empty := ⟨.nil, .nil⟩

theorem Ordered.add (h : g.Ordered) (source : String) (target : Entity) :
    (g.add source target).Ordered :=
  ⟨h.incoming.insertUnder, h.outgoing.insertUnder⟩

theorem mem_references_add (h : g.Ordered) :
    e ∈ (g.add source target).references x ↔ x = source ∧ e = target ∨ e ∈ g.references x :=
  mem_under_insertUnder h.outgoing

theorem mem_referrers_add (h : g.Ordered) :
    x ∈ (g.add source target).referrers e ↔ e = target ∧ x = source ∨ x ∈ g.referrers e :=
  mem_under_insertUnder h.incoming

/-- A graph that holds, in both directions, the references of some calculations. -/
structure Holds (g : ReferenceGraph) (refers : String → Entity → Prop) : Prop where
  ordered : g.Ordered
  references : ∀ x e, e ∈ g.references x ↔ refers x e
  referrers : ∀ x e, x ∈ g.referrers e ↔ refers x e

theorem holds_empty : empty.Holds fun _ _ => False :=
  ⟨ordered_empty, by simp [empty, ReferenceGraph.references],
    by simp [empty, ReferenceGraph.referrers]⟩

theorem Holds.congr {refers refers' : String → Entity → Prop} (h : g.Holds refers)
    (heq : ∀ x e, refers x e ↔ refers' x e) : g.Holds refers' :=
  ⟨h.ordered, fun x e => (h.references x e).trans (heq x e),
    fun x e => (h.referrers x e).trans (heq x e)⟩

theorem Holds.add {refers : String → Entity → Prop} (h : g.Holds refers) (source : String)
    (target : Entity) :
    (g.add source target).Holds fun x e => x = source ∧ e = target ∨ refers x e := by
  refine ⟨h.ordered.add source target, fun x e => ?_, fun x e => ?_⟩
  · rw [mem_references_add h.ordered, h.references]
  · rw [mem_referrers_add h.ordered, h.referrers, and_comm]

theorem Holds.addCalculation {refers : String → Entity → Prop} (h : g.Holds refers)
    (c : Calculation) :
    (g.addCalculation c).Holds fun x e => x = c.uniqueId ∧ e ∈ c.entities ∨ refers x e := by
  rw [ReferenceGraph.addCalculation, ← Calculation.entities]
  generalize c.entities = targets
  induction targets generalizing g refers with
  | nil => exact h.congr fun x e => by simp
  | cons target targets ih =>
    refine (ih (h.add c.uniqueId target)).congr fun x e => ?_
    rw [List.mem_cons]
    grind

theorem holds_ofCalculations (cs : List Calculation) :
    (ofCalculations cs).Holds fun x e => ∃ c ∈ cs, c.uniqueId = x ∧ e ∈ c.entities := by
  -- the graph that the rows are added to holds the references of the rows before
  have hfold : ∀ (cs : List Calculation) (g : ReferenceGraph) (refers : String → Entity → Prop),
      g.Holds refers → (cs.foldl addCalculation g).Holds fun x e =>
        (∃ c ∈ cs, c.uniqueId = x ∧ e ∈ c.entities) ∨ refers x e := by
    intro cs
    induction cs with
    | nil => exact fun g refers h => h.congr fun x e => by simp
    | cons c cs ih =>
      intro g refers h
      refine (ih _ _ (h.addCalculation c)).congr fun x e => ?_
      simp only [List.mem_cons, exists_eq_or_imp, or_assoc]
      grind
  exact (hfold cs _ _ holds_empty).congr fun x e => by simp

theorem addCalculation_induction {p : ReferenceGraph → Prop}
    (hadd : ∀ g source target, p g → p (g.add source target)) (c : Calculation) (h : p g) :
    p (g.addCalculation c) := by
  rw [ReferenceGraph.addCalculation]
  generalize c.expression.filterMap Pointer.entity? = targets
  induction targets generalizing g with
  | nil => exact h
  | cons target targets ih => exact ih (hadd g c.uniqueId target h)

structure Sorted (g : ReferenceGraph) : Prop where
  incoming : SetsSorted g.incoming
  outgoing : SetsSorted g.outgoing

theorem sorted_empty : empty.Sorted := ⟨fun _ h => by contradiction, fun _ h => by contradiction⟩

theorem Sorted.add (h : g.Sorted) (source : String) (target : Entity) :
    (g.add source target).Sorted :=
  ⟨h.incoming.insertUnder, h.outgoing.insertUnder⟩

theorem sorted_ofCalculations (cs : List Calculation) : (ofCalculations cs).Sorted :=
  List.foldlRecOn cs addCalculation sorted_empty fun _ h c _ =>
    addCalculation_induction (fun _ source target h => h.add source target) c h

theorem Sorted.referrers (h : g.Sorted) (e : Entity) : (g.referrers e).Pairwise (· < ·) :=
  h.incoming.under e

theorem mem_next {y : String} : y ∈ g.next x ↔ ⟨.calculation, y⟩ ∈ g.references x := by
  rw [next, List.mem_filterMap]
  constructor
  · rintro ⟨⟨kind, uniqueId⟩, he, hy⟩
    cases kind with
    | constant => contradiction
    | calculation =>
      obtain rfl := Option.some.inj hy
      exact he
  · intro h
    exact ⟨_, h, rfl⟩

end ReferenceGraph

end FormulaLedger
