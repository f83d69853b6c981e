import FormulaLedger.Calculator
import FormulaLedger.Proofs.Procedure.Execution
import FormulaLedger.Proofs.References.Graph
import FormulaLedger.Proofs.Store.Latest
import Mathlib.Data.Set.Card

/-!
Graphs that are built up, a reference or a row at a time. The two directions are kept in two tables
that are written side by side. They list the same references, and a graph is determined by what it
lists, so neither the order of the additions nor their repetition can be seen in it.
-/

set_option autoImplicit false

namespace FormulaLedger

/-- What is added to a graph at a time: a reference, or all references of a row. -/
inductive Addition
  | reference (source : String) (target : Entity)
  | calculation (c : Calculation)

namespace Addition

def Gives (x : String) (e : Entity) : Addition → Prop
  | .reference source target => x = source ∧ e = target
  | .calculation c => x = c.uniqueId ∧ ∃ p ∈ c.expression, p.target = e.target

def Given (as : List Addition) (x : String) (e : Entity) : Prop := ∃ a ∈ as, a.Gives x e

theorem given_concat {as : List Addition} {a : Addition} {x : String} {e : Entity} :
    Given (as ++ [a]) x e ↔ Given as x e ∨ a.Gives x e := by
  simp [Given, or_and_right, exists_or]

end Addition

namespace ReferenceGraph

open Addition (Given)

def extend (g : ReferenceGraph) : Addition → ReferenceGraph
  | .reference source target => g.add source target
  | .calculation c => g.addCalculation c

def ofAdditions (as : List Addition) : ReferenceGraph := as.foldl extend empty

variable {g g' : ReferenceGraph} {as bs : List Addition}

theorem ofAdditions_induction {p : ReferenceGraph → Prop} (hempty : p empty)
    (hadd : ∀ g source target, p g → p (g.add source target)) (as : List Addition) :
    p (ofAdditions as) := by
  refine List.foldlRecOn as extend hempty fun g hg a _ => ?_
  cases a with
  | reference source target => exact hadd g source target hg
  | calculation c => exact addCalculation_induction hadd c hg

theorem holds_ofAdditions (as : List Addition) : (ofAdditions as).Holds (Given as) := by
  induction as using List.reverseRecOn with
  | nil => exact holds_empty.congr fun x e => by simp [Given]
  | append_singleton as a ih =>
    have hlast : ofAdditions (as ++ [a]) = (ofAdditions as).extend a := List.foldl_concat ..
    have hgiven : ∀ x e, Given (as ++ [a]) x e ↔ a.Gives x e ∨ Given as x e := fun x e =>
      Addition.given_concat.trans or_comm
    rw [hlast]
    cases a with
    | reference source target => exact (ih.add source target).congr fun x e => (hgiven x e).symm
    | calculation c =>
      refine (ih.addCalculation c).congr fun x e => ?_
      rw [hgiven, Addition.Gives, Calculation.mem_entities]
      simp only [Pointer.entity?_eq_some_iff]

theorem sorted_ofAdditions (as : List Addition) : (ofAdditions as).Sorted :=
  ofAdditions_induction sorted_empty (fun _ source target h => h.add source target) as

theorem Sorted.references (h : g.Sorted) (x : String) : (g.references x).Pairwise (· < ·) :=
  h.outgoing.under x

/-- An entity or a calculation stands in a table only with something under it. -/
structure Filled (g : ReferenceGraph) : Prop where
  incoming : SetsFilled g.incoming
  outgoing : SetsFilled g.outgoing

theorem filled_ofAdditions (as : List Addition) : (ofAdditions as).Filled :=
  ofAdditions_induction ⟨fun _ h => by contradiction, fun _ h => by contradiction⟩
    (fun _ _ _ h => ⟨h.incoming.insertUnder, h.outgoing.insertUnder⟩) as

theorem Holds.eq {refers : String → Entity → Prop} (h : g.Holds refers) (h' : g'.Holds refers)
    (hsorted : g.Sorted) (hsorted' : g'.Sorted) (hfilled : g.Filled) (hfilled' : g'.Filled) :
    g = g' := by
  have hincoming : g.incoming = g'.incoming :=
    table_eq h.ordered.incoming h'.ordered.incoming hsorted.incoming hsorted'.incoming
      hfilled.incoming hfilled'.incoming fun e x =>
        (h.referrers x e).trans (h'.referrers x e).symm
  have houtgoing : g.outgoing = g'.outgoing :=
    table_eq h.ordered.outgoing h'.ordered.outgoing hsorted.outgoing hsorted'.outgoing
      hfilled.outgoing hfilled'.outgoing fun x e =>
        (h.references x e).trans (h'.references x e).symm
  obtain ⟨incoming, outgoing⟩ := g
  exact congrArg₂ ReferenceGraph.mk hincoming houtgoing

theorem ofAdditions_congr (h : ∀ x e, Given bs x e ↔ Given as x e) :
    ofAdditions bs = ofAdditions as :=
  Holds.eq ((holds_ofAdditions bs).congr h) (holds_ofAdditions as) (sorted_ofAdditions bs)
    (sorted_ofAdditions as) (filled_ofAdditions bs) (filled_ofAdditions as)

theorem isReferenced_iff {e : Entity} : g.isReferenced e = true ↔ ∃ x, x ∈ g.referrers e := by
  rw [isReferenced, Bool.not_eq_true', List.isEmpty_eq_false_iff_exists_mem]

theorem encard_sources (hordered : g.Ordered) (hfilled : g.Filled) :
    {x | ∃ e, e ∈ g.references x}.encard = g.size := by
  have hkeys : (g.outgoing.map Prod.fst).Nodup :=
    List.pairwise_map.2 (hordered.outgoing.imp fun {_ _} h => ne_of_irrefl (r := (· < ·)) h)
  have hsources : {x | ∃ e, e ∈ g.references x} = ↑(g.outgoing.map Prod.fst).toFinset := by
    ext x
    rw [Finset.mem_coe, List.mem_toFinset, hordered.outgoing.mem_keys_iff hfilled.outgoing]
    rfl
  rw [hsources, Set.encard_coe_eq_coe_finsetCard, List.toFinset_card_of_nodup hkeys,
    List.length_map, size]

end ReferenceGraph

namespace Entity

def ofIds (constants calculations : List String) : List Entity :=
  constants.map (⟨.constant, ·⟩) ++ calculations.map (⟨.calculation, ·⟩)

variable {constants calculations : List String}

theorem mem_ofIds {e : Entity} : e ∈ ofIds constants calculations ↔
    e.kind = .constant ∧ e.uniqueId ∈ constants ∨
      e.kind = .calculation ∧ e.uniqueId ∈ calculations := by
  obtain ⟨kind, uniqueId⟩ := e
  cases kind <;> simp [ofIds]

theorem pairwise_ofIds (hconstants : constants.Pairwise (· < ·))
    (hcalculations : calculations.Pairwise (· < ·)) :
    (ofIds constants calculations).Pairwise (· < ·) := by
  have hsame : ∀ (kind : EntityKind) (ids : List String), ids.Pairwise (· < ·) →
      (ids.map fun id => (⟨kind, id⟩ : Entity)).Pairwise (· < ·) := fun kind ids h =>
    List.pairwise_map.2 (h.imp fun {a b} hlt => (lt_def ⟨kind, a⟩ ⟨kind, b⟩).2 (.inr ⟨rfl, hlt⟩))
  refine List.pairwise_append.2 ⟨hsame _ _ hconstants, hsame _ _ hcalculations, ?_⟩
  rintro _ hconstant _ hcalculation
  obtain ⟨_, _, rfl⟩ := List.mem_map.1 hconstant
  obtain ⟨_, _, rfl⟩ := List.mem_map.1 hcalculation
  exact (lt_def _ _).2 (.inl ⟨rfl, rfl⟩)

def idsOf (kind : EntityKind) (es : List Entity) : List String :=
  (es.filter (·.kind = kind)).map (·.uniqueId)

theorem mem_idsOf {kind : EntityKind} {es : List Entity} {id : String} :
    id ∈ idsOf kind es ↔ ⟨kind, id⟩ ∈ es := by
  simp only [idsOf, List.mem_map, List.mem_filter, decide_eq_true_eq]
  constructor
  · rintro ⟨e, ⟨he, rfl⟩, rfl⟩
    exact he
  · intro h
    exact ⟨_, ⟨h, rfl⟩, rfl⟩

theorem pairwise_idsOf (kind : EntityKind) {es : List Entity} (h : es.Pairwise (· < ·)) :
    (idsOf kind es).Pairwise (· < ·) := by
  refine List.pairwise_map.2 ((h.filter _).imp_of_mem fun {a b} ha hb hlt => ?_)
  have hkind : ∀ e ∈ es.filter (·.kind = kind), e.kind = kind := fun e he => by
    simpa using (List.mem_filter.1 he).2
  rcases (lt_def a b).1 hlt with ⟨hconstant, hcalculation⟩ | ⟨_, hlt⟩
  · rw [hkind a ha] at hconstant
    rw [hkind b hb, hconstant] at hcalculation
    contradiction
  · exact hlt

theorem eq_ofIds {es : List Entity} (h : es.Pairwise (· < ·)) :
    es = ofIds (idsOf .constant es) (idsOf .calculation es) := by
  refine h.eq_of_mem_iff (pairwise_ofIds (pairwise_idsOf _ h) (pairwise_idsOf _ h)) fun e => ?_
  obtain ⟨kind, id⟩ := e
  cases kind <;> simp [mem_ofIds, mem_idsOf]

end Entity

theorem Calculator.runOn_dependencies (u : String) (s : Store) :
    (dependencies u).runOn s =
      (match s.latest? u with
        | some c => .ok ((ReferenceGraph.ofAdditions [.calculation c]).references u)
        | none => .error (.calculationNotFound u), s) := by
  rw [dependencies, Procedure.runOn_bind_of_ok (Procedure.runOn_ask_of_ok rfl)]
  cases s.latest? u with
  | some c => rfl
  | none => rfl

/-- Whatever is added to a graph, a reference or the references of a row, the graph lists in both
directions what has been given to it, in strict order and counted once for each calculation that
refers to something, and it is the same graph for all additions that give the same references. So
the dependencies of a calculation are the constants and then the calculations of its latest row. -/
theorem ReferenceGraph.directions_mirrored (as : List Addition) :
    (∀ x e, x ∈ (ofAdditions as).referrers e ↔ e ∈ (ofAdditions as).references x) ∧
    (∀ x e, e ∈ (ofAdditions as).references x ↔ ∃ a ∈ as, a.Gives x e) ∧
    (∀ e, (ofAdditions as).isReferenced e = true ↔ ∃ x, e ∈ (ofAdditions as).references x) ∧
    (∀ e, ((ofAdditions as).referrers e).Pairwise (· < ·) ∧
      ((ofAdditions as).referrers e).Nodup) ∧
    (∀ x, ((ofAdditions as).references x).Pairwise (· < ·) ∧
      ((ofAdditions as).references x).Nodup) ∧
    {x | ∃ e, e ∈ (ofAdditions as).references x}.encard = (ofAdditions as).size ∧
    (∀ bs : List Addition, (∀ x e, (∃ b ∈ bs, b.Gives x e) ↔ ∃ a ∈ as, a.Gives x e) →
      ofAdditions bs = ofAdditions as) ∧
    ∀ (s : Store) (u : String),
      (s.latest? u = none →
        (Calculator.dependencies u).runOn s = (.error (.calculationNotFound u), s)) ∧
      ∀ c, s.latest? u = some c → ∃ constants calculations : List String,
        (Calculator.dependencies u).runOn s =
          (.ok (constants.map (⟨.constant, ·⟩) ++ calculations.map (⟨.calculation, ·⟩)), s) ∧
        constants.Pairwise (· < ·) ∧ calculations.Pairwise (· < ·) ∧
        (∀ k, k ∈ constants ↔ ∃ p ∈ c.expression, p.target = .constant k) ∧
        ∀ v, v ∈ calculations ↔ ∃ p ∈ c.expression, p.target = .calculation v := by
  have hholds := holds_ofAdditions as
  have hsorted := sorted_ofAdditions as
  have hmirrored : ∀ x e, x ∈ (ofAdditions as).referrers e ↔ e ∈ (ofAdditions as).references x :=
    fun x e => (hholds.referrers x e).trans (hholds.references x e).symm
  refine ⟨hmirrored, hholds.references, fun e => ?_, fun e => ?_, fun x => ?_,
    encard_sources hholds.ordered (filled_ofAdditions as), fun _ => ofAdditions_congr,
    fun s u => ⟨fun hnone => ?_, fun c hlatest => ?_⟩⟩
  · simp only [isReferenced_iff, hmirrored]
  · exact ⟨hsorted.referrers e, (hsorted.referrers e).nodup⟩
  · exact ⟨hsorted.references x, (hsorted.references x).nodup⟩
  · rw [Calculator.runOn_dependencies, hnone]
  · obtain ⟨_, rfl⟩ := Store.latest?_mem_latestRows hlatest
    have hrow : ∀ e : Entity,
        e ∈ (ofAdditions [.calculation c]).references c.uniqueId ↔
          ∃ p ∈ c.expression, p.target = e.target := fun e => by
      rw [(holds_ofAdditions _).references]
      simp [Addition.Given, Addition.Gives]
    have hpairwise := (sorted_ofAdditions [.calculation c]).references c.uniqueId
    refine ⟨_, _, ?_, Entity.pairwise_idsOf .constant hpairwise,
      Entity.pairwise_idsOf .calculation hpairwise, fun k => ?_, fun v => ?_⟩
    · rw [Calculator.runOn_dependencies, hlatest]
      exact congrArg (fun es => (Except.ok es, s)) (Entity.eq_ofIds hpairwise)
    · rw [Entity.mem_idsOf, hrow, Entity.target]
    · rw [Entity.mem_idsOf, hrow, Entity.target]

namespace ReferenceGraph

def scaledRow : Calculation :=
  ⟨1, "b", 1, true, ⟨"", [.of (.calculation "a"), .of (.literal "*"), .of (.constant "a")]⟩⟩

def scaledStore : Store := ⟨1, [scaledRow], [(("b", 1), 1)], [], []⟩

/-- The references of the row may be added one by one, in another order and more than once. Its
dependencies have the constant first. -/
theorem directions_mirrored_scaled :
    ofAdditions [.reference "b" ⟨.constant, "a"⟩, .reference "c" ⟨.calculation, "b"⟩,
        .calculation scaledRow, .reference "b" ⟨.calculation, "a"⟩] =
      ofAdditions [.calculation scaledRow, .reference "c" ⟨.calculation, "b"⟩] ∧
    (Calculator.dependencies "b").runOn scaledStore =
      (.ok [⟨.constant, "a"⟩, ⟨.calculation, "a"⟩], scaledStore) := by
  obtain ⟨_, _, _, _, _, _, hsame, hdependencies⟩ :=
    directions_mirrored [.calculation scaledRow, .reference "c" ⟨.calculation, "b"⟩]
  constructor
  · refine hsame _ fun x e => ?_
    obtain ⟨kind, id⟩ := e
    cases kind <;> simp [Addition.Gives, scaledRow, Calculation.expression, Pointer.of,
      Entity.target] <;> grind
  · obtain ⟨constants, calculations, hrun, hconstants, hcalculations, hk, hv⟩ :=
      (hdependencies scaledStore "b").2 scaledRow (by decide +kernel)
    have hconstant : constants = ["a"] :=
      hconstants.eq_of_mem_iff (List.pairwise_singleton _ _) fun k => by
        simp [hk, scaledRow, Calculation.expression, Pointer.of, eq_comm]
    have hcalculation : calculations = ["a"] :=
      hcalculations.eq_of_mem_iff (List.pairwise_singleton _ _) fun v => by
        simp [hv, scaledRow, Calculation.expression, Pointer.of, eq_comm]
    rw [hrun, hconstant, hcalculation]
    rfl

end ReferenceGraph

end FormulaLedger
