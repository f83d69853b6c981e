import FormulaLedger.Proofs.References.Graph
import Mathlib.Logic.Relation

set_option autoImplicit false

namespace FormulaLedger.ReferenceGraph

variable {g : ReferenceGraph} {found : List String} {x y : String} {rounds : Nat}

def Leads (g : ReferenceGraph) (x y : String) : Prop := y ∈ g.next x

def fresh (g : ReferenceGraph) (found : List String) : List String :=
  ((found.flatMap g.next).filter fun x => !found.contains x).eraseDups

theorem mem_fresh : y ∈ g.fresh found ↔ (∃ x ∈ found, g.Leads x y) ∧ y ∉ found := by
  simp [fresh, Leads]

theorem spread_succ (g : ReferenceGraph) (rounds : Nat) (found : List String) :
    g.spread (rounds + 1) found =
      if g.fresh found = [] then found else g.spread rounds (found ++ g.fresh found) := by
  rw [spread, ← fresh]
  cases g.fresh found with
  | nil => rfl
  | cons x xs => rfl

def Closed (g : ReferenceGraph) (found : List String) : Prop :=
  ∀ x ∈ found, ∀ y, g.Leads x y → y ∈ found

theorem closed_iff_fresh : g.Closed found ↔ g.fresh found = [] := by
  rw [List.eq_nil_iff_forall_not_mem]
  constructor
  · intro h y hy
    obtain ⟨⟨x, hx, hleads⟩, hnot⟩ := mem_fresh.1 hy
    exact hnot (h x hx y hleads)
  · intro h x hx y hleads
    refine Classical.byContradiction fun hnot => ?_
    exact h y (mem_fresh.2 ⟨⟨x, hx, hleads⟩, hnot⟩)

theorem spread_of_closed (h : g.Closed found) (rounds : Nat) : g.spread rounds found = found := by
  cases rounds with
  | zero => rfl
  | succ rounds => rw [spread_succ, if_pos (closed_iff_fresh.1 h)]

theorem subset_spread (rounds : Nat) (found : List String) : found ⊆ g.spread rounds found := by
  induction rounds generalizing found with
  | zero => exact List.Subset.refl _
  | succ rounds ih =>
    rw [spread_succ]
    split
    · exact List.Subset.refl _
    · exact List.Subset.trans (List.subset_append_left _ _) (ih _)

theorem reached_of_mem_spread (h : y ∈ g.spread rounds found) :
    ∃ x ∈ found, Relation.ReflTransGen g.Leads x y := by
  induction rounds generalizing found with
  | zero => exact ⟨y, h, .refl⟩
  | succ rounds ih =>
    rw [spread_succ] at h
    split at h
    · exact ⟨y, h, .refl⟩
    · obtain ⟨x, hx, hpath⟩ := ih h
      rcases List.mem_append.1 hx with hx | hx
      · exact ⟨x, hx, hpath⟩
      · obtain ⟨⟨w, hw, hleads⟩, _⟩ := mem_fresh.1 hx
        exact ⟨w, hw, .head hleads hpath⟩

def missing (g : ReferenceGraph) (found : List String) : Nat :=
  g.outgoing.countP fun entry => !found.contains entry.1

theorem mem_outgoing_of_leads (h : g.Leads x y) : ∃ entry ∈ g.outgoing, entry.1 = x := by
  have hlookup : (g.outgoing.lookup x).isSome = true := by
    rw [Option.isSome_iff_ne_none]
    intro hnone
    have hnil : g.references x = [] := by rw [references, hnone]; rfl
    rw [Leads, next, hnil] at h
    contradiction
  obtain ⟨entry, hentry, hkey⟩ := List.lookup_isSome_iff.1 hlookup
  exact ⟨entry, hentry, (beq_iff_eq.1 hkey).symm⟩

theorem missing_append_lt (hx : x ∉ found) {fresh : List String} (hfresh : x ∈ fresh)
    (h : g.Leads x y) : g.missing (found ++ fresh) < g.missing found := by
  obtain ⟨entry, hentry, rfl⟩ := mem_outgoing_of_leads h
  -- what is missing afterwards was missing before, and the entry of `x` is no longer
  have hsplit : g.missing (found ++ fresh) =
      ((g.outgoing.filter fun entry => !found.contains entry.1).filter
        fun entry => !fresh.contains entry.1).length := by
    rw [missing, List.countP_eq_length_filter, List.filter_filter]
    congr 1
    refine List.filter_congr fun entry _ => ?_
    rw [List.contains_append, Bool.not_or, Bool.and_comm]
  rw [hsplit, missing, List.countP_eq_length_filter, List.length_filter_lt_length_iff_exists]
  exact ⟨entry, List.mem_filter.2 ⟨hentry, by simpa using hx⟩, by simpa using hfresh⟩

/-- Every round but the last finds a calculation with references for the first time. -/
theorem closed_spread (h : g.missing found < rounds) : g.Closed (g.spread rounds found) := by
  induction rounds generalizing found with
  | zero => omega
  | succ rounds ih =>
    rw [spread_succ]
    split
    · next hfresh => exact closed_iff_fresh.2 hfresh
    · by_cases hlead : ∃ x ∈ g.fresh found, ∃ y, g.Leads x y
      · obtain ⟨x, hx, y, hleads⟩ := hlead
        have hlt := missing_append_lt (mem_fresh.1 hx).2 hx hleads
        exact ih (by omega)
      · -- nothing new has references, so the next round would find nothing
        have hclosed : g.Closed (found ++ g.fresh found) := by
          intro x hx y hleads
          rcases List.mem_append.1 hx with hx | hx
          · by_cases hy : y ∈ found
            · exact List.mem_append_left _ hy
            · exact List.mem_append_right _ (mem_fresh.2 ⟨⟨x, hx, hleads⟩, hy⟩)
          · exact absurd ⟨x, hx, y, hleads⟩ hlead
        rw [spread_of_closed hclosed]
        exact hclosed

/-- The search finds the calculations at the end of a path of at least one reference. -/
theorem mem_reachable : y ∈ g.reachable x ↔ Relation.TransGen g.Leads x y := by
  rw [reachable]
  constructor
  · intro h
    obtain ⟨w, hw, hpath⟩ := reached_of_mem_spread h
    exact .head' (List.mem_eraseDups.1 hw) hpath
  · intro h
    have hclosed : g.Closed (g.spread (g.outgoing.length + 1) (g.next x).eraseDups) :=
      closed_spread (Nat.lt_succ_of_le List.countP_le_length)
    obtain ⟨w, hw, hpath⟩ := Relation.TransGen.head'_iff.1 h
    clear h
    induction hpath with
    | refl => exact subset_spread _ _ (List.mem_eraseDups.2 hw)
    | tail _ hleads ih => exact hclosed _ ih _ hleads

theorem hasCycle_iff : g.hasCycle x = true ↔ Relation.TransGen g.Leads x x := by
  rw [hasCycle, List.contains_iff_mem, mem_reachable]

end FormulaLedger.ReferenceGraph
