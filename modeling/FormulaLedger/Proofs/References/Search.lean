import FormulaLedger.Proofs.References.Additions
import FormulaLedger.Proofs.References.Reachability
import Mathlib.Logic.Function.Iterate

/-!
The search for a way back to a calculation. It keeps a stack of calculations that it has come upon,
on which one may stand more than once, and the set of those whose references it has followed. It
comes to an end on every graph, and it finds a way back exactly when there is one.
-/

set_option autoImplicit false

namespace FormulaLedger

namespace ReferenceGraph

/-- A search with its stack, the next calculation first, and the calculations that it has followed.
In the end there is only what it has found. -/
inductive Search
  | going (stack followed : List String)
  | over (found : Bool)
  deriving DecidableEq, Repr

namespace Search

variable (g : ReferenceGraph) (source : String)

def start : Search := .going (g.next source).reverse []

/-- Takes the next calculation from the stack. What it refers to is put on the stack, so that the
last of it comes next, unless the calculation has been followed before. -/
def step : Search → Search
  | .over found => .over found
  | .going [] _ => .over false
  | .going (x :: stack) followed =>
    if x = source then .over true
    else if x ∈ followed then .going stack followed
    else .going ((g.next x).reverse ++ stack) (x :: followed)

end Search

/-- How many references there are of calculations that have not been followed. -/
def unfollowed (followed : List String) : List (String × List Entity) → Nat
  | [] => 0
  | (x, es) :: rest => (if x ∈ followed then 0 else es.length) + unfollowed followed rest

section

variable {followed stack : List String} {x : String} {table : List (String × List Entity)}

theorem unfollowed_cons_le : unfollowed (x :: followed) table ≤ unfollowed followed table := by
  induction table with
  | nil => exact Nat.le_refl _
  | cons entry rest ih =>
    obtain ⟨y, es⟩ := entry
    rw [unfollowed, unfollowed]
    refine Nat.add_le_add ?_ ih
    by_cases hy : y ∈ followed
    · rw [if_pos hy, if_pos (List.mem_cons_of_mem _ hy)]
    · rw [if_neg hy]
      split
      · exact Nat.zero_le _
      · exact Nat.le_refl _

theorem unfollowed_nil : unfollowed [] table = (table.map fun entry => entry.2.length).sum := by
  induction table with
  | nil => rfl
  | cons entry rest ih =>
    rw [unfollowed, if_neg List.not_mem_nil, ih, List.map_cons, List.sum_cons]

theorem length_under_add_unfollowed_le (hx : x ∉ followed) :
    (under table x).length + unfollowed (x :: followed) table ≤ unfollowed followed table := by
  induction table with
  | nil => exact Nat.le_refl _
  | cons entry rest ih =>
    obtain ⟨y, es⟩ := entry
    rw [under_cons, unfollowed, unfollowed]
    by_cases hy : x = y
    · subst hy
      have hrest : unfollowed (x :: followed) rest ≤ unfollowed followed rest := unfollowed_cons_le
      rw [if_pos rfl, if_pos List.mem_cons_self, if_neg hx]
      omega
    · have hmem : y ∈ x :: followed ↔ y ∈ followed := by
        rw [List.mem_cons, or_iff_right fun h => hy h.symm]
      rw [if_neg hy]
      simp only [hmem]
      omega

end

namespace Search

variable {g : ReferenceGraph} {source : String} {stack followed : List String}

/-- What can still come off the stack before the search ends. -/
def toCome (g : ReferenceGraph) (stack followed : List String) : Nat :=
  stack.length + unfollowed followed g.outgoing

theorem length_next_add_unfollowed_le {x : String} (hx : x ∉ followed) :
    (g.next x).length + unfollowed (x :: followed) g.outgoing ≤ unfollowed followed g.outgoing :=
  (Nat.add_le_add_right (List.length_filterMap_le ..) _).trans (length_under_add_unfollowed_le hx)

theorem toCome_follow {x : String} (hx : x ∉ followed) :
    toCome g ((g.next x).reverse ++ stack) (x :: followed) < toCome g (x :: stack) followed := by
  have hle := length_next_add_unfollowed_le (g := g) hx
  rw [toCome, toCome, List.length_append, List.length_reverse, List.length_cons]
  omega

theorem toCome_start_le :
    toCome g (g.next source).reverse [] ≤
      2 * (g.outgoing.map fun entry => entry.2.length).sum := by
  have hle := length_next_add_unfollowed_le (g := g) (List.not_mem_nil (a := source))
  rw [toCome, List.length_reverse, ← unfollowed_nil]
  omega

/-- Every step takes a calculation from the stack for good, so the search ends. -/
theorem exists_over (g : ReferenceGraph) (source : String) (stack followed : List String) :
    ∃ n ≤ toCome g stack followed + 1, ∃ found,
      (step g source)^[n] (.going stack followed) = .over found := by
  induction hm : toCome g stack followed using Nat.strongRecOn generalizing stack followed with
  | ind m ih =>
    subst hm
    cases stack with
    | nil => exact ⟨1, Nat.le_add_left _ _, false, rfl⟩
    | cons x stack =>
      have hgoes : ∀ stack' followed',
          toCome g stack' followed' < toCome g (x :: stack) followed →
          step g source (.going (x :: stack) followed) = .going stack' followed' →
          ∃ n ≤ toCome g (x :: stack) followed + 1, ∃ found,
            (step g source)^[n] (.going (x :: stack) followed) = .over found := by
        intro stack' followed' hlt hstep
        obtain ⟨n, hn, found, hover⟩ := ih _ hlt stack' followed' rfl
        refine ⟨n + 1, by omega, found, ?_⟩
        rw [Function.iterate_succ_apply, hstep, hover]
      by_cases hsource : x = source
      · exact ⟨1, Nat.le_add_left _ _, true, if_pos hsource⟩
      · by_cases hx : x ∈ followed
        · refine hgoes stack followed ?_ ?_
          · rw [toCome, toCome, List.length_cons]
            omega
          · rw [step, if_neg hsource, if_pos hx]
        · refine hgoes _ _ (toCome_follow hx) ?_
          rw [step, if_neg hsource, if_neg hx]

/-- What a search has made sure of: a path leads to everything on the stack, and what the source and
the followed calculations refer to is followed or on the stack. -/
structure Explored (g : ReferenceGraph) (source : String) (stack followed : List String) :
    Prop where
  reached : ∀ x ∈ stack, Relation.TransGen g.Leads source x
  source_not_followed : source ∉ followed
  onward : ∀ x, x = source ∨ x ∈ followed → ∀ y, g.Leads x y → y ∈ followed ∨ y ∈ stack

def Sound (g : ReferenceGraph) (source : String) : Search → Prop
  | .going stack followed => Explored g source stack followed
  | .over found => found = true ↔ Relation.TransGen g.Leads source source

theorem explored_start (g : ReferenceGraph) (source : String) :
    Explored g source (g.next source).reverse [] where
  reached x hx := .single (List.mem_reverse.1 hx)
  source_not_followed := List.not_mem_nil
  onward x hx y hy := by
    obtain rfl := hx.resolve_right List.not_mem_nil
    exact .inr (List.mem_reverse.2 hy)

theorem Explored.no_way_back (h : Explored g source [] followed) :
    ¬ Relation.TransGen g.Leads source source := by
  have hfollowed : ∀ x, Relation.TransGen g.Leads source x → x ∈ followed := by
    intro x hpath
    induction hpath with
    | single hlead => exact (h.onward _ (.inl rfl) _ hlead).resolve_right List.not_mem_nil
    | tail _ hlead ih => exact (h.onward _ (.inr ih) _ hlead).resolve_right List.not_mem_nil
  exact fun hback => h.source_not_followed (hfollowed source hback)

theorem Explored.skip {x : String} (h : Explored g source (x :: stack) followed)
    (hx : x ∈ followed) : Explored g source stack followed where
  reached y hy := h.reached y (List.mem_cons_of_mem _ hy)
  source_not_followed := h.source_not_followed
  onward y hy z hz := by
    rcases h.onward y hy z hz with hz | hz
    · exact .inl hz
    · rcases List.mem_cons.1 hz with rfl | hz
      · exact .inl hx
      · exact .inr hz

theorem Explored.follow {x : String} (h : Explored g source (x :: stack) followed)
    (hx : x ≠ source) : Explored g source ((g.next x).reverse ++ stack) (x :: followed) where
  reached y hy := by
    rcases List.mem_append.1 hy with hy | hy
    · exact (h.reached x List.mem_cons_self).tail (List.mem_reverse.1 hy)
    · exact h.reached y (List.mem_cons_of_mem _ hy)
  source_not_followed hmem := by
    rcases List.mem_cons.1 hmem with rfl | hmem
    · exact hx rfl
    · exact h.source_not_followed hmem
  onward y hy z hz := by
    by_cases hyx : y = x
    · subst hyx
      exact .inr (List.mem_append_left _ (List.mem_reverse.2 hz))
    · have hbefore : y = source ∨ y ∈ followed :=
        hy.imp_right fun hmem => (List.mem_cons.1 hmem).resolve_left hyx
      rcases h.onward y hbefore z hz with hz | hz
      · exact .inl (List.mem_cons_of_mem _ hz)
      · rcases List.mem_cons.1 hz with rfl | hz
        · exact .inl List.mem_cons_self
        · exact .inr (List.mem_append_right _ hz)

theorem Sound.step {m : Search} (h : m.Sound g source) : (step g source m).Sound g source := by
  match m with
  | .over found => exact h
  | .going [] followed => exact iff_of_false Bool.false_ne_true (Explored.no_way_back h)
  | .going (x :: stack) followed =>
    have hexplored : Explored g source (x :: stack) followed := h
    rw [Search.step]
    by_cases hsource : x = source
    · rw [if_pos hsource]
      exact iff_of_true rfl (hsource ▸ hexplored.reached x List.mem_cons_self)
    · rw [if_neg hsource]
      by_cases hx : x ∈ followed
      · rw [if_pos hx]
        exact hexplored.skip hx
      · rw [if_neg hx]
        exact hexplored.follow hsource

theorem sound_iterate (g : ReferenceGraph) (source : String) (n : Nat) :
    ((Search.step g source)^[n] (start g source)).Sound g source := by
  induction n with
  | zero => exact explored_start g source
  | succ n ih =>
    rw [Function.iterate_succ_apply']
    exact ih.step

end Search

section

variable {as : List Addition}

theorem leads_ofAdditions {x y : String} :
    (ofAdditions as).Leads x y ↔ Addition.Given as x ⟨.calculation, y⟩ := by
  rw [Leads, mem_next, (holds_ofAdditions as).references]

theorem hasCycle_ofAdditions {u : String} : (ofAdditions as).hasCycle u = true ↔
    Relation.TransGen (fun x y => Addition.Given as x ⟨.calculation, y⟩) u u := by
  have hleads : (ofAdditions as).Leads = fun x y => Addition.Given as x ⟨.calculation, y⟩ :=
    funext₂ fun _ _ => propext leads_ofAdditions
  rw [hasCycle_iff, hleads]

theorem transGen_of_add {refers : String → String → Prop} {u v w x : String} (hv : v ≠ u)
    (hnoway : ¬ Relation.TransGen refers v u)
    (hpath : Relation.TransGen (fun x y => refers x y ∨ x = w ∧ y = v) x u) :
    Relation.TransGen refers x u := by
  induction hpath using Relation.TransGen.head_induction_on with
  | single hlead =>
    rcases hlead with hlead | ⟨_, rfl⟩
    · exact .single hlead
    · exact absurd rfl hv
  | head hlead _ ih =>
    rcases hlead with hlead | ⟨_, rfl⟩
    · exact .head hlead ih
    · exact absurd ih hnoway

end

/-- Whatever is added to a graph, the search for a way back from a calculation ends, after at most
two steps for each reference of the graph and one more. It finds a way back exactly when one or more
references of calculations to calculations lead from the calculation to itself. References to
constants have no part in it, whatever the constants are called, and neither has a reference to a
calculation that does not lead there, also when it closes a cycle of others. -/
theorem search_decides_cycle (as : List Addition) (u : String) :
    (∃ n ≤ 2 * ((ofAdditions as).outgoing.map fun entry => entry.2.length).sum + 1,
      (Search.step (ofAdditions as) u)^[n] (Search.start (ofAdditions as) u) =
        .over ((ofAdditions as).hasCycle u)) ∧
    ((ofAdditions as).hasCycle u = true ↔
      Relation.TransGen (fun x y => ∃ a ∈ as, a.Gives x ⟨.calculation, y⟩) u u) ∧
    (∀ bs : List Addition,
      (∀ x y, (∃ b ∈ bs, b.Gives x ⟨.calculation, y⟩) ↔ ∃ a ∈ as, a.Gives x ⟨.calculation, y⟩) →
      (ofAdditions bs).hasCycle u = (ofAdditions as).hasCycle u) ∧
    ∀ v w, v ≠ u →
      ¬ Relation.TransGen (fun x y => ∃ a ∈ as, a.Gives x ⟨.calculation, y⟩) v u →
      (ofAdditions (as ++ [.reference w ⟨.calculation, v⟩])).hasCycle u =
        (ofAdditions as).hasCycle u := by
  refine ⟨?_, hasCycle_ofAdditions, fun bs hsame => ?_, fun v w hv hnoway => ?_⟩
  · obtain ⟨n, hn, found, hover⟩ :=
      Search.exists_over (ofAdditions as) u ((ofAdditions as).next u).reverse []
    have hsound := Search.sound_iterate (ofAdditions as) u n
    rw [Search.start, hover] at hsound
    have hfound : found = (ofAdditions as).hasCycle u :=
      Bool.eq_iff_iff.2 (hsound.trans hasCycle_iff.symm)
    exact ⟨n, hn.trans (Nat.succ_le_succ Search.toCome_start_le), hfound ▸ hover⟩
  · have hgiven : (fun x y => Addition.Given bs x ⟨.calculation, y⟩) =
        fun x y => Addition.Given as x ⟨.calculation, y⟩ := funext₂ fun x y => propext (hsame x y)
    rw [Bool.eq_iff_iff, hasCycle_ofAdditions, hasCycle_ofAdditions, hgiven]
  · rw [Bool.eq_iff_iff, hasCycle_ofAdditions, hasCycle_ofAdditions]
    simp only [Addition.given_concat, Addition.Gives, Entity.mk.injEq, true_and]
    exact ⟨transGen_of_add hv hnoway, Relation.TransGen.mono (fun _ _ => Or.inl) u u⟩

def ledOn : List Addition :=
  [.reference "a" ⟨.constant, "a"⟩, .reference "a" ⟨.calculation, "b"⟩,
    .reference "b" ⟨.calculation, "c"⟩]

/-- A reference that closes a cycle of the others leaves the first calculation on none. -/
theorem search_decides_cycle_ledOn :
    (ofAdditions (ledOn ++ [.reference "c" ⟨.calculation, "b"⟩])).hasCycle "b" = true ∧
    (ofAdditions (ledOn ++ [.reference "c" ⟨.calculation, "b"⟩])).hasCycle "a" = false := by
  constructor
  · refine (search_decides_cycle _ "b").2.1.2 (.tail (b := "c") (.single ?_) ?_) <;>
      simp [ledOn, Addition.Gives]
  · refine ((search_decides_cycle ledOn "a").2.2.2 "b" "c" (by decide) fun hpath => ?_).trans
      (by decide +kernel)
    -- nothing refers to a calculation of that name
    obtain ⟨x, _, hlead⟩ := Relation.TransGen.tail'_iff.1 hpath
    simp [ledOn, Addition.Gives] at hlead

end ReferenceGraph

end FormulaLedger
