import Mathlib.Logic.Relation

/-!
Walks without repeats. A search that follows a relation, keeps the places on its way and turns back
where it would come to one of them again, meets such a place exactly when it can reach a cycle.
-/

set_option autoImplicit false

namespace FormulaLedger

variable {α : Type} {r : α → α → Prop} {u v w x : α} {path : List α}

/-- A search that has come to `v` along `path`, the last place first, can go on to where its next
step would enter `x` again. -/
inductive Meets (r : α → α → Prop) : List α → α → α → Prop
  | here {path : List α} {v x : α} : r v x → x ∈ path → Meets r path v x
  | onward {path : List α} {v w x : α} : r v w → w ∉ path → Meets r (w :: path) w x →
      Meets r path v x

/-- A walk from `u` that never comes to a place again: its places, the last first, and the last. -/
inductive Walk (r : α → α → Prop) (u : α) : List α → α → Prop
  | start : Walk r u [u] u
  | step {path : List α} {v w : α} : Walk r u path v → r v w → w ∉ path →
      Walk r u (w :: path) w

namespace Meets

theorem cycle (h : Meets r path v x) (hpath : ∀ w ∈ path, Relation.ReflTransGen r w v) :
    Relation.TransGen r v x ∧ Relation.TransGen r x x := by
  induction h with
  | here hstep hmem => exact ⟨.single hstep, .tail' (hpath _ hmem) hstep⟩
  | @onward path v w x hstep _ _ ih =>
    obtain ⟨hreach, hcycle⟩ := ih fun y hy => by
      rcases List.mem_cons.1 hy with rfl | hy
      · exact .refl
      · exact (hpath y hy).tail hstep
    exact ⟨.head hstep hreach, hcycle⟩

end Meets

namespace Walk

theorem start_mem (h : Walk r u path v) : u ∈ path := by
  induction h with
  | start => exact List.mem_cons_self
  | step _ _ _ ih => exact List.mem_cons_of_mem _ ih

theorem end_mem (h : Walk r u path v) : v ∈ path := by
  cases h with
  | start => exact List.mem_cons_self
  | step => exact List.mem_cons_self

theorem meets (h : Walk r u path v) (hx : Meets r path v x) : Meets r [u] u x := by
  induction h with
  | start => exact hx
  | step _ hstep hnew ih => exact ih (.onward hstep hnew hx)

theorem exists_of_mem (h : Walk r u path v) (hw : w ∈ path) : ∃ path', Walk r u path' w := by
  induction h with
  | start =>
    obtain rfl := List.mem_singleton.1 hw
    exact ⟨_, .start⟩
  | step hwalk hstep hnew ih =>
    rcases List.mem_cons.1 hw with rfl | hw
    · exact ⟨_, .step hwalk hstep hnew⟩
    · exact ih hw

theorem exists_of_reached (h : Relation.ReflTransGen r u v) : ∃ path, Walk r u path v := by
  induction h with
  | refl => exact ⟨_, .start⟩
  | @tail v w _ hstep ih =>
    obtain ⟨path, hwalk⟩ := ih
    by_cases hw : w ∈ path
    · exact hwalk.exists_of_mem hw
    · exact ⟨_, hwalk.step hstep hw⟩

/-- A walk goes on as far as the relation leads, unless something is met on the way. -/
theorem extend (h : Walk r u path v) (hreach : Relation.ReflTransGen r v w) :
    (∃ x, Meets r [u] u x) ∨ ∃ path', Walk r u path' w ∧ path ⊆ path' := by
  induction hreach with
  | refl => exact .inr ⟨path, h, List.Subset.refl _⟩
  | @tail w y _ hstep ih =>
    rcases ih with hmet | ⟨path', hwalk, hsub⟩
    · exact .inl hmet
    · by_cases hy : y ∈ path'
      · -- the search turns back here, and what it would enter again is met
        exact .inl ⟨y, hwalk.meets (.here hstep hy)⟩
      · exact .inr ⟨y :: path', hwalk.step hstep hy, List.subset_cons_of_subset _ hsub⟩

end Walk

theorem meets_start_iff : Meets r [u] u u ↔ Relation.TransGen r u u := by
  constructor
  · intro h
    exact (h.cycle (by simp [Relation.ReflTransGen.refl])).1
  · intro h
    obtain ⟨v, hreach, hstep⟩ := Relation.TransGen.tail'_iff.1 h
    obtain ⟨path, hwalk⟩ := Walk.exists_of_reached hreach
    exact hwalk.meets (.here hstep hwalk.start_mem)

theorem exists_meets_iff : (∃ x, Meets r [u] u x) ↔
    ∃ w, Relation.ReflTransGen r u w ∧ Relation.TransGen r w w := by
  constructor
  · rintro ⟨x, hx⟩
    obtain ⟨hreach, hcycle⟩ := hx.cycle (by simp [Relation.ReflTransGen.refl])
    exact ⟨x, hreach.to_reflTransGen, hcycle⟩
  · rintro ⟨w, hreach, hcycle⟩
    obtain ⟨path, hwalk⟩ := Walk.exists_of_reached hreach
    obtain ⟨v, hround, hstep⟩ := Relation.TransGen.tail'_iff.1 hcycle
    rcases hwalk.extend hround with hmet | ⟨path', hwalk', hsub⟩
    · exact hmet
    · exact ⟨w, hwalk'.meets (.here hstep (hsub hwalk.end_mem))⟩

end FormulaLedger
