import FormulaLedger.References
import Mathlib.Data.List.Sort

set_option autoImplicit false

namespace FormulaLedger

section sets

variable {α : Type} [LT α] [DecidableLT α] [Std.Trichotomous fun a b : α => a < b]

theorem mem_insertSorted {x y : α} {xs : List α} : y ∈ insertSorted x xs ↔ y = x ∨ y ∈ xs := by
  induction xs with
  | nil => simp [insertSorted]
  | cons z xs ih =>
    rw [insertSorted]
    by_cases hlt : x < z
    · rw [if_pos hlt, List.mem_cons]
    · rw [if_neg hlt]
      by_cases hgt : z < x
      · rw [if_pos hgt, List.mem_cons, ih, List.mem_cons]
        exact or_left_comm
      · obtain rfl : x = z := Std.Trichotomous.trichotomous x z hlt hgt
        rw [if_neg hgt, List.mem_cons]
        exact or_self_left.symm

theorem pairwise_insertSorted [IsTrans α fun a b => a < b] {x : α} {xs : List α}
    (h : xs.Pairwise (· < ·)) : (insertSorted x xs).Pairwise (· < ·) := by
  induction xs with
  | nil => exact List.pairwise_singleton _ _
  | cons z xs ih =>
    obtain ⟨hall, hrest⟩ := List.pairwise_cons.1 h
    rw [insertSorted]
    split
    · next hlt =>
      refine List.pairwise_cons.2 ⟨fun y hy => ?_, h⟩
      rcases List.mem_cons.1 hy with rfl | hy
      · exact hlt
      · exact trans_of (· < ·) hlt (hall y hy)
    · split
      · next hgt =>
        refine List.pairwise_cons.2 ⟨fun y hy => ?_, ih hrest⟩
        rcases mem_insertSorted.1 hy with rfl | hy
        · exact hgt
        · exact hall y hy
      · exact h

end sets

section tables

variable {κ α : Type}

def KeysSorted [LT κ] (table : List (κ × List α)) : Prop := table.Pairwise fun a b => a.1 < b.1

def under [DecidableEq κ] (table : List (κ × List α)) (k : κ) : List α := (table.lookup k).getD []

theorem under_cons [DecidableEq κ] (k k' : κ) (xs : List α) (rest : List (κ × List α)) :
    under ((k, xs) :: rest) k' = if k' = k then xs else under rest k' := by
  rw [under, List.lookup_cons]
  by_cases hk : k' = k
  · rw [if_pos hk, hk, beq_self_eq_true]
    rfl
  · rw [if_neg hk, beq_false_of_ne hk]
    rfl

def SetsSorted [LT α] (table : List (κ × List α)) : Prop :=
  ∀ entry ∈ table, entry.2.Pairwise (· < ·)

def SetsFilled (table : List (κ × List α)) : Prop := ∀ entry ∈ table, entry.2 ≠ []

theorem SetsSorted.under [DecidableEq κ] [LT α] {table : List (κ × List α)}
    (h : SetsSorted table) (k : κ) : (under table k).Pairwise (· < ·) := by
  induction table with
  | nil => exact List.Pairwise.nil
  | cons entry rest ih =>
    obtain ⟨k', xs⟩ := entry
    rw [under_cons]
    split
    · exact h _ List.mem_cons_self
    · exact ih fun entry hentry => h entry (List.mem_cons_of_mem _ hentry)

variable [LT κ] [DecidableLT κ] [LT α] [DecidableLT α]

theorem mem_keys_insertUnder {k : κ} {x : α} {table : List (κ × List α)} {entry : κ × List α}
    (h : entry ∈ insertUnder k x table) : entry.1 = k ∨ ∃ old ∈ table, old.1 = entry.1 := by
  induction table with
  | nil =>
    obtain rfl := List.mem_singleton.1 h
    exact .inl rfl
  | cons old rest ih =>
    obtain ⟨k', xs⟩ := old
    rw [insertUnder] at h
    split at h
    · rcases List.mem_cons.1 h with rfl | h
      · exact .inl rfl
      · exact .inr ⟨entry, h, rfl⟩
    · split at h
      · rcases List.mem_cons.1 h with rfl | h
        · exact .inr ⟨(k', xs), List.mem_cons_self, rfl⟩
        · rcases ih h with hk | ⟨old, hold, hkey⟩
          · exact .inl hk
          · exact .inr ⟨old, List.mem_cons_of_mem _ hold, hkey⟩
      · rcases List.mem_cons.1 h with rfl | h
        · exact .inr ⟨(k', xs), List.mem_cons_self, rfl⟩
        · exact .inr ⟨entry, List.mem_cons_of_mem _ h, rfl⟩

theorem forall_sets_insertUnder {p : List α → Prop} {k : κ} {x : α} {table : List (κ × List α)}
    (hsingle : p [x]) (hinsert : ∀ xs, p xs → p (insertSorted x xs))
    (h : ∀ entry ∈ table, p entry.2) : ∀ entry ∈ insertUnder k x table, p entry.2 := by
  induction table with
  | nil =>
    intro entry hentry
    obtain rfl := List.mem_singleton.1 hentry
    exact hsingle
  | cons old rest ih =>
    obtain ⟨k', xs⟩ := old
    obtain ⟨hfirst, hrest⟩ := List.forall_mem_cons.1 h
    rw [insertUnder]
    split
    · exact List.forall_mem_cons.2 ⟨hsingle, h⟩
    · split
      · exact List.forall_mem_cons.2 ⟨hfirst, ih hrest⟩
      · exact List.forall_mem_cons.2 ⟨hinsert xs hfirst, hrest⟩

theorem SetsSorted.insertUnder [Std.Trichotomous fun a b : α => a < b]
    [IsTrans α fun a b => a < b] {k : κ} {x : α} {table : List (κ × List α)}
    (h : SetsSorted table) : SetsSorted (insertUnder k x table) :=
  forall_sets_insertUnder (p := List.Pairwise (· < ·)) (List.pairwise_singleton _ _)
    (fun _ => pairwise_insertSorted) h

theorem SetsFilled.insertUnder [Std.Trichotomous fun a b : α => a < b] {k : κ} {x : α}
    {table : List (κ × List α)} (h : SetsFilled table) : SetsFilled (insertUnder k x table) :=
  forall_sets_insertUnder (p := (· ≠ [])) (List.cons_ne_nil _ _)
    (fun _ _ => List.ne_nil_of_mem (mem_insertSorted.2 (.inl rfl))) h

variable [IsTrans κ fun a b => a < b]

theorem KeysSorted.insertUnder {k : κ} {x : α} {table : List (κ × List α)}
    (h : KeysSorted table) : KeysSorted (insertUnder k x table) := by
  induction table with
  | nil => exact List.pairwise_singleton _ _
  | cons old rest ih =>
    obtain ⟨k', xs⟩ := old
    obtain ⟨hall, hrest⟩ := List.pairwise_cons.1 h
    rw [FormulaLedger.insertUnder]
    split
    · next hlt =>
      refine List.pairwise_cons.2 ⟨fun entry hentry => ?_, h⟩
      rcases List.mem_cons.1 hentry with rfl | hentry
      · exact hlt
      · exact trans_of (· < ·) hlt (hall entry hentry)
    · split
      · next hgt =>
        refine List.pairwise_cons.2 ⟨fun entry hentry => ?_, ih hrest⟩
        rcases mem_keys_insertUnder hentry with hk | ⟨old, hold, hkey⟩
        · rw [hk]
          exact hgt
        · rw [← hkey]
          exact hall old hold
      · exact List.pairwise_cons.2 ⟨hall, hrest⟩

variable [DecidableEq κ] [Std.Trichotomous fun a b : κ => a < b] [Std.Irrefl fun a b : κ => a < b]
  [Std.Trichotomous fun a b : α => a < b]

theorem mem_under_insertUnder {k k' : κ} {x y : α} {table : List (κ × List α)}
    (h : KeysSorted table) :
    y ∈ under (insertUnder k x table) k' ↔ k' = k ∧ y = x ∨ y ∈ under table k' := by
  induction table with
  | nil =>
    rw [insertUnder, under_cons]
    by_cases hk : k' = k
    · simp [hk, under]
    · simp [hk]
  | cons old rest ih =>
    obtain ⟨k₀, xs⟩ := old
    obtain ⟨hall, hrest⟩ := List.pairwise_cons.1 h
    rw [insertUnder]
    split
    · next hlt =>
      rw [under_cons]
      by_cases hk : k' = k
      · -- a key smaller than the first is not in the table
        have hnone : under ((k₀, xs) :: rest) k = [] := by
          have hlookup : ((k₀, xs) :: rest).lookup k = none := by
            rw [List.lookup_eq_none_iff]
            intro entry hentry
            rw [bne_iff_ne]
            rintro rfl
            rcases List.mem_cons.1 hentry with rfl | hentry
            · exact irrefl_of (· < ·) _ hlt
            · exact irrefl_of (· < ·) _ (trans_of (· < ·) hlt (hall entry hentry))
          rw [under, hlookup]
          rfl
        rw [if_pos hk, hk, hnone]
        simp
      · simp [hk]
    · next hlt =>
      split
      · rw [under_cons, under_cons]
        by_cases hk : k' = k₀
        · have hne : ¬ k₀ = k := by
            rintro rfl
            exact irrefl_of (· < ·) _ ‹k₀ < k₀›
          simp [hk, hne]
        · rw [if_neg hk, if_neg hk]
          exact ih hrest
      · next hgt =>
        obtain rfl : k = k₀ := Std.Trichotomous.trichotomous k k₀ hlt hgt
        rw [under_cons, under_cons]
        by_cases hk : k' = k
        · rw [if_pos hk, if_pos hk, mem_insertSorted]
          simp [hk]
        · simp [hk]

end tables

section contents

variable {κ α : Type} [DecidableEq κ] [LT κ] [Std.Irrefl fun a b : κ => a < b]
  {table table' : List (κ × List α)} {k : κ}

theorem KeysSorted.lookup_eq_some_iff (h : KeysSorted table) {xs : List α} :
    table.lookup k = some xs ↔ (k, xs) ∈ table := by
  induction table with
  | nil => simp
  | cons entry rest ih =>
    obtain ⟨k', xs'⟩ := entry
    obtain ⟨hall, hrest⟩ := List.pairwise_cons.1 h
    rw [List.lookup_cons, List.mem_cons]
    by_cases hk : k = k'
    · -- the first key does not come again
      have hnot : (k, xs) ∉ rest := fun hmem => irrefl_of (· < ·) k' (hk ▸ hall _ hmem)
      rw [or_iff_left hnot, hk, beq_self_eq_true]
      simp [eq_comm]
    · rw [beq_false_of_ne hk, or_iff_right fun heq => hk (congrArg Prod.fst heq)]
      exact ih hrest

theorem KeysSorted.mem_keys_iff (h : KeysSorted table) (hfilled : SetsFilled table) :
    k ∈ table.map Prod.fst ↔ ∃ x, x ∈ under table k := by
  rw [List.mem_map]
  constructor
  · rintro ⟨⟨k, xs⟩, hentry, rfl⟩
    rw [under, h.lookup_eq_some_iff.2 hentry]
    exact List.exists_mem_of_ne_nil xs (hfilled _ hentry)
  · rintro ⟨x, hx⟩
    cases hlookup : table.lookup k with
    | none =>
      rw [under, hlookup] at hx
      contradiction
    | some xs => exact ⟨(k, xs), h.lookup_eq_some_iff.1 hlookup, rfl⟩

theorem KeysSorted.mem_iff (h : KeysSorted table) (hfilled : SetsFilled table) {xs : List α} :
    (k, xs) ∈ table ↔ xs ≠ [] ∧ under table k = xs := by
  rw [← h.lookup_eq_some_iff, under]
  constructor
  · intro hlookup
    rw [hlookup]
    exact ⟨hfilled _ (h.lookup_eq_some_iff.1 hlookup), rfl⟩
  · rintro ⟨hne, rfl⟩
    cases hlookup : table.lookup k with
    | none =>
      rw [hlookup] at hne
      contradiction
    | some xs => rfl

/-- Two tables in order, without empty sets, that list the same members are equal. -/
theorem table_eq [IsTrans κ fun a b => a < b] [LT α] [Std.Irrefl fun a b : α => a < b]
    [IsTrans α fun a b => a < b] (h : KeysSorted table) (h' : KeysSorted table')
    (hsets : SetsSorted table) (hsets' : SetsSorted table') (hfilled : SetsFilled table)
    (hfilled' : SetsFilled table') (heq : ∀ k x, x ∈ under table k ↔ x ∈ under table' k) :
    table = table' := by
  have hunder : ∀ k, under table k = under table' k := fun k =>
    (hsets.under k).eq_of_mem_iff (hsets'.under k) (heq k)
  have hirrefl : Std.Irrefl fun a b : κ × List α => a.1 < b.1 := ⟨fun a => irrefl_of (· < ·) a.1⟩
  have htrans : IsTrans (κ × List α) fun a b => a.1 < b.1 := ⟨fun _ _ _ => trans_of (· < ·)⟩
  refine List.Pairwise.eq_of_mem_iff h h' fun entry => ?_
  obtain ⟨k, xs⟩ := entry
  rw [h.mem_iff hfilled, h'.mem_iff hfilled', hunder]

end contents

end FormulaLedger
