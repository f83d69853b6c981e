/-!
Tables from texts to texts, kept in the order of their keys with one entry for each. So two tables
are equal when they hold the same entries, however they came to hold them.
-/

set_option autoImplicit false

namespace FormulaLedger

structure TextTable where
  entries : List (String × String)
  sorted : entries.Pairwise fun a b => a.1 < b.1
  deriving DecidableEq, Repr

namespace TextTable

def insertEntry (key value : String) : List (String × String) → List (String × String)
  | [] => [(key, value)]
  | (k, v) :: rest =>
    if key < k then (key, value) :: (k, v) :: rest
    else if k < key then (k, v) :: insertEntry key value rest
    else (k, value) :: rest

theorem key_of_mem_insertEntry {key value : String} {entry : String × String}
    {entries : List (String × String)} (h : entry ∈ insertEntry key value entries) :
    entry.1 = key ∨ ∃ old ∈ entries, old.1 = entry.1 := by
  induction entries with
  | nil => simp_all [insertEntry]
  | cons head rest ih =>
    obtain ⟨k, v⟩ := head
    rw [insertEntry] at h
    split at h
    · rcases List.mem_cons.1 h with rfl | h
      · exact Or.inl rfl
      · exact Or.inr ⟨entry, h, rfl⟩
    · split at h
      · rcases List.mem_cons.1 h with rfl | h
        · exact Or.inr ⟨(k, v), List.mem_cons_self, rfl⟩
        · rcases ih h with hk | ⟨old, hm, ho⟩
          · exact Or.inl hk
          · exact Or.inr ⟨old, List.mem_cons_of_mem _ hm, ho⟩
      · rcases List.mem_cons.1 h with rfl | h
        · exact Or.inr ⟨(k, v), List.mem_cons_self, rfl⟩
        · exact Or.inr ⟨entry, List.mem_cons_of_mem _ h, rfl⟩

theorem sorted_insertEntry (key value : String) {entries : List (String × String)}
    (h : entries.Pairwise fun a b => a.1 < b.1) :
    (insertEntry key value entries).Pairwise fun a b => a.1 < b.1 := by
  induction entries with
  | nil => simp [insertEntry]
  | cons head rest ih =>
    obtain ⟨k, v⟩ := head
    obtain ⟨hk, hr⟩ := List.pairwise_cons.1 h
    rw [insertEntry]
    split
    · rename_i hlt
      refine List.pairwise_cons.2 ⟨fun entry hm => ?_, h⟩
      rcases List.mem_cons.1 hm with rfl | hm
      · exact hlt
      · exact String.lt_trans hlt (hk entry hm)
    · split
      · rename_i hlt
        refine List.pairwise_cons.2 ⟨fun entry hm => ?_, ih hr⟩
        rcases key_of_mem_insertEntry hm with he | ⟨old, hm, ho⟩
        · exact he ▸ hlt
        · exact ho ▸ hk old hm
      · exact List.pairwise_cons.2 ⟨hk, hr⟩

def empty : TextTable := ⟨[], List.Pairwise.nil⟩

def insert (t : TextTable) (key value : String) : TextTable :=
  ⟨insertEntry key value t.entries, sorted_insertEntry key value t.sorted⟩

def isEmpty (t : TextTable) : Bool := t.entries.isEmpty

def lookup? (t : TextTable) (key : String) : Option String := t.entries.lookup key

end TextTable

end FormulaLedger
