import FormulaLedger.Json.Record
import FormulaLedger.Proofs.Decimal.Reading
import FormulaLedger.Proofs.Json.Reading

set_option autoImplicit false

namespace FormulaLedger

namespace TextTable

theorem insertEntry_last {key value : String} {entries : List (String × String)}
    (h : ∀ entry ∈ entries, entry.1 < key) :
    insertEntry key value entries = entries ++ [(key, value)] := by
  induction entries with
  | nil => rfl
  | cons head entries ih =>
    obtain ⟨k, v⟩ := head
    have hk : k < key := h (k, v) List.mem_cons_self
    have hrest := ih fun entry he => h entry (List.mem_cons_of_mem _ he)
    rw [insertEntry, if_neg (String.lt_asymm hk), if_pos hk, hrest, List.cons_append]

theorem ext_entries {t u : TextTable} (h : t.entries = u.entries) : t = u := by
  cases t
  cases u
  simpa using h

theorem isEmpty_iff {t : TextTable} : t.isEmpty = true ↔ t = .empty := by
  rw [isEmpty, List.isEmpty_iff]
  exact ⟨fun h => ext_entries h, fun h => congrArg entries h⟩

end TextTable

namespace Json

theorem natOfBits?_nat {bits n : Nat} (h : n < Nat.pow 2 bits) :
    natOfBits? bits (nat n) = some n := by
  have hvalue : Decimal.ofDigits (Nat.toDigits 10 n) = n := by
    rw [Decimal.ofDigits_eq, Nat.ofDigitChars_ten_toDigits]
  have hint : (nat n).int? = some (n : Int) := by
    simp [nat, int?, Numeral.ofNat, Numeral.toInt?, hvalue]
  rw [natOfBits?, hint]
  simp
  exact_mod_cast h

theorem nullable?_nat {α : Type} (value? : Json → Option α) (n : Nat) :
    nullable? value? (nat n) = (value? (nat n)).map some := rfl

theorem lt_of_natOfBits? {bits n : Nat} {value : Json} (h : natOfBits? bits value = some n) :
    n < Nat.pow 2 bits := by
  obtain ⟨i, -, hi⟩ := Option.bind_eq_some_iff.1 h
  split at hi
  · next hrange =>
    obtain rfl := Option.some.inj hi
    omega
  · simp at hi

def ofTable (t : TextTable) : Json := record (t.entries.map fun (key, value) => (key, str value))

theorem foldlM_insert (entries : List (String × String)) (t : TextTable)
    (h : (t.entries ++ entries).Pairwise fun a b => a.1 < b.1) :
    ∃ u : TextTable, u.entries = t.entries ++ entries ∧
      (entries.map fun (key, value) => (some key, str value)).foldlM
        (fun (table : TextTable) ((name, value) : Option String × Json) => do
          return table.insert (← name) (← value.text?)) t = some u := by
  induction entries generalizing t with
  | nil => exact ⟨t, by simp, rfl⟩
  | cons entry entries ih =>
    obtain ⟨key, value⟩ := entry
    have hlast : (t.insert key value).entries = t.entries ++ [(key, value)] :=
      TextTable.insertEntry_last fun e he =>
        (List.pairwise_append.1 h).2.2 e he (key, value) List.mem_cons_self
    obtain ⟨u, hu, hfold⟩ := ih (t.insert key value) (by simpa [hlast] using h)
    exact ⟨u, by simpa [hlast] using hu, hfold⟩

theorem textTable?_ofTable (t : TextTable) : textTable? (ofTable t) = some t := by
  obtain ⟨u, hu, hfold⟩ := foldlM_insert t.entries .empty (by
    simpa [TextTable.empty] using t.sorted)
  have heq : u = t := TextTable.ext_entries (by simpa [TextTable.empty] using hu)
  rw [← heq, ← hfold, heq]
  simp [ofTable, record, textTable?]
  rfl

theorem mapM_named (fields : Record) :
    (fields.map fun (name, value) => (some name, value)).mapM
      (fun ((name, value) : Option String × Json) => name.map (·, value)) = some fields := by
  induction fields with
  | nil => rfl
  | cons field fields ih => simp_all

theorem record?_record {known : List String} {fields : Record}
    (hknown : ∀ field ∈ fields, field.1 ∈ known) (hnodup : (fields.map Prod.fst).Nodup) :
    (record fields).record? known = some fields := by
  have hall : fields.filter (fun (name, _) => known.contains name) = fields := by
    rw [List.filter_eq_self]
    simpa using hknown
  have honce : ∀ name, (fields.filter fun field => field.1 == name).length ≤ 1 := by
    intro name
    have hcount := List.nodup_iff_count_le_one.1 hnodup name
    rwa [List.count, List.countP_map, List.countP_eq_length_filter] at hcount
  simp only [record, record?, knownFields?, mapM_named, Option.bind_eq_bind, Option.bind_some,
    hall, honce]
  simp

def present (slots : List (String × Option Json)) : Record :=
  slots.flatMap fun (name, value) => optional name value

@[simp] theorem present_nil : present [] = [] := rfl

@[simp] theorem present_cons (name : String) (slot : Option Json)
    (slots : List (String × Option Json)) :
    present ((name, slot) :: slots) = optional name slot ++ present slots := rfl

variable {slots : List (String × Option Json)} {name : String}

theorem mem_present {value : Json} :
    (name, value) ∈ present slots ↔ (name, some value) ∈ slots := by
  induction slots with
  | nil => simp
  | cons slot slots ih =>
    obtain ⟨other, slot⟩ := slot
    cases slot <;> simp [optional, ih]

theorem sublist_present (slots : List (String × Option Json)) :
    ((present slots).map Prod.fst).Sublist (slots.map Prod.fst) := by
  induction slots with
  | nil => simp
  | cons slot slots ih =>
    obtain ⟨name, slot⟩ := slot
    cases slot with
    | none => simpa [optional] using ih.cons name
    | some value => simpa [optional] using ih

theorem lookup_present (hnodup : (slots.map Prod.fst).Nodup) {slot : Option Json}
    (h : (name, slot) ∈ slots) : (present slots).lookup name = slot := by
  induction slots with
  | nil => simp at h
  | cons head slots ih =>
    obtain ⟨other, first⟩ := head
    obtain ⟨hother, hrest⟩ := List.nodup_cons.1 hnodup
    rcases List.mem_cons.1 h with heq | hmem
    · obtain ⟨rfl, rfl⟩ := Prod.mk.inj heq
      have habsent : (present slots).lookup name = none := by
        rw [List.lookup_eq_none_iff]
        intro field hfield
        have hin := (sublist_present slots).mem (List.mem_map_of_mem hfield)
        rw [bne_iff_ne]
        rintro rfl
        exact hother hin
      cases slot <;> simp [optional, habsent]
    · have hne : name ≠ other := by
        rintro rfl
        exact hother (List.mem_map.2 ⟨_, hmem, rfl⟩)
      have hskip : (name == other) = false := by simpa using hne
      cases first <;> simp [optional, List.lookup, hskip, ih hrest hmem]

theorem defaulted_present {α : Type} (hnodup : (slots.map Prod.fst).Nodup) {slot : Option Json}
    (h : (name, slot) ∈ slots) {default a : α} {value? : Json → Option α}
    (hnone : slot = none → a = default) (hsome : ∀ value ∈ slot, value? value = some a) :
    Record.defaulted (present slots) name default value? = some a := by
  rw [Record.defaulted, lookup_present hnodup h]
  cases slot with
  | none => rw [hnone rfl]
  | some value => exact hsome value rfl

theorem defaulted_map {α : Type} (hnodup : (slots.map Prod.fst).Nodup) {given : Option α}
    {put : α → Json} {value? : Json → Option α} (h : (name, given.map put) ∈ slots)
    (hread : ∀ a ∈ given, nullable? value? (put a) = some (some a)) :
    Record.defaulted (present slots) name none (nullable? value?) = some given := by
  refine defaulted_present hnodup h (by simp) ?_
  simp only [Option.mem_def, Option.map_eq_some_iff]
  rintro _ ⟨a, rfl, rfl⟩
  exact hread a rfl

theorem lt_of_defaulted {bits : Nat} {fields : Record} {index : Option Nat}
    (h : fields.defaulted name none (nullable? (natOfBits? bits)) = some index) :
    ∀ n ∈ index, n < Nat.pow 2 bits := by
  rintro n rfl
  rw [Record.defaulted] at h
  split at h
  · next value hlookup =>
    unfold nullable? at h
    split at h
    · simp at h
    · obtain ⟨m, hm, heq⟩ := Option.map_eq_some_iff.1 h
      obtain rfl := Option.some.inj heq
      exact lt_of_natOfBits? hm
  · simp at h

@[simp] theorem writable_str (s : String) : (str s).Writable := rfl

@[simp] theorem writable_nat (n : Nat) : (nat n).Writable := Numeral.wellFormed_ofNat n

theorem writable_record {fields : Record} (h : ∀ field ∈ fields, field.2.Writable) :
    (record fields).Writable := by
  rw [record, Writable]
  induction fields with
  | nil => trivial
  | cons field fields ih =>
    refine ⟨rfl, h field List.mem_cons_self, ih fun other hother => ?_⟩
    exact h other (List.mem_cons_of_mem _ hother)

theorem writable_present (h : ∀ slot ∈ slots, ∀ value ∈ slot.2, value.Writable) :
    (record (present slots)).Writable :=
  writable_record fun _ hfield => h _ (mem_present.1 hfield) _ rfl

@[simp] theorem writable_ofTable (t : TextTable) : (ofTable t).Writable := by
  refine writable_record fun field hfield => ?_
  obtain ⟨entry, -, rfl⟩ := List.mem_map.1 hfield
  exact writable_str entry.2

end Json

end FormulaLedger
