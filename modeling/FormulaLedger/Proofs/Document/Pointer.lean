import FormulaLedger.Document.Entry
import FormulaLedger.Proofs.Json.Record
import FormulaLedger.Proofs.Pointer.Record

set_option autoImplicit false

namespace FormulaLedger

namespace PointerRecord

structure Fits (r : PointerRecord) : Prop where
  row : ∀ index ∈ r.row, index < Nat.pow 2 64
  column : ∀ index ∈ r.column, index < Nat.pow 2 64

def read? (text : String) : Option PointerRecord := Json.read? text >>= ofJson?

def texts (r : PointerRecord) : List String := [r.toJson.compact, r.toJson.pretty]

def slots (r : PointerRecord) : List (String × Option Json) :=
  [("type", some (.str r.kind)),
    ("text", if r.text.isEmpty then none else some (.str r.text)),
    ("payload", if r.payload.isEmpty then none else some (Json.ofTable r.payload)),
    ("value", r.value.map .str),
    ("uniqueId", r.uniqueId.map .str),
    ("materialId", r.materialId.map .str),
    ("row", r.row.map .nat),
    ("col", r.column.map .nat),
    ("function", r.function.map .str),
    ("criteria", r.criteria.map .str)]

variable {r : PointerRecord}

theorem toJson_eq (r : PointerRecord) : r.toJson = .record (Json.present r.slots) := by
  simp [toJson, slots, Json.present, Json.optional, Json.ofTable]

theorem names_slots (r : PointerRecord) : r.slots.map Prod.fst = fieldNames := rfl

theorem nodup_slots (r : PointerRecord) : (r.slots.map Prod.fst).Nodup := by
  rw [names_slots]
  decide

theorem record?_toJson (r : PointerRecord) :
    r.toJson.record? fieldNames = some (Json.present r.slots) := by
  have hnames := Json.sublist_present r.slots
  rw [toJson_eq]
  refine Json.record?_record (fun field hfield => ?_) (hnames.nodup r.nodup_slots)
  rw [← names_slots r]
  exact hnames.mem (List.mem_map_of_mem hfield)

theorem defaulted_text (r : PointerRecord) (name : String) (text : Option String)
    (h : (name, text.map .str) ∈ r.slots) :
    Json.Record.defaulted (Json.present r.slots) name none (Json.nullable? Json.text?) =
      some text :=
  Json.defaulted_map r.nodup_slots h fun _ _ => rfl

theorem defaulted_index (r : PointerRecord) (name : String) (index : Option Nat)
    (h : (name, index.map .nat) ∈ r.slots) (hfits : ∀ n ∈ index, n < Nat.pow 2 64) :
    Json.Record.defaulted (Json.present r.slots) name none (Json.nullable? (Json.natOfBits? 64)) =
      some index := by
  refine Json.defaulted_map r.nodup_slots h fun n hn => ?_
  rw [Json.nullable?_nat, Json.natOfBits?_nat (hfits n hn), Option.map_some]

theorem ofJson?_toJson (h : r.Fits) : ofJson? r.toJson = some r := by
  have hkind : Json.Record.required (Json.present r.slots) "type" Json.text? = some r.kind := rfl
  have htext : Json.Record.defaulted (Json.present r.slots) "text" "" Json.text? = some r.text := by
    refine Json.defaulted_present r.nodup_slots (List.mem_cons_of_mem _ List.mem_cons_self) ?_ ?_
    · by_cases hempty : r.text = "" <;> simp [hempty]
    · by_cases hempty : r.text = "" <;> simp [hempty, Json.str, Json.text?]
  have hpayload : Json.Record.defaulted (Json.present r.slots) "payload" .empty Json.textTable? =
      some r.payload := by
    refine Json.defaulted_present r.nodup_slots
      (List.mem_cons_of_mem _ (List.mem_cons_of_mem _ List.mem_cons_self)) ?_ ?_
    · simp [TextTable.isEmpty_iff]
    · intro value hvalue
      split at hvalue
      · contradiction
      · obtain rfl := Option.some.inj hvalue
        exact Json.textTable?_ofTable r.payload
  have hvalue := r.defaulted_text "value" r.value (by simp [slots])
  have huniqueId := r.defaulted_text "uniqueId" r.uniqueId (by simp [slots])
  have hmaterialId := r.defaulted_text "materialId" r.materialId (by simp [slots])
  have hrow := r.defaulted_index "row" r.row (by simp [slots]) h.row
  have hcolumn := r.defaulted_index "col" r.column (by simp [slots]) h.column
  have hfunction := r.defaulted_text "function" r.function (by simp [slots])
  have hcriteria := r.defaulted_text "criteria" r.criteria (by simp [slots])
  simp only [ofJson?, record?_toJson, Option.bind_eq_bind, Option.bind_some, hkind, htext,
    hpayload, hvalue, huniqueId, hmaterialId, hrow, hcolumn, hfunction, hcriteria]
  rfl

theorem writable_toJson (r : PointerRecord) : r.toJson.Writable := by
  rw [toJson_eq]
  refine Json.writable_present ?_
  simp [slots]

theorem read?_toJson {text : String} (h : text ∈ r.texts) : Json.read? text = some r.toJson := by
  simp only [texts, List.mem_cons, List.not_mem_nil, or_false] at h
  rcases h with rfl | rfl
  · exact Json.read?_compact r.writable_toJson
  · exact Json.read?_pretty r.writable_toJson

theorem read?_of_mem_texts {text : String} (h : r.Fits) (ht : text ∈ r.texts) :
    read? text = some r := by
  rw [read?, read?_toJson ht, Option.bind_eq_bind, Option.bind_some, ofJson?_toJson h]

theorem fits_of_ofJson? {json : Json} (h : ofJson? json = some r) : r.Fits := by
  simp only [ofJson?, Option.bind_eq_bind, Option.bind_eq_some_iff] at h
  obtain ⟨_, -, _, -, _, -, _, -, _, -, _, -, _, -, row, hrow, column, hcolumn, _, -, _, -, hr⟩ := h
  obtain rfl := Option.some.inj hr
  exact ⟨Json.lt_of_defaulted hrow, Json.lt_of_defaulted hcolumn⟩

def Writes (r : PointerRecord) (name : String) : Prop :=
  name = "type" ∨ (name = "text" ∧ r.text ≠ "") ∨ (name = "payload" ∧ r.payload ≠ .empty) ∨
    ∃ field : PointerField, name = field.name ∧ r.has field = true

theorem mem_names_iff {name : String} :
    name ∈ (Json.present r.slots).map Prod.fst ↔ r.Writes name := by
  have hslot : name ∈ (Json.present r.slots).map Prod.fst ↔
      ∃ slot, (name, slot) ∈ r.slots ∧ slot.isSome = true := by
    simp [Json.mem_present, Option.isSome_iff_exists]
  rw [hslot, Writes, PointerField.exists_iff]
  simp [slots, or_and_right, exists_or, and_assoc, TextTable.isEmpty_iff, PointerField.name, has]

theorem Fits.normalised (h : r.Fits) (defaultText : String) : (r.normalised defaultText).Fits :=
  ⟨h.row, h.column⟩

end PointerRecord

namespace Pointer

def read? (text : String) : Option (Except PointerError Pointer) :=
  (PointerRecord.read? text).map PointerRecord.decode

/-- Encoding a pointer and decoding a record are inverse to each other on what is well formed, and
so are writing and reading the JSON texts of records. -/
theorem record_inverse :
    (∀ (r : PointerRecord) (p : Pointer), r.decode = .ok p →
      p.record = r.normalised p.target.defaultText ∧ p.record.decode = .ok p) ∧
    (∀ p : Pointer, p.record.decode = .ok p ↔ p.WellFormed) ∧
    (∀ (given : String) (r : PointerRecord) (p : Pointer),
      PointerRecord.read? given = some r → r.decode = .ok p → ∀ text ∈ p.record.texts,
        PointerRecord.read? text = some (r.normalised p.target.defaultText) ∧
          read? text = some (.ok p)) ∧
    (∀ p : Pointer, p.record.Fits → ∀ text ∈ p.record.texts,
      (read? text = some (.ok p) ↔ p.WellFormed)) ∧
    ∀ (r : PointerRecord), ∀ text ∈ r.texts, ∃ fields : Json.Record,
      Json.read? text = some (.record fields) ∧
        ∀ name, name ∈ fields.map Prod.fst ↔ r.Writes name := by
  have hrecord : ∀ (r : PointerRecord) (p : Pointer), r.decode = .ok p →
      p.record = r.normalised p.target.defaultText := fun r p h =>
    (PointerRecord.decode_eq_ok_iff.1 h).2
  have hagain : ∀ (r : PointerRecord) (p : Pointer), r.decode = .ok p → p.record.decode = .ok p :=
    fun r p h => decode_record_iff.2 (wellFormed_of_decode h)
  refine ⟨fun r p h => ⟨hrecord r p h, hagain r p h⟩, fun p => decode_record_iff, ?_, ?_, ?_⟩
  · intro given r p hgiven hdecode text htext
    obtain ⟨json, -, hjson⟩ := Option.bind_eq_some_iff.1 hgiven
    have hfits : p.record.Fits := by
      rw [hrecord r p hdecode]
      exact (PointerRecord.fits_of_ofJson? hjson).normalised _
    have hread := PointerRecord.read?_of_mem_texts hfits htext
    rw [read?, hread, Option.map_some, hagain r p hdecode, hrecord r p hdecode]
    exact ⟨rfl, rfl⟩
  · intro p hfits text htext
    rw [read?, PointerRecord.read?_of_mem_texts hfits htext, Option.map_some, Option.some.injEq]
    exact decode_record_iff
  · intro r text htext
    refine ⟨Json.present r.slots, ?_, fun name => PointerRecord.mem_names_iff⟩
    rw [PointerRecord.read?_toJson htext, PointerRecord.toJson_eq]

/-- The total of a column, with blanks and a capital in its record. -/
theorem record_inverse_total :
    let r : PointerRecord :=
      { PointerRecord.bare "aggregate" with
        materialId := some " m1 ", column := some 2, function := some "Sum " }
    let p := Pointer.of (.aggregate "m1" (.column 2) .sum)
    r.decode = .ok p ∧ p.record = r.normalised "sum(m1[col 2])" ∧ p.record.decode = .ok p ∧
      PointerRecord.read? r.toJson.pretty = some r ∧ p.record.Fits ∧
      PointerRecord.read? p.record.toJson.compact = some (r.normalised "sum(m1[col 2])") ∧
      read? p.record.toJson.compact = some (.ok p) ∧ p.WellFormed := by
  intro r p
  have hdecode : r.decode = .ok p := by decide +kernel
  have hfits : r.Fits := ⟨by decide, by decide⟩
  have hgiven : PointerRecord.read? r.toJson.pretty = some r :=
    PointerRecord.read?_of_mem_texts hfits (by simp [PointerRecord.texts])
  have hmem : p.record.toJson.compact ∈ p.record.texts := List.mem_cons_self
  obtain ⟨hdecoded, hiff, hthrough, hthroughIff, -⟩ := record_inverse
  obtain ⟨hrecord, hagain⟩ := hdecoded r p hdecode
  obtain ⟨hspelled, hread⟩ := hthrough r.toJson.pretty r p hgiven hdecode _ hmem
  have hwritten : p.record.Fits := by
    rw [hrecord]
    exact hfits.normalised _
  have hwf : p.WellFormed := (hthroughIff p hwritten _ hmem).1 hread
  exact ⟨hdecode, hrecord, hagain, hgiven, hwritten, hspelled, hread, hwf⟩

end Pointer

end FormulaLedger
