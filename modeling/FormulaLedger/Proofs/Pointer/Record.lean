import FormulaLedger.Pointer.Record
import FormulaLedger.Proofs.Text.Trim

/-!
Pointers and their records. A record describes a pointer exactly when the pointer is well formed and
its own record is the normalised one, so decoding and encoding are inverse to each other on what is
well formed.
-/

set_option autoImplicit false

namespace FormulaLedger

open Text (Tight)

def literalAlphabet : List Char := "0123456789.+-*/() ".toList

def AggregateFunction.WellFormed : AggregateFunction → Prop
  | .sum => True
  | .countIf criteria => Text.isBlankText criteria = false

def Target.WellFormed : Target → Prop
  | .literal text => Tight text ∧ ∀ c ∈ text.toList, c ∈ literalAlphabet
  | .constant uniqueId | .calculation uniqueId => Tight uniqueId
  | .cell materialId _ _ => Tight materialId
  | .aggregate materialId _ function => Tight materialId ∧ function.WellFormed

structure Pointer.WellFormed (p : Pointer) : Prop where
  text : p.label.text ≠ ""
  target : p.target.WellFormed

/-- The record in the spelling of the program, where an empty text gives way to the default one. -/
def PointerRecord.normalised (r : PointerRecord) (defaultText : String) : PointerRecord :=
  { r with
    text := if r.text.isEmpty then defaultText else r.text
    value := r.value.map Text.trim
    uniqueId := r.uniqueId.map Text.trim
    materialId := r.materialId.map Text.trim
    function := r.function.map fun name => Text.lowercase (Text.trim name) }

theorem isDigit_iff_mem (c : Char) : c.isDigit = true ↔ c ∈ "0123456789".toList := by
  constructor
  · intro h
    have hrange : 48 ≤ c.toNat ∧ c.toNat ≤ 57 := by
      simpa [Char.isDigit, UInt32.le_iff_toNat_le] using h
    have hmem : c.toNat ∈ List.range' 48 10 := by
      simp [List.mem_range']
      exact ⟨c.toNat - 48, by omega⟩
    have hall : (List.range' 48 10).all (fun n => "0123456789".toList.contains (Char.ofNat n)) =
        true := by decide
    simpa using List.all_eq_true.1 hall c.toNat hmem
  · have hall : "0123456789".toList.all Char.isDigit = true := by decide
    exact List.all_eq_true.1 hall c

theorem isLiteralChar_iff (c : Char) : isLiteralChar c = true ↔ c ∈ literalAlphabet := by
  have hsplit : literalAlphabet = "0123456789".toList ++ ".+-*/() ".toList := by decide
  rw [isLiteralChar, Bool.or_eq_true, isDigit_iff_mem, List.contains_iff_mem, hsplit,
    List.mem_append]

theorem bind_eq_ok_iff {ε α β : Type} {x : Except ε α} {f : α → Except ε β} {b : β} :
    (x >>= f) = .ok b ↔ ∃ a, x = .ok a ∧ f a = .ok b := by
  cases x with
  | error e => simp [bind, Except.bind]
  | ok a => simp [bind, Except.bind]

theorem PointerField.forall_iff {p : PointerField → Prop} : (∀ field, p field) ↔
    p .value ∧ p .uniqueId ∧ p .materialId ∧ p .row ∧ p .column ∧ p .function ∧ p .criteria := by
  constructor
  · intro h
    exact ⟨h _, h _, h _, h _, h _, h _, h _⟩
  · rintro ⟨hvalue, huniqueId, hmaterialId, hrow, hcolumn, hfunction, hcriteria⟩ field
    cases field <;> assumption

theorem PointerField.exists_iff {p : PointerField → Prop} : (∃ field, p field) ↔
    p .value ∨ p .uniqueId ∨ p .materialId ∨ p .row ∨ p .column ∨ p .function ∨ p .criteria := by
  rw [← not_iff_not, not_exists, PointerField.forall_iff]
  simp only [not_or]

def Target.kind : Target → PointerKind
  | .literal _ => .literal
  | .constant _ => .constant
  | .calculation _ => .calculation
  | .cell .. => .cell
  | .aggregate .. => .aggregate

def AggregateFunction.criteria? : AggregateFunction → Option String
  | .sum => none
  | .countIf criteria => some criteria

def Scope.row? : Scope → Option Nat
  | .row index => some index
  | _ => none

def Scope.column? : Scope → Option Nat
  | .column index => some index
  | _ => none

namespace PointerRecord

variable {r : PointerRecord} {p : Pointer} {kind : PointerKind} {field : PointerField}

theorem ofName?_eq_some_iff {name : String} :
    PointerKind.ofName? name = some kind ↔ name = kind.name := by
  constructor
  · intro h
    have hname := List.find?_some h
    exact (beq_iff_eq.1 hname).symm
  · rintro rfl
    cases kind <;> decide

def Within (r : PointerRecord) (kind : PointerKind) : Prop :=
  ∀ field, r.has field = true → kind.owns field = true

theorem foreignField?_eq_none_iff : r.foreignField? kind = none ↔ r.Within kind := by
  rw [foreignField?, List.find?_eq_none]
  constructor
  · intro h field hfield
    have hall : field ∈ PointerField.all := by cases field <;> decide
    simpa [hfield] using h field hall
  · intro h field _ hforeign
    simp only [Bool.and_eq_true, Bool.not_eq_true'] at hforeign
    simp [h field hforeign.2] at hforeign

theorem require_eq_ok_iff {α : Type} {value : Option α} {a : α} :
    require kind field value = .ok a ↔ value = some a := by
  cases value <;> simp [require]

theorem requireVisible_eq_ok_iff {value : Option String} {text : String} :
    requireVisible kind field value = .ok text ↔
      value = some text ∧ Text.isBlankText text = false := by
  simp only [requireVisible, bind_eq_ok_iff, require_eq_ok_iff]
  constructor
  · rintro ⟨given, rfl, h⟩
    cases hblank : Text.isBlankText given <;> simp_all
  · rintro ⟨rfl, hblank⟩
    exact ⟨text, rfl, by simp [hblank]⟩

theorem requireText_eq_ok_iff {value : Option String} {text : String} :
    requireText kind field value = .ok text ↔ value.map Text.trim = some text ∧ Tight text := by
  have hmap : requireText kind field value = .ok text ↔
      ∃ given, requireVisible kind field value = .ok given ∧ Text.trim given = text := by
    rw [requireText]
    cases requireVisible kind field value <;> simp [Except.map]
  rw [hmap]
  simp only [requireVisible_eq_ok_iff, Option.map_eq_some_iff]
  constructor
  · rintro ⟨given, ⟨rfl, hblank⟩, rfl⟩
    exact ⟨⟨given, rfl, rfl⟩, Text.tight_trim hblank⟩
  · rintro ⟨⟨given, rfl, rfl⟩, htight⟩
    exact ⟨given, ⟨rfl, htight.not_blank⟩, rfl⟩

theorem literalOf_eq_ok_iff {value : String} {target : Target} :
    literalOf value = .ok target ↔
      target = .literal (Text.trim value) ∧ (Target.literal (Text.trim value)).WellFormed := by
  have hchars : (Text.trim value).toList.all isLiteralChar = true ↔
      ∀ c ∈ (Text.trim value).toList, c ∈ literalAlphabet := by
    simp [List.all_eq_true, isLiteralChar_iff]
  rw [literalOf, Target.WellFormed, ← hchars]
  by_cases hempty : Text.trim value = ""
  · simp [hempty]
    rintro - ⟨hne, -⟩
    exact (hne rfl).elim
  · have htight : Tight (Text.trim value) := ⟨hempty, Text.trim_trim value⟩
    cases hall : (Text.trim value).toList.all isLiteralChar
    · simp
    · simp [hempty, htight]
      exact eq_comm

theorem functionOf_eq_ok_iff {f : AggregateFunction} :
    r.functionOf = .ok f ↔
      r.function.map (fun name => Text.lowercase (Text.trim name)) = some f.name ∧
        r.criteria = f.criteria? ∧ f.WellFormed := by
  simp only [functionOf, bind_eq_ok_iff, require_eq_ok_iff, Option.map_eq_some_iff]
  constructor
  · rintro ⟨name, hname, h⟩
    split at h
    · next hsum =>
      cases hcriteria : r.criteria with
      | some criteria => simp [hcriteria] at h
      | none =>
        simp only [hcriteria, Option.isSome_none, Bool.false_eq_true, if_false] at h
        obtain rfl := Except.ok.inj h
        exact ⟨⟨name, hname, hsum⟩, rfl, trivial⟩
    · next hcount =>
      obtain ⟨criteria, hcriteria, hf⟩ := bind_eq_ok_iff.1 h
      obtain ⟨hpresent, hvisible⟩ := requireVisible_eq_ok_iff.1 hcriteria
      obtain rfl := Except.ok.inj hf
      exact ⟨⟨name, hname, hcount⟩, hpresent, hvisible⟩
    · simp at h
  · rintro ⟨⟨name, hname, hlower⟩, hcriteria, hf⟩
    refine ⟨name, hname, ?_⟩
    cases f with
    | sum => simp_all [AggregateFunction.name, AggregateFunction.criteria?]
    | countIf criteria =>
      rw [hlower]
      refine bind_eq_ok_iff.2 ⟨criteria, requireVisible_eq_ok_iff.2 ⟨hcriteria, hf⟩, rfl⟩

theorem scopeOf_eq_ok_iff {materialId : String} {scope : Scope} :
    r.scopeOf materialId = .ok scope ↔ r.row = scope.row? ∧ r.column = scope.column? := by
  rw [scopeOf]
  cases r.row <;> cases r.column <;> cases scope <;>
    simp [Scope.row?, Scope.column?]

theorem decode_eq_ok_iff_targetOf : r.decode = .ok p ↔ ∃ kind : PointerKind,
    r.kind = kind.name ∧ r.Within kind ∧ r.targetOf kind = .ok p.target ∧
      p.label = ⟨if r.text.isEmpty then p.target.defaultText else r.text, r.payload⟩ := by
  simp only [← ofName?_eq_some_iff, ← foreignField?_eq_none_iff]
  rw [decode]
  cases PointerKind.ofName? r.kind with
  | none => simp
  | some kind =>
    cases hforeign : r.foreignField? kind with
    | some field => simp [hforeign, bind, Except.bind]
    | none =>
      simp only [hforeign, bind_eq_ok_iff]
      constructor
      · rintro ⟨target, htarget, hp⟩
        obtain rfl := Except.ok.inj hp
        exact ⟨kind, rfl, hforeign, htarget, rfl⟩
      · rintro ⟨_, hkind, -, htarget, hlabel⟩
        obtain rfl := Option.some.inj hkind
        refine ⟨p.target, htarget, ?_⟩
        rw [← hlabel]
        rfl

/-- The fields of the target's own kind are what the target holds. -/
def Spells (r : PointerRecord) : Target → Prop
  | .literal text => r.value.map Text.trim = some text
  | .constant uniqueId | .calculation uniqueId => r.uniqueId.map Text.trim = some uniqueId
  | .cell materialId row column =>
    r.materialId.map Text.trim = some materialId ∧ r.row = some row ∧ r.column = some column
  | .aggregate materialId scope function =>
    r.materialId.map Text.trim = some materialId ∧ r.row = scope.row? ∧ r.column = scope.column? ∧
      r.function.map (fun name => Text.lowercase (Text.trim name)) = some function.name ∧
        r.criteria = function.criteria?

theorem targetOf_eq_ok_iff {target : Target} : r.targetOf kind = .ok target ↔
    kind = target.kind ∧ target.WellFormed ∧ r.Spells target := by
  cases kind <;> cases target <;>
    simp only [targetOf, bind_eq_ok_iff, require_eq_ok_iff, literalOf_eq_ok_iff,
      requireText_eq_ok_iff, functionOf_eq_ok_iff, scopeOf_eq_ok_iff, pure, Except.pure,
      Except.ok.injEq, Target.kind, Target.WellFormed, Spells]
  all_goals simp
  all_goals grind

theorem record_eq_normalised_iff {defaultText : String} : p.record = r.normalised defaultText ↔
    r.kind = p.target.kind.name ∧ r.Within p.target.kind ∧ r.Spells p.target ∧
      p.label = ⟨if r.text.isEmpty then defaultText else r.text, r.payload⟩ := by
  obtain ⟨⟨text, payload⟩, target⟩ := p
  rw [Within, PointerField.forall_iff, eq_comm]
  -- both sides list the same ten equations, one for each field of a record
  cases target with
  | aggregate materialId scope function =>
    cases scope <;> cases function <;>
      simp [Pointer.record, bare, normalised, Target.kind, PointerKind.owns, has, Spells,
        Scope.row?, Scope.column?, AggregateFunction.criteria?]
    all_goals grind
  | _ =>
    simp [Pointer.record, bare, normalised, Target.kind, PointerKind.owns, has, Spells]
    grind

/-- A record describes the well-formed pointers whose own record is its normalised form. -/
theorem decode_eq_ok_iff : r.decode = .ok p ↔
    p.target.WellFormed ∧ p.record = r.normalised p.target.defaultText := by
  rw [decode_eq_ok_iff_targetOf, record_eq_normalised_iff]
  simp only [targetOf_eq_ok_iff]
  constructor
  · rintro ⟨kind, hkind, howned, ⟨rfl, hwf, hspells⟩, hlabel⟩
    exact ⟨hwf, hkind, howned, hspells, hlabel⟩
  · rintro ⟨hwf, hkind, howned, hspells, hlabel⟩
    exact ⟨p.target.kind, hkind, howned, ⟨rfl, hwf, hspells⟩, hlabel⟩

end PointerRecord

theorem AggregateFunction.lowercase_name (f : AggregateFunction) :
    Text.lowercase (Text.trim f.name) = f.name := by
  cases f with
  | sum => decide +kernel
  | countIf criteria =>
    change Text.lowercase (Text.trim "countif") = "countif"
    decide +kernel

theorem Target.WellFormed.defaultText_ne_empty {target : Target} (h : target.WellFormed) :
    target.defaultText ≠ "" := by
  cases target with
  | literal text => exact h.1.ne_empty
  | constant uniqueId | calculation uniqueId => exact h.ne_empty
  | cell materialId row column => simp [Target.defaultText, cellAddress]
  | aggregate materialId scope function => simp [Target.defaultText]

namespace Pointer

variable {r : PointerRecord} {p : Pointer}

theorem wellFormed_of_decode (h : r.decode = .ok p) : p.WellFormed := by
  obtain ⟨hwf, hrecord⟩ := PointerRecord.decode_eq_ok_iff.1 h
  obtain ⟨-, -, -, hlabel⟩ := PointerRecord.record_eq_normalised_iff.1 hrecord
  refine ⟨?_, hwf⟩
  rw [hlabel]
  by_cases hempty : r.text = ""
  · simpa [hempty] using hwf.defaultText_ne_empty
  · simp [hempty]

theorem WellFormed.normalised_record (h : p.WellFormed) (defaultText : String) :
    p.record.normalised defaultText = p.record := by
  obtain ⟨⟨text, payload⟩, target⟩ := p
  obtain ⟨htext, htarget⟩ := h
  cases target <;>
    simp_all [Pointer.record, PointerRecord.bare, PointerRecord.normalised, Target.WellFormed,
      Tight.trim_eq, AggregateFunction.lowercase_name]

theorem decode_record_iff : p.record.decode = .ok p ↔ p.WellFormed :=
  ⟨wellFormed_of_decode, fun h =>
    PointerRecord.decode_eq_ok_iff.2 ⟨h.target, (h.normalised_record _).symm⟩⟩

end Pointer

end FormulaLedger
