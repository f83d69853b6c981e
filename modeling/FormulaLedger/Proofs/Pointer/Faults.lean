import FormulaLedger.Proofs.Pointer.Record

set_option autoImplicit false

namespace FormulaLedger

def PointerField.index (field : PointerField) : Nat := PointerField.all.idxOf field

@[grind =]
theorem PointerField.index_eq (field : PointerField) : field.index =
    match field with
    | .value => 0
    | .uniqueId => 1
    | .materialId => 2
    | .row => 3
    | .column => 4
    | .function => 5
    | .criteria => 6 := by
  cases field <;> decide

theorem PointerField.index_lt (field : PointerField) : field.index < 7 := by
  cases field <;> decide

theorem PointerField.index_injective : Function.Injective PointerField.index := by
  intro a b
  cases a <;> cases b <;> decide

theorem PointerKind.name_injective : Function.Injective PointerKind.name := by
  intro a b
  cases a <;> cases b <;> decide

/-- Whether a pointer of the kind is always described by the field. -/
@[grind]
def PointerKind.needs : PointerKind → PointerField → Bool
  | .aggregate, .materialId | .aggregate, .function => true
  | .aggregate, _ => false
  | kind, field => kind.owns field

/-- Where a fault comes in the order in which a record is looked at: its kind, the fields that do
not belong to it, then the fields that do, each for its presence and then for what it says, and last
the two fields of a scope. -/
@[grind]
def PointerError.rank : PointerError → Nat
  | .unknownKind _ => 0
  | .foreign .aggregate .criteria => 9 + 2 * PointerField.criteria.index
  | .foreign _ field => 1 + field.index
  | .missing _ field => 8 + 2 * field.index
  | .badLiteral _ => 9 + 2 * PointerField.value.index
  | .unknownFunction _ => 9 + 2 * PointerField.function.index
  | .ambiguousScope _ => 22

theorem PointerError.rank_lt (e : PointerError) : e.rank < 23 := by
  unfold PointerError.rank
  grind

theorem PointerError.rank_foreign {kind : PointerKind} {field : PointerField}
    (howns : kind.owns field = false) :
    (PointerError.foreign kind field).rank = 1 + field.index := by
  unfold PointerError.rank
  split <;> simp_all [PointerKind.owns]

namespace PointerRecord

def HasOnly (r : PointerRecord) (fields : List PointerField) : Prop :=
  ∀ field, r.has field = true → field ∈ fields

def Visible (value : Option String) : Prop :=
  ∃ text, value = some text ∧ Text.isBlankText text = false

def IsLiteral (value : String) : Prop :=
  Text.trim value ≠ "" ∧ ∀ c ∈ (Text.trim value).toList, c ∈ literalAlphabet

def Names (name function : String) : Prop := Text.lowercase (Text.trim name) = function

/-- The five shapes of a record that describes a pointer. -/
inductive Shaped (r : PointerRecord) : Prop
  | literal {value : String} : r.kind = "literal" → r.HasOnly [.value] → r.value = some value →
      IsLiteral value → Shaped r
  | constant : r.kind = "constant" → r.HasOnly [.uniqueId] → Visible r.uniqueId → Shaped r
  | calculation : r.kind = "calculation" → r.HasOnly [.uniqueId] → Visible r.uniqueId → Shaped r
  | cell : r.kind = "material_cell" → r.HasOnly [.materialId, .row, .column] →
      Visible r.materialId → r.row ≠ none → r.column ≠ none → Shaped r
  | aggregate {name : String} : r.kind = "aggregate" →
      r.HasOnly [.materialId, .row, .column, .function, .criteria] → Visible r.materialId →
      r.function = some name →
      (Names name "sum" ∧ r.criteria = none ∨ Names name "countif" ∧ Visible r.criteria) →
      (r.row = none ∨ r.column = none) → Shaped r

/-- A field is not there, or it is a text that has to be visible and is not. -/
@[grind]
def Lacks (r : PointerRecord) : PointerField → Prop
  | .value => r.value = none
  | .uniqueId => ¬ Visible r.uniqueId
  | .materialId => ¬ Visible r.materialId
  | .row => r.row = none
  | .column => r.column = none
  | .function => r.function = none
  | .criteria => ¬ Visible r.criteria

/-- What is wrong with a record, whatever else is. -/
inductive HasFault (r : PointerRecord) : PointerError → Prop
  | unknownKind : (∀ kind : PointerKind, r.kind ≠ kind.name) → HasFault r (.unknownKind r.kind)
  | foreign {kind : PointerKind} {field : PointerField} : r.kind = kind.name →
      r.has field = true → kind.owns field = false → HasFault r (.foreign kind field)
  | missing {kind : PointerKind} {field : PointerField} : r.kind = kind.name →
      kind.needs field = true → r.Lacks field → HasFault r (.missing kind field)
  | badLiteral {value : String} : r.kind = PointerKind.literal.name → r.value = some value →
      ¬ IsLiteral value → HasFault r (.badLiteral value)
  | unknownFunction {name : String} : r.kind = PointerKind.aggregate.name →
      r.function = some name → ¬ Names name "sum" → ¬ Names name "countif" →
      HasFault r (.unknownFunction name)
  | missingCriteria {name : String} : r.kind = PointerKind.aggregate.name →
      r.function = some name → Names name "countif" → ¬ Visible r.criteria →
      HasFault r (.missing .aggregate .criteria)
  | needlessCriteria {name : String} : r.kind = PointerKind.aggregate.name →
      r.function = some name → Names name "sum" → r.criteria ≠ none →
      HasFault r (.foreign .aggregate .criteria)
  | ambiguousScope {materialId : String} : r.kind = PointerKind.aggregate.name →
      r.materialId = some materialId → r.row ≠ none → r.column ≠ none →
      HasFault r (.ambiguousScope (Text.trim materialId))

section

variable {r : PointerRecord} {kind : PointerKind} {field : PointerField} {e : PointerError}

theorem bind_eq_error_iff {ε α β : Type} {x : Except ε α} {f : α → Except ε β} {e : ε} :
    (x >>= f) = .error e ↔ x = .error e ∨ ∃ a, x = .ok a ∧ f a = .error e := by
  cases x with
  | error e => simp [bind, Except.bind]
  | ok a => simp [bind, Except.bind]

theorem require_eq_error_iff {α : Type} {value : Option α} :
    require kind field value = .error e ↔ value = none ∧ e = .missing kind field := by
  cases value <;> simp [require, eq_comm (a := e)]

theorem requireVisible_eq_error_iff {value : Option String} :
    requireVisible kind field value = .error e ↔ ¬ Visible value ∧ e = .missing kind field := by
  simp only [requireVisible, bind_eq_error_iff, require_eq_error_iff, require_eq_ok_iff, Visible]
  cases value with
  | none => simp
  | some text => cases hblank : Text.isBlankText text <;> simp [hblank, eq_comm (a := e)]

theorem requireText_eq_error_iff {value : Option String} :
    requireText kind field value = .error e ↔ ¬ Visible value ∧ e = .missing kind field := by
  rw [← requireVisible_eq_error_iff, requireText]
  cases requireVisible kind field value <;> simp [Except.map]

theorem isLiteral_iff {value : String} :
    IsLiteral value ↔ (Target.literal (Text.trim value)).WellFormed :=
  and_congr_left' ⟨fun h => ⟨h, Text.trim_trim value⟩, fun h => h.ne_empty⟩

theorem literalOf_eq_error_iff {value : String} :
    literalOf value = .error e ↔ ¬ IsLiteral value ∧ e = .badLiteral value := by
  rw [isLiteral_iff]
  by_cases hwf : (Target.literal (Text.trim value)).WellFormed
  · simp [literalOf_eq_ok_iff.2 ⟨rfl, hwf⟩, hwf]
  · have hrefused : literalOf value ≠ .ok (.literal (Text.trim value)) := fun h =>
      hwf (literalOf_eq_ok_iff.1 h).2
    rw [literalOf] at hrefused ⊢
    split at hrefused <;> simp_all [eq_comm (a := e)]

theorem scopeOf_eq_error_iff {materialId : String} : r.scopeOf materialId = .error e ↔
    r.row ≠ none ∧ r.column ≠ none ∧ e = .ambiguousScope materialId := by
  rw [scopeOf]
  cases r.row <;> cases r.column <;> simp [eq_comm (a := e)]

theorem functionOf_eq_error_iff : r.functionOf = .error e ↔
    (r.function = none ∧ e = .missing .aggregate .function) ∨ ∃ name, r.function = some name ∧
      ((Names name "sum" ∧ r.criteria ≠ none ∧ e = .foreign .aggregate .criteria) ∨
        (Names name "countif" ∧ ¬ Visible r.criteria ∧ e = .missing .aggregate .criteria) ∨
        (¬ Names name "sum" ∧ ¬ Names name "countif" ∧ e = .unknownFunction name)) := by
  simp only [functionOf, bind_eq_error_iff, require_eq_error_iff, require_eq_ok_iff]
  refine or_congr_right (exists_congr fun name => and_congr_right fun _ => ?_)
  split
  · next hsum => cases r.criteria <;> simp [Names, hsum, eq_comm (a := e)]
  · next hcount =>
    simp [Names, hcount, bind_eq_error_iff, requireVisible_eq_error_iff, pure, Except.pure]
  · next hsum hcount =>
    have hsum : ¬ Names name "sum" := hsum
    have hcount : ¬ Names name "countif" := hcount
    simp [hsum, hcount, eq_comm (a := e)]

theorem hasFault_iff (h : r.kind = kind.name) : r.HasFault e ↔
    (∃ field, r.has field = true ∧ kind.owns field = false ∧ e = .foreign kind field) ∨
    (∃ field, kind.needs field = true ∧ r.Lacks field ∧ e = .missing kind field) ∨
    (kind = .literal ∧
      ∃ value, r.value = some value ∧ ¬ IsLiteral value ∧ e = .badLiteral value) ∨
    (kind = .aggregate ∧ ∃ name, r.function = some name ∧
      ((Names name "sum" ∧ r.criteria ≠ none ∧ e = .foreign .aggregate .criteria) ∨
        (Names name "countif" ∧ ¬ Visible r.criteria ∧ e = .missing .aggregate .criteria) ∨
        (¬ Names name "sum" ∧ ¬ Names name "countif" ∧ e = .unknownFunction name))) ∨
    (kind = .aggregate ∧ ∃ materialId, r.materialId = some materialId ∧ r.row ≠ none ∧
      r.column ≠ none ∧ e = .ambiguousScope (Text.trim materialId)) := by
  have hkind (k : PointerKind) : r.kind = k.name ↔ kind = k := by
    rw [h]
    exact PointerKind.name_injective.eq_iff
  constructor
  · intro hfault
    cases hfault with
    | unknownKind hunknown => exact (hunknown kind h).elim
    | foreign hk hhas howns =>
      obtain rfl := (hkind _).1 hk
      exact .inl ⟨_, hhas, howns, rfl⟩
    | missing hk hneeds hlacks =>
      obtain rfl := (hkind _).1 hk
      exact .inr (.inl ⟨_, hneeds, hlacks, rfl⟩)
    | badLiteral hk hvalue hbad => exact .inr (.inr (.inl ⟨(hkind _).1 hk, _, hvalue, hbad, rfl⟩))
    | unknownFunction hk hfunction hsum hcount =>
      exact .inr (.inr (.inr (.inl
        ⟨(hkind _).1 hk, _, hfunction, .inr (.inr ⟨hsum, hcount, rfl⟩)⟩)))
    | missingCriteria hk hfunction hcount hcriteria =>
      exact .inr (.inr (.inr (.inl
        ⟨(hkind _).1 hk, _, hfunction, .inr (.inl ⟨hcount, hcriteria, rfl⟩)⟩)))
    | needlessCriteria hk hfunction hsum hcriteria =>
      exact .inr (.inr (.inr (.inl ⟨(hkind _).1 hk, _, hfunction, .inl ⟨hsum, hcriteria, rfl⟩⟩)))
    | ambiguousScope hk hmaterial hrow hcolumn =>
      exact .inr (.inr (.inr (.inr ⟨(hkind _).1 hk, _, hmaterial, hrow, hcolumn, rfl⟩)))
  · rintro (⟨field, hhas, howns, rfl⟩ | ⟨field, hneeds, hlacks, rfl⟩ |
      ⟨rfl, value, hvalue, hbad, rfl⟩ | ⟨rfl, name, hfunction, ⟨hsum, hcriteria, rfl⟩ |
        ⟨hcount, hcriteria, rfl⟩ | ⟨hsum, hcount, rfl⟩⟩ |
      ⟨rfl, materialId, hmaterial, hrow, hcolumn, rfl⟩)
    · exact .foreign h hhas howns
    · exact .missing h hneeds hlacks
    · exact .badLiteral h hvalue hbad
    · exact .needlessCriteria h hfunction hsum hcriteria
    · exact .missingCriteria h hfunction hcount hcriteria
    · exact .unknownFunction h hfunction hsum hcount
    · exact .ambiguousScope h hmaterial hrow hcolumn

/-- Only what is wrong with the fields of other kinds comes before what is wrong with its own. -/
theorem HasFault.foreign_or_le_rank (h : r.kind = kind.name) (he : r.HasFault e) :
    (∃ field, r.has field = true ∧ kind.owns field = false ∧ e = .foreign kind field) ∨
      8 ≤ e.rank := by
  refine ((hasFault_iff h).1 he).imp_right ?_
  rintro (⟨field, -, -, rfl⟩ | ⟨-, value, -, -, rfl⟩ |
    ⟨-, name, -, ⟨-, -, rfl⟩ | ⟨-, -, rfl⟩ | ⟨-, -, rfl⟩⟩ | ⟨-, materialId, -, -, -, rfl⟩) <;>
    simp only [PointerError.rank] <;> omega

theorem index_le_of_foreignField? {other : PointerField} (h : r.foreignField? kind = some field)
    (hhas : r.has other = true) (howns : kind.owns other = false) :
    field.index ≤ other.index := by
  obtain ⟨-, before, after, hall, hbefore⟩ := List.find?_eq_some_iff_append.1 h
  have hother : other ∉ before := fun hmem => by simpa [hhas, howns] using hbefore other hmem
  rw [PointerField.index, PointerField.index, hall, List.idxOf_append_of_notMem hother]
  by_cases hfield : field ∈ before
  · rw [List.idxOf_append_of_mem hfield]
    have hlt := List.idxOf_lt_length_iff.2 hfield
    omega
  · rw [List.idxOf_append_of_notMem hfield, List.idxOf_cons_self]
    omega

theorem decode_of_unknown (h : ∀ kind : PointerKind, r.kind ≠ kind.name) :
    r.decode = .error (.unknownKind r.kind) := by
  have hnone : PointerKind.ofName? r.kind = none :=
    Option.eq_none_iff_forall_ne_some.2 fun kind hkind => h kind (ofName?_eq_some_iff.1 hkind)
  rw [decode, hnone]

theorem decode_of_foreign (h : r.kind = kind.name) (hforeign : r.foreignField? kind = some field) :
    r.decode = .error (.foreign kind field) := by
  rw [decode, ofName?_eq_some_iff.2 h]
  simp only [hforeign]
  rfl

theorem decode_of_owned (h : r.kind = kind.name) (hforeign : r.foreignField? kind = none) :
    r.decode = r.targetOf kind >>= fun target =>
      .ok ⟨⟨if r.text.isEmpty then target.defaultText else r.text, r.payload⟩, target⟩ := by
  rw [decode, ofName?_eq_some_iff.2 h]
  simp only [hforeign]
  rfl

end

/-- Of the faults with ranks from `low` on and below `high`, a check finds the first. -/
structure Finds (r : PointerRecord) (low high : Nat) {α : Type} (x : Except PointerError α) :
    Prop where
  clear : ∀ a, x = .ok a → ∀ e, r.HasFault e → low ≤ e.rank → high ≤ e.rank
  fault : ∀ e, x = .error e → r.HasFault e ∧ low ≤ e.rank ∧ e.rank < high
  first : ∀ e, x = .error e → ∀ e', r.HasFault e' → low ≤ e'.rank → e' = e ∨ e.rank < e'.rank

section

variable {r : PointerRecord} {α β : Type} {low mid high : Nat}

theorem Finds.bind {x : Except PointerError α} {f : α → Except PointerError β}
    (hx : r.Finds low mid x) (hlow : low ≤ mid) (hhigh : mid ≤ high)
    (hf : ∀ a, x = .ok a → r.Finds mid high (f a)) : r.Finds low high (x >>= f) := by
  cases x with
  | error e =>
    refine ⟨fun a h => by contradiction, fun e' h => ?_, fun e' h => ?_⟩
    · obtain rfl := Except.error.inj h
      obtain ⟨hfault, hle, hlt⟩ := hx.fault e rfl
      exact ⟨hfault, hle, by omega⟩
    · obtain rfl := Except.error.inj h
      exact hx.first e rfl
  | ok a =>
    have hnext := hf a rfl
    have hclear := hx.clear a rfl
    refine ⟨fun b h e he hle => hnext.clear b h e he (hclear e he hle), fun e h => ?_,
      fun e h e' he' hle => hnext.first e h e' he' (hclear e' he' hle)⟩
    obtain ⟨hfault, hle, hlt⟩ := hnext.fault e h
    exact ⟨hfault, by omega, hlt⟩

theorem finds_of_iff {x : Except PointerError α}
    (h : ∀ e, x = .error e ↔ r.HasFault e ∧ low ≤ e.rank ∧ e.rank < high) :
    r.Finds low high x := by
  refine ⟨fun a hx e he hle => ?_, fun e hx => (h e).1 hx, fun e hx e' he' hle => ?_⟩
  · by_contra hlt
    have herror := (h e).2 ⟨he, hle, by omega⟩
    rw [hx] at herror
    contradiction
  · obtain ⟨_, _, hlt⟩ := (h e).1 hx
    by_cases hlt' : e'.rank < high
    · have herror := (h e').2 ⟨he', hle, hlt'⟩
      rw [hx] at herror
      exact .inl (Except.error.inj herror).symm
    · exact .inr (by omega)

theorem finds_ok {a : α} (h : ∀ e, r.HasFault e → low ≤ e.rank → high ≤ e.rank) :
    r.Finds low high (.ok a) :=
  ⟨fun _ _ => h, fun e h => by contradiction, fun e h => by contradiction⟩

theorem finds_error {e : PointerError} (hfault : r.HasFault e) (hlow : low ≤ e.rank)
    (hhigh : e.rank < high) (hfirst : ∀ e', r.HasFault e' → e' = e ∨ e.rank < e'.rank) :
    r.Finds low high (.error e : Except PointerError α) := by
  refine ⟨fun a h => by contradiction, fun e' h => ?_, fun e' h => ?_⟩
  · obtain rfl := Except.error.inj h
    exact ⟨hfault, hlow, hhigh⟩
  · obtain rfl := Except.error.inj h
    exact fun e' he' _ => hfirst e' he'

theorem Finds.from_lower {x : Except PointerError α} (hx : r.Finds mid high x) (hle : low ≤ mid)
    (hrank : ∀ e, r.HasFault e → mid ≤ e.rank) : r.Finds low high x := by
  refine ⟨fun a h e he _ => hx.clear a h e he (hrank e he), fun e h => ?_,
    fun e h e' he' _ => hx.first e h e' he' (hrank e' he')⟩
  obtain ⟨hfault, hlow, hhigh⟩ := hx.fault e h
  exact ⟨hfault, hle.trans hlow, hhigh⟩

end

variable {r : PointerRecord} {kind : PointerKind}

theorem finds_literal (h : r.kind = PointerKind.literal.name) :
    r.Finds 8 23 (r.targetOf .literal) := by
  refine Finds.bind (finds_of_iff fun e => ?_ : r.Finds 8 9 _) (by decide) (by decide)
    fun value hvalue => finds_of_iff fun e => ?_
  · rw [require_eq_error_iff, hasFault_iff h, PointerField.exists_iff, PointerField.exists_iff]
    grind [PointerKind.owns]
  · rw [require_eq_ok_iff] at hvalue
    rw [literalOf_eq_error_iff, hasFault_iff h, PointerField.exists_iff, PointerField.exists_iff]
    grind [PointerKind.owns]

theorem finds_uniqueId (h : r.kind = kind.name)
    (hkind : kind = .constant ∨ kind = .calculation) :
    r.Finds 8 23 (requireText kind .uniqueId r.uniqueId) := by
  refine finds_of_iff fun e => ?_
  rw [requireText_eq_error_iff, hasFault_iff h, PointerField.exists_iff, PointerField.exists_iff]
  grind [PointerKind.owns]

theorem finds_cell (h : r.kind = PointerKind.cell.name) : r.Finds 8 23 (r.targetOf .cell) := by
  refine Finds.bind (finds_of_iff fun e => ?_ : r.Finds 8 13 _) (by decide) (by decide)
    fun materialId _ => Finds.bind (finds_of_iff fun e => ?_ : r.Finds 13 15 _) (by decide)
      (by decide) fun row _ => Finds.bind (finds_of_iff fun e => ?_ : r.Finds 15 23 _) (by decide)
        (by decide) fun column _ => finds_ok fun e _ he => he
  · rw [requireText_eq_error_iff, hasFault_iff h, PointerField.exists_iff, PointerField.exists_iff]
    grind [PointerKind.owns]
  · rw [require_eq_error_iff, hasFault_iff h, PointerField.exists_iff, PointerField.exists_iff]
    grind [PointerKind.owns]
  · rw [require_eq_error_iff, hasFault_iff h, PointerField.exists_iff, PointerField.exists_iff]
    grind [PointerKind.owns]

theorem finds_functionOf (h : r.kind = PointerKind.aggregate.name) :
    r.Finds 14 22 r.functionOf := by
  refine finds_of_iff fun e => functionOf_eq_error_iff.trans ⟨?_, ?_⟩
  · rintro (⟨hnone, rfl⟩ | ⟨name, hname, ⟨hsum, hcriteria, rfl⟩ | ⟨hcount, hcriteria, rfl⟩ |
      ⟨hsum, hcount, rfl⟩⟩)
    · exact ⟨.missing h rfl hnone, by decide⟩
    · exact ⟨.needlessCriteria h hname hsum hcriteria, by decide⟩
    · exact ⟨.missingCriteria h hname hcount hcriteria, by decide⟩
    · exact ⟨.unknownFunction h hname hsum hcount, by grind⟩
  · rw [hasFault_iff h, PointerField.exists_iff, PointerField.exists_iff]
    grind [PointerKind.owns]

theorem finds_aggregate (h : r.kind = PointerKind.aggregate.name) :
    r.Finds 8 23 (r.targetOf .aggregate) := by
  refine Finds.bind (finds_of_iff fun e => ?_ : r.Finds 8 14 _) (by decide) (by decide)
    fun materialId hmaterialId => (finds_functionOf h).bind (by decide) (by decide)
      fun function _ => Finds.bind (finds_of_iff fun e => ?_ : r.Finds 22 23 _) (by decide)
        (by decide) fun scope _ => finds_ok fun e _ he => he
  · rw [requireText_eq_error_iff, hasFault_iff h, PointerField.exists_iff, PointerField.exists_iff]
    grind [PointerKind.owns]
  · obtain ⟨⟨given, hgiven, rfl⟩, -⟩ := by simpa [requireText_eq_ok_iff] using hmaterialId
    rw [scopeOf_eq_error_iff, hasFault_iff h, PointerField.exists_iff, PointerField.exists_iff,
      hgiven]
    grind [PointerKind.owns]

theorem finds_targetOf (h : r.kind = kind.name) : r.Finds 8 23 (r.targetOf kind) := by
  cases kind with
  | literal => exact finds_literal h
  | constant =>
    exact (finds_uniqueId h (.inl rfl)).bind (by decide) le_rfl fun _ _ => finds_ok fun e _ he => he
  | calculation =>
    exact (finds_uniqueId h (.inr rfl)).bind (by decide) le_rfl fun _ _ => finds_ok fun e _ he => he
  | cell => exact finds_cell h
  | aggregate => exact finds_aggregate h

/-- Reading a record finds the first of its faults. -/
theorem finds_decode (r : PointerRecord) : r.Finds 0 23 r.decode := by
  by_cases hkind : ∃ kind : PointerKind, r.kind = kind.name
  · obtain ⟨kind, h⟩ := hkind
    cases hforeign : r.foreignField? kind with
    | some field =>
      have hfield := List.find?_some hforeign
      simp only [Bool.and_eq_true, Bool.not_eq_true'] at hfield
      obtain ⟨howns, hhas⟩ := hfield
      rw [decode_of_foreign h hforeign]
      -- the fields of other kinds are looked at first and in order, so none of them comes before
      refine finds_error (.foreign h hhas howns) (Nat.zero_le _) (PointerError.rank_lt _)
        fun e he => ?_
      rw [PointerError.rank_foreign howns]
      have hlt := field.index_lt
      obtain ⟨other, hother, hothers, rfl⟩ | hle := he.foreign_or_le_rank h
      · have hle := index_le_of_foreignField? hforeign hother hothers
        rw [PointerError.rank_foreign hothers]
        by_cases heq : other = field
        · exact .inl (by rw [heq])
        · have hne := mt (@PointerField.index_injective other field) heq
          exact .inr (by omega)
      · exact .inr (by omega)
    | none =>
      have howned := foreignField?_eq_none_iff.1 hforeign
      rw [decode_of_owned h hforeign]
      -- there is no field of another kind, so the ranks below 8 stand empty
      refine ((finds_targetOf h).bind (by decide) le_rfl
        fun _ _ => finds_ok fun e _ he => he).from_lower (by decide) fun e he => ?_
      refine (he.foreign_or_le_rank h).resolve_left ?_
      rintro ⟨field, hhas, howns, -⟩
      simp [howned field hhas] at howns
  · push Not at hkind
    rw [decode_of_unknown hkind]
    refine finds_error (.unknownKind hkind) (Nat.zero_le _) (PointerError.rank_lt _) fun e he => ?_
    cases he with
    | unknownKind => exact .inl rfl
    | foreign h | missing h | badLiteral h | unknownFunction h | missingCriteria h
    | needlessCriteria h | ambiguousScope h => exact (hkind _ h).elim

theorem decode_eq_error_iff {e : PointerError} : r.decode = .error e ↔
    r.HasFault e ∧ ∀ e', r.HasFault e' → e' = e ∨ e.rank < e'.rank := by
  obtain ⟨hclear, hfault, hfirst⟩ := finds_decode r
  constructor
  · intro h
    exact ⟨(hfault e h).1, fun e' he' => hfirst e h e' he' (Nat.zero_le _)⟩
  · rintro ⟨he, hleast⟩
    cases hdecode : r.decode with
    | ok p =>
      have hle := hclear p hdecode e he (Nat.zero_le _)
      exact absurd e.rank_lt (by omega)
    | error e₀ =>
      obtain rfl | hlt := hleast e₀ (hfault e₀ hdecode).1
      · rfl
      · obtain rfl | hlt' := hfirst e₀ hdecode e he (Nat.zero_le _)
        · rfl
        · omega

theorem visible_iff {value : Option String} :
    Visible value ↔ ∃ text, value.map Text.trim = some text ∧ Text.Tight text := by
  constructor
  · rintro ⟨text, rfl, hvisible⟩
    exact ⟨Text.trim text, rfl, Text.tight_trim hvisible⟩
  · rintro ⟨text, hmap, htight⟩
    obtain ⟨given, rfl, rfl⟩ := Option.map_eq_some_iff.1 hmap
    exact ⟨given, rfl, htight.not_blank⟩

theorem exists_decode_iff : (∃ p, r.decode = .ok p) ↔ ∃ target : Target,
    r.kind = target.kind.name ∧ r.Within target.kind ∧ target.WellFormed ∧ r.Spells target := by
  simp only [decode_eq_ok_iff_targetOf, targetOf_eq_ok_iff]
  constructor
  · rintro ⟨p, kind, hkind, hwithin, ⟨rfl, hwf, hspells⟩, -⟩
    exact ⟨p.target, hkind, hwithin, hwf, hspells⟩
  · rintro ⟨target, hkind, hwithin, hwf, hspells⟩
    exact ⟨⟨⟨if r.text.isEmpty then target.defaultText else r.text, r.payload⟩, target⟩, _, hkind,
      hwithin, ⟨rfl, hwf, hspells⟩, rfl⟩

theorem within_iff_hasOnly : r.Within kind ↔ r.HasOnly (PointerField.all.filter kind.owns) := by
  have hall (field : PointerField) : field ∈ PointerField.all := by cases field <;> decide
  simp [Within, HasOnly, hall]

theorem exists_decode_iff_shaped : (∃ p, r.decode = .ok p) ↔ r.Shaped := by
  rw [exists_decode_iff]
  constructor
  · rintro ⟨target, hkind, hwithin, hwf, hspells⟩
    rw [within_iff_hasOnly] at hwithin
    cases target with
    | literal text =>
      obtain ⟨value, hvalue, rfl⟩ := Option.map_eq_some_iff.1 hspells
      exact .literal hkind hwithin hvalue (isLiteral_iff.2 hwf)
    | constant uniqueId => exact .constant hkind hwithin (visible_iff.2 ⟨uniqueId, hspells, hwf⟩)
    | calculation uniqueId =>
      exact .calculation hkind hwithin (visible_iff.2 ⟨uniqueId, hspells, hwf⟩)
    | cell materialId row column =>
      obtain ⟨hmaterialId, hrow, hcolumn⟩ := hspells
      exact .cell hkind hwithin (visible_iff.2 ⟨materialId, hmaterialId, hwf⟩) (by simp [hrow])
        (by simp [hcolumn])
    | aggregate materialId scope function =>
      obtain ⟨hmaterialId, hrow, hcolumn, hfunction, hcriteria⟩ := hspells
      obtain ⟨name, hname, hnames⟩ := Option.map_eq_some_iff.1 hfunction
      have hscope : r.row = none ∨ r.column = none := by
        rw [hrow, hcolumn]
        cases scope <;> simp [Scope.row?, Scope.column?]
      refine .aggregate hkind hwithin (visible_iff.2 ⟨materialId, hmaterialId, hwf.1⟩) hname ?_
        hscope
      cases function with
      | sum => exact .inl ⟨hnames, hcriteria⟩
      | countIf criteria => exact .inr ⟨hnames, criteria, hcriteria, hwf.2⟩
  · intro h
    cases h with
    | @literal value hkind hfields hvalue hliteral =>
      exact ⟨.literal (Text.trim value), hkind, within_iff_hasOnly.2 hfields,
        isLiteral_iff.1 hliteral, by simp [Spells, hvalue]⟩
    | constant hkind hfields huniqueId =>
      obtain ⟨uniqueId, hspells, htight⟩ := visible_iff.1 huniqueId
      exact ⟨.constant uniqueId, hkind, within_iff_hasOnly.2 hfields, htight, hspells⟩
    | calculation hkind hfields huniqueId =>
      obtain ⟨uniqueId, hspells, htight⟩ := visible_iff.1 huniqueId
      exact ⟨.calculation uniqueId, hkind, within_iff_hasOnly.2 hfields, htight, hspells⟩
    | cell hkind hfields hmaterialId hrow hcolumn =>
      obtain ⟨materialId, hspells, htight⟩ := visible_iff.1 hmaterialId
      obtain ⟨row, hrow⟩ := Option.ne_none_iff_exists'.1 hrow
      obtain ⟨column, hcolumn⟩ := Option.ne_none_iff_exists'.1 hcolumn
      exact ⟨.cell materialId row column, hkind, within_iff_hasOnly.2 hfields, htight, hspells,
        hrow, hcolumn⟩
    | @aggregate name hkind hfields hmaterialId hname hcriteria hscope =>
      obtain ⟨materialId, hspells, htight⟩ := visible_iff.1 hmaterialId
      obtain ⟨scope, hrow, hcolumn⟩ : ∃ scope : Scope, r.row = scope.row? ∧
          r.column = scope.column? := by
        cases hrow : r.row <;> cases hcolumn : r.column
        · exact ⟨.sheet, rfl, rfl⟩
        · exact ⟨.column _, rfl, rfl⟩
        · exact ⟨.row _, rfl, rfl⟩
        · simp [hrow, hcolumn] at hscope
      obtain ⟨hnames, hnone⟩ | ⟨hnames, criteria, hsome, hvisible⟩ := hcriteria
      · exact ⟨.aggregate materialId scope .sum, hkind, within_iff_hasOnly.2 hfields,
          ⟨htight, trivial⟩, hspells, hrow, hcolumn, Option.map_eq_some_iff.2 ⟨name, hname, hnames⟩,
          hnone⟩
      · exact ⟨.aggregate materialId scope (.countIf criteria), hkind, within_iff_hasOnly.2 hfields,
          ⟨htight, hvisible⟩, hspells, hrow, hcolumn,
          Option.map_eq_some_iff.2 ⟨name, hname, hnames⟩, hsome⟩

end PointerRecord

/-! ### Lists of records -/

section

variable {rs : List PointerRecord} {ps : List Pointer} {n i : Nat} {e : PointerError}

theorem decodeFrom_eq_ok_iff : decodeFrom n rs = .ok ps ↔
    rs.map PointerRecord.decode = ps.map .ok := by
  induction rs generalizing n ps with
  | nil => simp [decodeFrom, eq_comm]
  | cons r rs ih =>
    rw [decodeFrom, List.map_cons]
    cases hdecode : r.decode with
    | error e => cases ps <;> simp
    | ok p =>
      cases ps with
      | nil => cases decodeFrom (n + 1) rs <;> simp [Except.map]
      | cons q qs =>
        rw [List.map_cons, List.cons.injEq, ← ih (n := n + 1)]
        cases decodeFrom (n + 1) rs <;> simp [Except.map]

theorem decodeFrom_eq_error_iff : decodeFrom n rs = .error (i, e) ↔
    ∃ before r after, rs = before ++ r :: after ∧ n + before.length = i ∧ r.decode = .error e ∧
      ∀ r ∈ before, ∃ p, r.decode = .ok p := by
  induction rs generalizing n with
  | nil => simp [decodeFrom]
  | cons r rs ih =>
    rw [decodeFrom]
    cases hdecode : r.decode with
    | error e' =>
      constructor
      · intro h
        obtain ⟨rfl, rfl⟩ := Prod.mk.inj (Except.error.inj h)
        exact ⟨[], r, rs, rfl, rfl, hdecode, by simp⟩
      · rintro ⟨_ | ⟨first, before⟩, r', after, hrs, rfl, herror, hbefore⟩
        · obtain ⟨rfl, rfl⟩ := List.cons.inj hrs
          rw [hdecode] at herror
          rw [Except.error.inj herror]
          rfl
        · obtain ⟨rfl, rfl⟩ := List.cons.inj hrs
          obtain ⟨p, hp⟩ := hbefore r (by simp)
          rw [hdecode] at hp
          contradiction
    | ok p =>
      have hrest : (decodeFrom (n + 1) rs).map (p :: ·) = .error (i, e) ↔
          decodeFrom (n + 1) rs = .error (i, e) := by
        cases decodeFrom (n + 1) rs <;> simp [Except.map]
      refine hrest.trans (ih.trans ⟨?_, ?_⟩)
      · rintro ⟨before, r', after, rfl, rfl, herror, hbefore⟩
        refine ⟨r :: before, r', after, rfl, by simp; omega, herror, ?_⟩
        simpa [hdecode] using hbefore
      · rintro ⟨_ | ⟨first, before⟩, r', after, hrs, rfl, herror, hbefore⟩
        · obtain ⟨rfl, rfl⟩ := List.cons.inj hrs
          rw [hdecode] at herror
          contradiction
        · obtain ⟨rfl, rfl⟩ := List.cons.inj hrs
          exact ⟨before, r', after, rfl, by simp; omega, herror,
            fun r hr => hbefore r (List.mem_cons_of_mem _ hr)⟩

end

/-- A record is read exactly if it has one of the five shapes, and otherwise it is refused for the
first of its faults. A list of records is read exactly if each of them is, and otherwise the first
that is not is named with its own fault. -/
theorem decode_exact :
    (∀ r : PointerRecord, (∃ p, r.decode = .ok p) ↔ r.Shaped) ∧
    (∀ (r : PointerRecord) (e : PointerError), r.decode = .error e ↔
      r.HasFault e ∧ ∀ e', r.HasFault e' → e' = e ∨ e.rank < e'.rank) ∧
    (∀ (rs : List PointerRecord) (ps : List Pointer), decodeExpression rs = .ok ps ↔
      rs.map PointerRecord.decode = ps.map .ok) ∧
    (∀ rs : List PointerRecord, (∃ ps, decodeExpression rs = .ok ps) ↔ ∀ r ∈ rs, r.Shaped) ∧
    (∀ (rs : List PointerRecord) (i : Nat) (e : PointerError),
      decodeExpression rs = .error (i, e) ↔ ∃ before r after, rs = before ++ r :: after ∧
        before.length = i ∧ r.decode = .error e ∧ ∀ r ∈ before, ∃ p, r.decode = .ok p) := by
  refine ⟨fun r => r.exists_decode_iff_shaped, fun r e => r.decode_eq_error_iff,
    fun rs ps => decodeFrom_eq_ok_iff, fun rs => ?_, fun rs i e => ?_⟩
  · constructor
    · rintro ⟨ps, hps⟩ r hr
      have hdecoded : r.decode ∈ ps.map .ok := decodeFrom_eq_ok_iff.1 hps ▸ List.mem_map_of_mem hr
      obtain ⟨p, -, hp⟩ := List.mem_map.1 hdecoded
      exact r.exists_decode_iff_shaped.1 ⟨p, hp.symm⟩
    · intro hshaped
      cases hdecode : decodeExpression rs with
      | ok ps => exact ⟨ps, rfl⟩
      | error failure =>
        obtain ⟨before, r, after, rfl, -, herror, -⟩ := decodeFrom_eq_error_iff.1 hdecode
        obtain ⟨p, hp⟩ := r.exists_decode_iff_shaped.2 (hshaped r (by simp))
        rw [herror] at hp
        contradiction
  · simp only [decodeExpression, decodeFrom_eq_error_iff, Nat.zero_add]

/-- After a literal and a sum in capitals comes an aggregate over a cell of no sheet, whose function
has no such name. -/
theorem decode_exact_several_faults :
    let literal := { PointerRecord.bare "literal" with value := some " (1+2) " }
    let total := { PointerRecord.bare "aggregate" with
      materialId := some "sales", row := some 2, function := some " SUM " }
    let aggregate := { PointerRecord.bare "aggregate" with
      materialId := some " ", row := some 0, column := some 0, function := some "Avg" }
    literal.Shaped ∧ total.Shaped ∧ aggregate.HasFault (.unknownFunction "Avg") ∧
      decodeExpression [literal, total, aggregate] =
        .error (2, .missing .aggregate .materialId) := by
  intro literal total aggregate
  have hliteral : ∃ p, literal.decode = .ok p :=
    ⟨⟨.plain "(1+2)", .literal "(1+2)"⟩, by decide +kernel⟩
  have hshaped : total.Shaped := by
    have hname : PointerRecord.Names " SUM " "sum" := by
      unfold PointerRecord.Names
      decide +kernel
    have honly : total.HasOnly [.materialId, .row, .column, .function, .criteria] := by
      intro field
      cases field <;> decide
    have hvisible : PointerRecord.Visible total.materialId := ⟨"sales", rfl, by decide⟩
    exact .aggregate rfl honly hvisible rfl (.inl ⟨hname, rfl⟩) (.inr rfl)
  have htotal : ∃ p, total.decode = .ok p := (decode_exact.1 _).2 hshaped
  have hfault : aggregate.HasFault (.unknownFunction "Avg") := by
    refine .unknownFunction rfl rfl ?_ ?_
    · unfold PointerRecord.Names
      decide +kernel
    · unfold PointerRecord.Names
      decide +kernel
  refine ⟨(decode_exact.1 _).1 hliteral, hshaped, hfault, (decode_exact.2.2.2.2 _ _ _).2
    ⟨[literal, total], aggregate, [], rfl, rfl, by decide +kernel, ?_⟩⟩
  simpa only [List.forall_mem_cons, List.not_mem_nil, false_implies, implies_true, and_true]
    using And.intro hliteral htotal

end FormulaLedger
