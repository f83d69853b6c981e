import FormulaLedger.Proofs.Json.Scalar

/-!
Documents in a JSON text. A layout says what space stands before the items and behind the colons;
the text on one line and the indented one are two layouts. A document that is written in any layout
is read back as it was.
-/

set_option autoImplicit false

namespace FormulaLedger.Json

mutual

def Writable : Json → Prop
  | .number n => n.WellFormed
  | .string s => s.isSome = true
  | .array items => ItemsWritable items
  | .object fields => FieldsWritable fields
  | _ => True

def ItemsWritable : List Json → Prop
  | [] => True
  | item :: items => item.Writable ∧ ItemsWritable items

def FieldsWritable : List (Option String × Json) → Prop
  | [] => True
  | (name, value) :: fields => name.isSome = true ∧ value.Writable ∧ FieldsWritable fields

end

/-- Where space stands between the tokens of a text. -/
structure Layout where
  /-- What stands before an item and before a closing bracket inside so many containers. -/
  gap : Nat → List Char
  afterColon : List Char
  gap_space : ∀ n, ∀ c ∈ gap n, isSpace c = true
  afterColon_space : ∀ c ∈ afterColon, isSpace c = true

namespace Layout

def line : Layout := ⟨fun _ => [], [], by simp, by simp⟩

def indented : Layout where
  gap := newline
  afterColon := [' ']
  gap_space := by simp [newline, isSpace]
  afterColon_space := by simp [isSpace]

@[simp] theorem gap_line (n : Nat) : line.gap n = [] := rfl

@[simp] theorem afterColon_line : line.afterColon = [] := rfl

@[simp] theorem gap_indented (n : Nat) : indented.gap n = newline n := rfl

@[simp] theorem afterColon_indented : indented.afterColon = [' '] := rfl

end Layout

mutual

def written (l : Layout) (indent : Nat) : Json → List Char
  | .array (item :: items) =>
    '[' :: l.gap (indent + 1) ++ (item.written l (indent + 1) ++ writtenItems l indent items)
  | .object ((name, value) :: fields) =>
    '{' :: l.gap (indent + 1) ++ (quoted? name ++ ':' :: l.afterColon ++
      (value.written l (indent + 1) ++ writtenFields l indent fields))
  | scalar => scalar.compactChars

def writtenItems (l : Layout) (indent : Nat) : List Json → List Char
  | [] => l.gap indent ++ [']']
  | item :: items =>
    ',' :: l.gap (indent + 1) ++ (item.written l (indent + 1) ++ writtenItems l indent items)

def writtenFields (l : Layout) (indent : Nat) : List (Option String × Json) → List Char
  | [] => l.gap indent ++ ['}']
  | (name, value) :: fields =>
    ',' :: l.gap (indent + 1) ++ (quoted? name ++ ':' :: l.afterColon ++
      (value.written l (indent + 1) ++ writtenFields l indent fields))

end

mutual

theorem written_line (n : Nat) : ∀ j : Json, j.written .line n = j.compactChars
  | .array (item :: items) => by
    simp [written, compactChars, written_line (n + 1) item, writtenItems_line n items]
  | .object ((name, value) :: fields) => by
    simp [written, compactChars, written_line (n + 1) value, writtenFields_line n fields]
  | .array [] | .object [] | .null | .bool _ | .number _ | .string _ => by simp [written]

theorem writtenItems_line (n : Nat) : ∀ items, writtenItems .line n items = compactItems items
  | [] => by simp [writtenItems, compactItems]
  | item :: items => by
    simp [writtenItems, compactItems, written_line (n + 1) item, writtenItems_line n items]

theorem writtenFields_line (n : Nat) : ∀ fields, writtenFields .line n fields = compactFields fields
  | [] => by simp [writtenFields, compactFields]
  | (name, value) :: fields => by
    simp [writtenFields, compactFields, written_line (n + 1) value, writtenFields_line n fields]

end

mutual

theorem written_indented (n : Nat) : ∀ j : Json, j.written .indented n = j.prettyChars n
  | .array (item :: items) => by
    simp [written, prettyChars, written_indented (n + 1) item, writtenItems_indented n items]
  | .object ((name, value) :: fields) => by
    simp [written, prettyChars, written_indented (n + 1) value, writtenFields_indented n fields]
  | .array [] | .object [] | .null | .bool _ | .number _ | .string _ => by
    simp [written, prettyChars]

theorem writtenItems_indented (n : Nat) :
    ∀ items, writtenItems .indented n items = prettyItems n items
  | [] => by simp [writtenItems, prettyItems]
  | item :: items => by
    simp [writtenItems, prettyItems, written_indented (n + 1) item, writtenItems_indented n items]

theorem writtenFields_indented (n : Nat) :
    ∀ fields, writtenFields .indented n fields = prettyFields n fields
  | [] => by simp [writtenFields, prettyFields]
  | (name, value) :: fields => by
    simp [writtenFields, prettyFields, written_indented (n + 1) value,
      writtenFields_indented n fields]

end

variable {l : Layout}

theorem skipSpace_append {space : List Char} (h : ∀ c ∈ space, isSpace c = true) (rest : List Char)
    (hrest : ∀ c ∈ rest.head?, isSpace c = false) : skipSpace (space ++ rest) = rest :=
  Text.dropWhile_run h hrest

theorem skipSpace_cons {c : Char} (hc : isSpace c = false) (cs : List Char) :
    skipSpace (c :: cs) = c :: cs :=
  skipSpace_append (List.forall_mem_nil _) (c :: cs) (by simp [hc])

theorem isNumeralChar_of_isSpace {c : Char} (h : isSpace c = true) : isNumeralChar c = false := by
  simp only [isSpace, Bool.or_eq_true, beq_iff_eq] at h
  rcases h with ((rfl | rfl) | rfl) | rfl <;> decide

theorem ends_append {space rest : List Char} (h : ∀ c ∈ space, isSpace c = true)
    (hrest : Ends rest) : Ends (space ++ rest) := by
  cases space with
  | nil => exact hrest
  | cons c cs => simp [isNumeralChar_of_isSpace (h c List.mem_cons_self)]

theorem exists_head_written (n : Nat) {j : Json} (hj : j.Writable) :
    ∃ c cs, j.written l n = c :: cs ∧ isSpace c = false ∧ c ≠ ']' := by
  cases j with
  | null => exact ⟨'n', _, rfl, by decide, by decide⟩
  | bool b => cases b <;> exact ⟨_, _, rfl, by decide, by decide⟩
  | number m =>
    rw [Writable] at hj
    obtain ⟨c, cs, hchars, hc⟩ := m.exists_head hj
    refine ⟨c, cs, by simp [written, compactChars, hchars], ?_, ?_⟩
    · rcases hc with rfl | hdigit
      · decide
      · rw [Bool.eq_false_iff]
        intro hspace
        have hnot := isNumeralChar_of_isSpace hspace
        simp [isNumeralChar, hdigit] at hnot
    · rintro rfl
      rcases hc with h | h <;> contradiction
  | string s => exact ⟨'"', _, rfl, by decide, by decide⟩
  | array items =>
    cases items with
    | nil => exact ⟨'[', _, rfl, by decide, by decide⟩
    | cons item items => exact ⟨'[', _, rfl, by decide, by decide⟩
  | object fields =>
    cases fields with
    | nil => exact ⟨'{', _, rfl, by decide, by decide⟩
    | cons field fields => exact ⟨'{', _, rfl, by decide, by decide⟩

theorem head?_written (n : Nat) {j : Json} (hj : j.Writable) (rest : List Char) :
    ∀ c ∈ (j.written l n ++ rest).head?, isSpace c = false := by
  obtain ⟨c, cs, hc, hspace, _⟩ := exists_head_written (l := l) n hj
  simp [hc, hspace]

theorem ends_writtenItems (n : Nat) (items : List Json) (rest : List Char) :
    Ends (writtenItems l n items ++ rest) := by
  cases items with
  | nil =>
    rw [writtenItems, List.append_assoc]
    exact ends_append (l.gap_space n) (by simp [isNumeralChar])
  | cons item items => simp [writtenItems, isNumeralChar]

theorem ends_writtenFields (n : Nat) (fields : List (Option String × Json)) (rest : List Char) :
    Ends (writtenFields l n fields ++ rest) := by
  cases fields with
  | nil =>
    rw [writtenFields, List.append_assoc]
    exact ends_append (l.gap_space n) (by simp [isNumeralChar])
  | cons field fields => simp [writtenFields, isNumeralChar]

theorem readValue_numeral {m : Numeral} (hm : m.WellFormed) (fuel : Nat) {rest : List Char}
    (hrest : Ends rest) : readValue (fuel + 1) (m.chars ++ rest) = some (.number m, rest) := by
  have hread := m.readNumeral_append hm hrest
  obtain ⟨c, cs, hchars, hc⟩ := m.exists_head hm
  have hother : c ≠ 'n' ∧ c ≠ 't' ∧ c ≠ 'f' ∧ c ≠ '"' ∧ c ≠ '[' ∧ c ≠ '{' := by
    refine ⟨?_, ?_, ?_, ?_, ?_, ?_⟩ <;>
      (rintro rfl; rcases hc with h | h <;> contradiction)
  rw [hchars] at hread ⊢
  rw [readValue, hread]
  · rfl
  all_goals simp [hother]

theorem readValue_array (fuel : Nat) {cs rest : List Char} {items : List Json}
    (hcs : ∀ c ∈ (skipSpace cs).head?, c ≠ ']')
    (h : readItems fuel (skipSpace cs) = some (items, rest)) :
    readValue (fuel + 1) ('[' :: cs) = some (.array items, rest) := by
  rw [readValue]
  split
  · next heq => simp [heq] at hcs
  · simp [h]

theorem readValue_object (fuel : Nat) {cs rest : List Char} {fields : List (Option String × Json)}
    (hcs : ∀ c ∈ (skipSpace cs).head?, c ≠ '}')
    (h : readFields fuel (skipSpace cs) = some (fields, rest)) :
    readValue (fuel + 1) ('{' :: cs) = some (.object fields, rest) := by
  rw [readValue]
  split
  · next heq => simp [heq] at hcs
  · simp [h]

theorem skipSpace_close (n : Nat) {c : Char} (rest : List Char) (hc : isSpace c = false) :
    skipSpace (l.gap n ++ c :: rest) = c :: rest :=
  skipSpace_append (l.gap_space n) (c :: rest) (by simp [hc])

theorem exists_fuel {cs : List Char} {fuel : Nat} (hcs : cs ≠ []) (h : 2 * cs.length ≤ fuel) :
    ∃ left, fuel = left + 1 := by
  have hpos := List.length_pos_iff.2 hcs
  exact ⟨fuel - 1, by omega⟩

mutual

/-- A value is read off the front of a text as it was written, in any layout. Two steps for each
character are enough. -/
theorem readValue_written (l : Layout) : ∀ (j : Json) (n fuel : Nat) (rest : List Char),
    j.Writable → Ends rest → 2 * (j.written l n).length ≤ fuel →
      readValue fuel (j.written l n ++ rest) = some (j, rest)
  | .array (item :: items), n, fuel, rest, hj, hrest, hfuel => by
    obtain ⟨fuel, rfl⟩ := exists_fuel (by simp [written]) hfuel
    simp only [Writable, ItemsWritable] at hj
    have hskip := skipSpace_append (l.gap_space (n + 1)) _
      (head?_written (l := l) (n + 1) hj.1 (writtenItems l n items ++ rest))
    have hitems := readItems_written l item items n fuel rest hj.1 hj.2 (by
      simp [written] at hfuel
      omega)
    obtain ⟨c, cs, hhead, _, hbracket⟩ := exists_head_written (l := l) (n + 1) hj.1
    simp only [written, List.cons_append, List.append_assoc]
    refine readValue_array fuel ?_ ?_
    · rw [hskip]
      simp [hhead, hbracket]
    · rw [hskip]
      exact hitems
  | .object ((name, value) :: fields), n, fuel, rest, hj, hrest, hfuel => by
    obtain ⟨fuel, rfl⟩ := exists_fuel (by simp [written]) hfuel
    simp only [Writable, FieldsWritable] at hj
    obtain ⟨name, rfl⟩ := Option.isSome_iff_exists.1 hj.1
    have hskip := skipSpace_append (l.gap_space (n + 1))
      (quoted? (some name) ++ ':' :: l.afterColon ++
        (value.written l (n + 1) ++ writtenFields l n fields) ++ rest)
      (by simp [quoted?, quoted, isSpace])
    have hfields := readFields_written l name value fields n fuel rest hj.2.1 hj.2.2 (by
      simp [written] at hfuel
      omega)
    simp only [written, List.cons_append, List.append_assoc] at hskip hfields ⊢
    refine readValue_object fuel ?_ ?_
    · rw [hskip]
      simp [quoted?, quoted]
    · rw [hskip]
      exact hfields
  | .number m, n, fuel, rest, hj, hrest, hfuel => by
    obtain ⟨c, cs, hhead, _⟩ := exists_head_written (l := l) n hj
    obtain ⟨fuel, rfl⟩ := exists_fuel (by simp [hhead]) hfuel
    have hread := readValue_numeral hj fuel hrest
    simpa [written, compactChars] using hread
  | .string (some s), n, fuel, rest, hj, hrest, hfuel => by
    obtain ⟨fuel, rfl⟩ := exists_fuel (by simp [written, compactChars, quoted?, quoted]) hfuel
    simp [written, compactChars, quoted?, quoted, readValue, readString_quoted]
  | .null, n, fuel, rest, hj, hrest, hfuel => by
    obtain ⟨fuel, rfl⟩ := exists_fuel (by simp [written, compactChars]) hfuel
    simp [written, compactChars, readValue]
  | .bool b, n, fuel, rest, hj, hrest, hfuel => by
    obtain ⟨fuel, rfl⟩ := exists_fuel (by cases b <;> simp [written, compactChars]) hfuel
    cases b <;> simp [written, compactChars, readValue]
  | .array [], n, fuel, rest, hj, hrest, hfuel => by
    obtain ⟨fuel, rfl⟩ := exists_fuel (by simp [written, compactChars]) hfuel
    simp [written, compactChars, readValue, skipSpace, isSpace]
  | .object [], n, fuel, rest, hj, hrest, hfuel => by
    obtain ⟨fuel, rfl⟩ := exists_fuel (by simp [written, compactChars]) hfuel
    simp [written, compactChars, readValue, skipSpace, isSpace]
termination_by j => sizeOf j

theorem readItems_written (l : Layout) : ∀ (item : Json) (items : List Json) (n fuel : Nat)
    (rest : List Char), item.Writable → ItemsWritable items →
    2 * ((item.written l (n + 1)).length + (writtenItems l n items).length) < fuel →
      readItems fuel (item.written l (n + 1) ++ (writtenItems l n items ++ rest)) =
        some (item :: items, rest)
  | item, items, n, fuel + 1, rest, hitem, hitems, hfuel => by
    have hread := readValue_written l item (n + 1) fuel (writtenItems l n items ++ rest) hitem
      (ends_writtenItems n items rest) (by omega)
    rw [readItems, hread]
    match items with
    | [] =>
      have hskip := skipSpace_close (l := l) n (c := ']') rest (by decide)
      simp [writtenItems, hskip]
    | next :: items =>
      simp only [ItemsWritable] at hitems
      have hskip := skipSpace_append (l.gap_space (n + 1)) _
        (head?_written (l := l) (n + 1) hitems.1 (writtenItems l n items ++ rest))
      have hnext := readItems_written l next items n fuel rest hitems.1 hitems.2 (by
        simp [writtenItems] at hfuel
        omega)
      have hcomma := skipSpace_cons (c := ',') (by decide)
      simp only [writtenItems, List.cons_append, List.append_assoc, hcomma, hskip, hnext,
        Option.map_some]
termination_by item items => sizeOf item + sizeOf items + 1

theorem readFields_written (l : Layout) : ∀ (name : String) (value : Json)
    (fields : List (Option String × Json)) (n fuel : Nat) (rest : List Char), value.Writable →
    FieldsWritable fields →
    2 * ((value.written l (n + 1)).length + (writtenFields l n fields).length) < fuel →
      readFields fuel (quoted? (some name) ++ ':' :: l.afterColon ++
        (value.written l (n + 1) ++ writtenFields l n fields) ++ rest) =
          some ((some name, value) :: fields, rest)
  | name, value, fields, n, fuel + 1, rest, hvalue, hfields, hfuel => by
    have hread := readValue_written l value (n + 1) fuel (writtenFields l n fields ++ rest) hvalue
      (ends_writtenFields n fields rest) (by omega)
    have hcolon := skipSpace_append l.afterColon_space _
      (head?_written (l := l) (n + 1) hvalue (writtenFields l n fields ++ rest))
    have hmark := skipSpace_cons (c := ':') (by decide)
    simp only [quoted?, quoted, Option.getD_some, List.cons_append, List.append_assoc,
      List.nil_append, readFields, readString_quoted, hmark, hcolon, hread]
    match fields with
    | [] =>
      have hskip := skipSpace_close (l := l) n (c := '}') rest (by decide)
      simp [writtenFields, hskip]
    | (next, following) :: fields =>
      simp only [FieldsWritable] at hfields
      obtain ⟨next, rfl⟩ := Option.isSome_iff_exists.1 hfields.1
      have hskip := skipSpace_append (l.gap_space (n + 1))
        (quoted? (some next) ++ ':' :: l.afterColon ++
          (following.written l (n + 1) ++ writtenFields l n fields) ++ rest)
        (by simp [quoted?, quoted, isSpace])
      have hnext := readFields_written l next following fields n fuel rest hfields.2.1 hfields.2.2
        (by
          simp [writtenFields] at hfuel
          omega)
      have hcomma := skipSpace_cons (c := ',') (by decide)
      simp only [List.cons_append, List.append_assoc] at hskip hnext
      simp only [writtenFields, List.cons_append, List.append_assoc, hcomma, hskip, hnext,
        Option.map_some]
termination_by _ value fields => sizeOf value + sizeOf fields + 1

end

theorem read?_written (l : Layout) (n : Nat) {j : Json} (hj : j.Writable) :
    read? (String.ofList (j.written l n)) = some j := by
  have hhead := head?_written (l := l) n hj []
  have hskip := skipSpace_append (List.forall_mem_nil _) _ hhead
  have hread := readValue_written l j n (2 * (j.written l n).length + 2) [] hj (by simp) (by omega)
  simp only [List.append_nil, List.nil_append] at hskip hread
  have hend : skipSpace [] = [] := rfl
  simp [read?, hskip, hread, hend]

theorem read?_compact {j : Json} (hj : j.Writable) : read? j.compact = some j := by
  rw [compact, ← written_line 0]
  exact read?_written .line 0 hj

theorem read?_pretty {j : Json} (hj : j.Writable) : read? j.pretty = some j := by
  rw [pretty, ← written_indented 0]
  exact read?_written .indented 0 hj

end FormulaLedger.Json
