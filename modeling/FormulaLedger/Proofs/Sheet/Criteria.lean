import FormulaLedger.Aggregate
import FormulaLedger.Proofs.Decimal.Reading
import FormulaLedger.Proofs.Text.Lowercase

/-!
Cells that hold the criteria. The text of a cell and the criteria are lowered apart from each other,
so the criteria are found where they stand letter for letter as long as every capital sigma of them
ends a word there just when it ends one in the criteria. A number has no sigma in its text.
-/

set_option autoImplicit false

namespace FormulaLedger

theorem containsChars_iff {part cs : List Char} : containsChars part cs = true ↔ part <:+: cs := by
  induction cs with
  | nil => rw [containsChars, List.isEmpty_iff, List.infix_nil]
  | cons c cs ih =>
    rw [containsChars, Bool.or_eq_true, List.isPrefixOf_iff_prefix, ih, List.infix_cons_iff]

theorem sigma_notMem_plainChars (d : Decimal) : 'Σ' ∉ d.plainChars := by
  obtain ⟨whole, fraction, hspells, -⟩ := d.plainChars_spells
  have hwhole : 'Σ' ∉ whole := fun h => absurd (hspells.whole_digits _ h) (by decide)
  have hfraction : 'Σ' ∉ fraction := fun h => absurd (hspells.fraction_digits _ h) (by decide)
  rcases hspells.eq with heq | ⟨-, heq⟩
  · rw [heq, List.mem_append, List.mem_cons]
    rintro (h | h | h)
    · exact hwhole h
    · exact absurd h (by decide)
    · exact hfraction h
  · rwa [heq]

theorem sigma_notMem_signed (x : Float) {magnitude : List Char} (h : 'Σ' ∉ magnitude) :
    'Σ' ∉ (Number.signed x magnitude).toList := by
  rw [Number.signed, String.toList_ofList]
  split
  · rw [List.mem_cons]
    rintro (hminus | hmem)
    · exact absurd hminus (by decide)
    · exact h hmem
  · exact h

theorem sigma_notMem_number (x : Float) : 'Σ' ∉ (Number.text x).toList := by
  unfold Number.text
  split
  · decide
  · split
    · exact sigma_notMem_signed x (by decide)
    · exact sigma_notMem_signed x (sigma_notMem_plainChars _)

section criteria

variable {criteria : String} {cell : Cell} {before after : List Char}

theorem sigmasKept_of_display (hcell : cell.isEmpty = false)
    (hdisplay : cell.display.toList = before ++ criteria.toList ++ after)
    (htext : ∀ s, cell = .text s → Text.SigmasKept before criteria.toList after) :
    Text.SigmasKept before criteria.toList after := by
  cases cell with
  | number x =>
    refine .of_notMem fun hmem => sigma_notMem_number x ?_
    have hnumber : (Number.text x).toList = before ++ criteria.toList ++ after := hdisplay
    rw [hnumber]
    exact List.mem_append_left _ (List.mem_append_right _ hmem)
  | text s => exact htext s rfl
  | empty => contradiction

theorem meetsCriteria_of_display (hblank : Text.isBlankText criteria = false)
    (hcell : cell.isEmpty = false)
    (hdisplay : cell.display.toList = before ++ criteria.toList ++ after)
    (hkept : Text.SigmasKept before criteria.toList after) :
    meetsCriteria criteria cell = true := by
  have hneedle : (Text.lowerChars criteria.toList).all Text.isBlank = false := by
    by_contra h
    have hall := Text.all_isBlank_of_lowerFrom ((Bool.not_eq_false _).mp h)
    rw [Text.isBlankText, hall] at hblank
    contradiction
  have hfound : containsChars (Text.lowerChars criteria.toList)
      (Text.lowerChars cell.display.toList) = true := by
    rw [containsChars_iff, hdisplay]
    exact hkept.infix_lowerChars
  rw [meetsCriteria, hcell, hneedle, hfound]
  rfl

theorem exists_sigma_of_missed (hblank : Text.isBlankText criteria = false)
    (hcell : cell.isEmpty = false)
    (hdisplay : cell.display.toList = before ++ criteria.toList ++ after)
    (hmissed : meetsCriteria criteria cell = false) :
    ∃ i, criteria.toList[i]? = some 'Σ' ∧
      ((∀ c ∈ criteria.toList.take i, Text.isCaseIgnorable c = true) ∨
        ∀ c ∈ criteria.toList.drop (i + 1), Text.isCaseIgnorable c = true) := by
  by_contra hnone
  have hkept : Text.SigmasKept before criteria.toList after := by
    refine .of_inner fun i _ hsigma => ⟨?_, ?_⟩
    · by_contra hfront
      exact hnone ⟨i, hsigma, .inl (by simpa using hfront)⟩
    · by_contra hback
      exact hnone ⟨i, hsigma, .inr (by simpa using hback)⟩
  rw [meetsCriteria_of_display hblank hcell hdisplay hkept] at hmissed
  contradiction

theorem countCells_insert (hmeets : meetsCriteria criteria cell = true) (left right : List Cell) :
    countCells criteria (left ++ cell :: right) = countCells criteria (left ++ right) + 1 := by
  rw [countCells, countCells, List.countP_append, List.countP_append,
    List.countP_cons_of_pos hmeets]
  rfl

/-- A cell that holds the criteria letter for letter is counted, wherever it is among the cells, if
it is a number or if the capital sigmas of the criteria keep their standing in its text. -/
theorem occurrence_counted (hblank : Text.isBlankText criteria = false)
    (hcell : cell.isEmpty = false)
    (hdisplay : cell.display.toList = before ++ criteria.toList ++ after)
    (htext : ∀ s, cell = .text s → Text.SigmasKept before criteria.toList after) :
    meetsCriteria criteria cell = true ∧ ∀ left right,
      countCells criteria (left ++ cell :: right) = countCells criteria (left ++ right) + 1 := by
  have hmeets : meetsCriteria criteria cell = true :=
    meetsCriteria_of_display hblank hcell hdisplay (sigmasKept_of_display hcell hdisplay htext)
  exact ⟨hmeets, countCells_insert hmeets⟩

/-- The sigma ends a word in the criteria and in the cell. -/
theorem occurrence_counted_wordEnd :
    Text.isBlankText "ΟΔΟΣ" = false ∧ (Cell.text "Η ΟΔΟΣ 7").isEmpty = false ∧
    (Cell.text "Η ΟΔΟΣ 7").display.toList = "Η ".toList ++ "ΟΔΟΣ".toList ++ " 7".toList ∧
    (∀ s, Cell.text "Η ΟΔΟΣ 7" = .text s →
      Text.SigmasKept "Η ".toList "ΟΔΟΣ".toList " 7".toList) ∧
    meetsCriteria "ΟΔΟΣ" (.text "Η ΟΔΟΣ 7") = true ∧ ∀ left right,
      countCells "ΟΔΟΣ" (left ++ .text "Η ΟΔΟΣ 7" :: right) =
        countCells "ΟΔΟΣ" (left ++ right) + 1 := by
  have hblank : Text.isBlankText "ΟΔΟΣ" = false := by decide
  have hdisplay : (Cell.text "Η ΟΔΟΣ 7").display.toList =
      "Η ".toList ++ "ΟΔΟΣ".toList ++ " 7".toList := by decide
  have hkept : ∀ s, Cell.text "Η ΟΔΟΣ 7" = .text s →
      Text.SigmasKept "Η ".toList "ΟΔΟΣ".toList " 7".toList := fun _ _ => by decide +kernel
  exact ⟨hblank, rfl, hdisplay, hkept, occurrence_counted hblank rfl hdisplay hkept⟩

/-- A lone sigma in the criteria ends no word, but the one in the cell does, so a cell that holds
the criteria letter for letter is passed over. -/
theorem finalSigma_passed_over :
    Text.isBlankText "Σ" = false ∧
    (Cell.text "ΟΔΟΣ").display.toList = "ΟΔΟ".toList ++ "Σ".toList ++ [] ∧
    meetsCriteria "Σ" (.text "ΟΔΟΣ") = false ∧ countCells "Σ" [.text "ΟΔΟΣ"] = 0 := by
  decide +kernel

end criteria

end FormulaLedger
