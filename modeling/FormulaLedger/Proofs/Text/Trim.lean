import FormulaLedger.Text.Blank
import Mathlib.Data.List.DropRight
import Mathlib.Data.List.TakeWhile

set_option autoImplicit false

namespace FormulaLedger.Text

section runs

variable {p : Char → Bool} {xs ys : List Char}

theorem takeWhile_run (hx : ∀ c ∈ xs, p c = true) (hy : ∀ c ∈ ys.head?, p c = false) :
    (xs ++ ys).takeWhile p = xs := by
  rw [List.takeWhile_append_of_pos hx]
  cases ys with
  | nil => simp
  | cons y ys => simp [hy y rfl]

theorem dropWhile_run (hx : ∀ c ∈ xs, p c = true) (hy : ∀ c ∈ ys.head?, p c = false) :
    (xs ++ ys).dropWhile p = ys := by
  rw [List.dropWhile_append_of_pos hx]
  cases ys with
  | nil => simp
  | cons y ys => simp [hy y rfl]

theorem run_inj {xs' ys' : List Char} (heq : xs ++ ys = xs' ++ ys')
    (hx : ∀ c ∈ xs, p c = true) (hy : ∀ c ∈ ys.head?, p c = false)
    (hx' : ∀ c ∈ xs', p c = true) (hy' : ∀ c ∈ ys'.head?, p c = false) :
    xs = xs' ∧ ys = ys' := by
  have htake := congrArg (List.takeWhile p) heq
  rw [takeWhile_run hx hy, takeWhile_run hx' hy'] at htake
  subst htake
  exact ⟨rfl, List.append_cancel_left heq⟩

end runs

variable {cs : List Char}

theorem dropBlanksEnd_eq (cs : List Char) : dropBlanksEnd cs = cs.rdropWhile isBlank := rfl

theorem dropWhile_trimChars (cs : List Char) :
    (trimChars cs).dropWhile isBlank = trimChars cs := by
  have hfront : trimChars cs <+: cs.dropWhile isBlank := List.rdropWhile_prefix ..
  rw [List.dropWhile_eq_self_iff]
  intro hpos
  rw [hfront.getElem hpos]
  exact List.dropWhile_get_zero_not isBlank cs (hpos.trans_le hfront.length_le)

theorem trimChars_trimChars (cs : List Char) : trimChars (trimChars cs) = trimChars cs := by
  rw [trimChars, dropWhile_trimChars]
  exact List.rdropWhile_idempotent ..

theorem trimChars_eq_nil_iff : trimChars cs = [] ↔ cs.all isBlank = true := by
  rw [trimChars, dropBlanksEnd_eq, List.rdropWhile_eq_nil_iff, List.all_eq_true]
  constructor
  · intro h
    have hnil : cs.dropWhile isBlank = [] := by
      rw [← List.dropWhile_idempotent, List.dropWhile_eq_nil_iff]
      exact h
    exact List.dropWhile_eq_nil_iff.1 hnil
  · intro h c hc
    exact h c ((List.dropWhile_sublist _).mem hc)

theorem not_isBlank_of_isDigit {c : Char} (h : c.isDigit = true) : isBlank c = false := by
  have hrange : 48 ≤ c.toNat ∧ c.toNat ≤ 57 := by
    simpa [Char.isDigit, UInt32.le_iff_toNat_le] using h
  grind [isBlank]

theorem dropWhile_isBlank (h : ∀ c ∈ cs.head?, isBlank c = false) : cs.dropWhile isBlank = cs :=
  dropWhile_run (List.forall_mem_nil _) h

theorem trimChars_of_forall (h : ∀ c ∈ cs, isBlank c = false) : trimChars cs = cs := by
  have hback : cs.reverse.dropWhile isBlank = cs.reverse :=
    dropWhile_isBlank fun c hc => h c (List.mem_reverse.1 (List.mem_of_head? hc))
  rw [trimChars, dropWhile_isBlank fun c hc => h c (List.mem_of_head? hc), dropBlanksEnd, hback,
    List.reverse_reverse]

@[simp] theorem trim_trim (s : String) : trim (trim s) = trim s := by
  simp [trim, trimChars_trimChars]

theorem isBlankText_eq_false_iff {s : String} :
    isBlankText s = false ↔ ∃ c ∈ s.toList, isBlank c = false := by
  simp [isBlankText]

theorem trim_eq_empty_iff {s : String} : trim s = "" ↔ isBlankText s = true := by
  rw [isBlankText, ← trimChars_eq_nil_iff]
  simp [trim]

structure Tight (s : String) : Prop where
  ne_empty : s ≠ ""
  trim_eq : trim s = s

variable {s : String}

theorem tight_trim (h : isBlankText s = false) : Tight (trim s) where
  ne_empty := by simp [trim_eq_empty_iff, h]
  trim_eq := trim_trim s

theorem Tight.not_blank (h : Tight (trim s)) : isBlankText s = false := by
  have hne := h.ne_empty
  simpa [trim_eq_empty_iff] using hne

end FormulaLedger.Text
