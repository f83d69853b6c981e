import FormulaLedger.Text.Blank
import FormulaLedger.Text.Lowercase
import Mathlib.Data.List.TakeWhile

set_option autoImplicit false

namespace FormulaLedger.Text

/-- Whether a letter between the two texts would end a word; `before` is read backwards. -/
def endsWord (before after : List Char) : Bool := startsCased before && !startsCased after

def lowerAt (before after : List Char) (c : Char) : List Char :=
  if c == 'Σ' then if endsWord before after then ['ς'] else ['σ'] else lowerChar c

/-- The lowercase form of a part of a text, where `before` holds the characters in front of it,
nearest first, and `after` those behind it. -/
def lowerBetween (before after : List Char) : List Char → List Char
  | [] => []
  | c :: cs => lowerAt before (cs ++ after) c ++ lowerBetween (c :: before) after cs

/-- Every capital sigma of the part ends a word in the whole text just when it ends one in the part
by itself. -/
def SigmasKept (before part after : List Char) : Prop :=
  ∀ i < part.length, part[i]? = some 'Σ' →
    endsWord ((part.take i).reverse ++ before.reverse) (part.drop (i + 1) ++ after) =
      endsWord (part.take i).reverse (part.drop (i + 1))

instance (before part after : List Char) : Decidable (SigmasKept before part after) :=
  inferInstanceAs (Decidable (∀ i < part.length, part[i]? = some 'Σ' →
    endsWord ((part.take i).reverse ++ before.reverse) (part.drop (i + 1) ++ after) =
      endsWord (part.take i).reverse (part.drop (i + 1))))

section parts

variable {before after : List Char}

theorem lowerFrom_cons (before : List Char) (c : Char) (cs : List Char) :
    lowerFrom before (c :: cs) = lowerAt before cs c ++ lowerFrom (c :: before) cs := rfl

theorem lowerFrom_append (before xs ys : List Char) : lowerFrom before (xs ++ ys) =
    lowerBetween before ys xs ++ lowerFrom (xs.reverse ++ before) ys := by
  induction xs generalizing before with
  | nil => rfl
  | cons x xs ih =>
    rw [List.cons_append, lowerFrom_cons, ih, lowerBetween, List.append_assoc, List.reverse_cons,
      List.append_assoc, List.singleton_append]

theorem lowerFrom_eq_lowerBetween (before cs : List Char) :
    lowerFrom before cs = lowerBetween before [] cs := by
  have happend := lowerFrom_append before cs []
  rwa [List.append_nil, lowerFrom, List.append_nil] at happend

theorem length_lowerAt (before after before' after' : List Char) (c : Char) :
    (lowerAt before after c).length = (lowerAt before' after' c).length := by
  unfold lowerAt
  split
  · split <;> split <;> rfl
  · rfl

theorem lowerAt_eq_iff {before after before' after' : List Char} {c : Char} :
    lowerAt before after c = lowerAt before' after' c ↔
      (c = 'Σ' → endsWord before after = endsWord before' after') := by
  by_cases hc : c = 'Σ'
  · cases h : endsWord before after <;> cases h' : endsWord before' after' <;>
      simp [lowerAt, hc, h, h']
  · simp [lowerAt, hc]

theorem lowerBetween_eq_iff {before after before' after' : List Char} (cs : List Char) :
    lowerBetween before after cs = lowerBetween before' after' cs ↔
      ∀ i < cs.length, cs[i]? = some 'Σ' →
        endsWord ((cs.take i).reverse ++ before) (cs.drop (i + 1) ++ after) =
          endsWord ((cs.take i).reverse ++ before') (cs.drop (i + 1) ++ after') := by
  induction cs generalizing before before' with
  | nil => simp [lowerBetween]
  | cons c cs ih =>
    have hhead : (lowerBetween before after (c :: cs) = lowerBetween before' after' (c :: cs)) ↔
        lowerAt before (cs ++ after) c = lowerAt before' (cs ++ after') c ∧
          lowerBetween (c :: before) after cs = lowerBetween (c :: before') after' cs := by
      constructor
      · intro h
        exact List.append_inj h (length_lowerAt ..)
      · rintro ⟨hc, hcs⟩
        rw [lowerBetween, lowerBetween, hc, hcs]
    rw [hhead, lowerAt_eq_iff, ih, List.length_cons, Nat.forall_lt_succ_left]
    simp

/-- A part of a text is lowered as it is by itself exactly when its capital sigmas keep their
standing. -/
theorem lowerBetween_eq_lowerChars_iff {part : List Char} :
    lowerBetween before.reverse after part = lowerChars part ↔ SigmasKept before part after := by
  rw [lowerChars, lowerFrom_eq_lowerBetween, lowerBetween_eq_iff]
  simp only [List.append_nil, SigmasKept]

theorem startsCased_append {cs : List Char} (h : ∃ c ∈ cs, isCaseIgnorable c = false)
    (ds : List Char) : startsCased (cs ++ ds) = startsCased cs := by
  have hstop : cs.dropWhile isCaseIgnorable ≠ [] := by
    obtain ⟨c, hc, hci⟩ := h
    rw [Ne, List.dropWhile_eq_nil_iff]
    intro hall
    rw [hall c hc] at hci
    contradiction
  obtain ⟨c, rest, hrest⟩ := List.exists_cons_of_ne_nil hstop
  rw [startsCased, startsCased, List.dropWhile_append, hrest]
  rfl

theorem SigmasKept.infix_lowerChars {part : List Char} (h : SigmasKept before part after) :
    lowerChars part <:+: lowerChars (before ++ part ++ after) := by
  have hparts : lowerChars (before ++ part ++ after) =
      lowerBetween [] (part ++ after) before ++ (lowerBetween before.reverse after part ++
        lowerFrom (part.reverse ++ before.reverse) after) := by
    rw [lowerChars, List.append_assoc, lowerFrom_append, List.append_nil, lowerFrom_append]
  rw [hparts, lowerBetween_eq_lowerChars_iff.2 h, ← List.append_assoc]
  exact List.infix_append ..

/-- A sigma with characters on both sides in the part that are not ignored looks no further than
the part. -/
theorem SigmasKept.of_inner {part : List Char}
    (h : ∀ i < part.length, part[i]? = some 'Σ' →
      (∃ c ∈ part.take i, isCaseIgnorable c = false) ∧
        ∃ c ∈ part.drop (i + 1), isCaseIgnorable c = false) :
    SigmasKept before part after := by
  intro i hi hsigma
  obtain ⟨⟨c, hc, hci⟩, hback⟩ := h i hi hsigma
  have hfront : ∃ c ∈ (part.take i).reverse, isCaseIgnorable c = false :=
    ⟨c, List.mem_reverse.2 hc, hci⟩
  rw [endsWord, endsWord, startsCased_append hfront, startsCased_append hback]

theorem SigmasKept.of_notMem {part : List Char} (h : 'Σ' ∉ part) : SigmasKept before part after :=
  of_inner fun _ _ hsigma => absurd (List.mem_of_getElem? hsigma) h

end parts

section blanks

theorem lowercaseShifts_not_blank :
    ∀ row ∈ lowercaseShifts, ∀ n ∈ List.range' row.1 (row.2.1 + 1 - row.1),
      isBlank (Char.ofNat (n + row.2.2.2).toNat) = false := by
  decide +kernel

theorem exists_lowerChar {c : Char} (h : isBlank c = false) :
    ∃ d ∈ lowerChar c, isBlank d = false := by
  unfold lowerChar
  dsimp only
  split
  · exact ⟨'i', List.mem_cons_self, by decide⟩
  · split
    · next first last step shift hrow =>
      have hrange := List.find?_some hrow
      simp only [Bool.and_eq_true, decide_eq_true_eq] at hrange
      refine ⟨_, List.mem_singleton_self _,
        lowercaseShifts_not_blank _ (List.mem_of_find?_eq_some hrow) c.toNat ?_⟩
      rw [List.mem_range'_1]
      dsimp only
      omega
    · exact ⟨c, List.mem_singleton_self c, h⟩

theorem exists_lowerAt (before after : List Char) {c : Char} (h : isBlank c = false) :
    ∃ d ∈ lowerAt before after c, isBlank d = false := by
  unfold lowerAt
  split
  · split
    · exact ⟨'ς', List.mem_singleton_self _, by decide⟩
    · exact ⟨'σ', List.mem_singleton_self _, by decide⟩
  · exact exists_lowerChar h

theorem all_isBlank_of_lowerFrom {before cs : List Char}
    (h : (lowerFrom before cs).all isBlank = true) : cs.all isBlank = true := by
  induction cs generalizing before with
  | nil => rfl
  | cons c cs ih =>
    rw [lowerFrom_cons, List.all_append, Bool.and_eq_true] at h
    rw [List.all_cons, ih h.2, Bool.and_true]
    by_contra hc
    obtain ⟨d, hd, hdb⟩ := exists_lowerAt before cs ((Bool.not_eq_true _).mp hc)
    rw [List.all_eq_true.1 h.1 d hd] at hdb
    contradiction

end blanks

end FormulaLedger.Text
