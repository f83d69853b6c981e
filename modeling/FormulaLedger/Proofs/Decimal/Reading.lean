import FormulaLedger.Proofs.Double.Scientific

set_option autoImplicit false

namespace FormulaLedger

namespace Binary

variable {b : Binary} {v : ℚ}

theorem finest (hb : b.Canonical) : (10 : ℚ) ^ (-324 : ℤ) < b.reach * 2 ^ b.exponent := by
  have hnat : 2 ^ 1075 < 10 ^ 324 := by decide +kernel
  have hpow : (10 : ℚ) ^ (-324 : ℤ) < 2 ^ (-1075 : ℤ) := by
    rw [zpow_neg, zpow_neg]
    apply inv_strictAnti₀ (by positivity)
    exact_mod_cast hnat
  apply hpow.trans_le
  by_cases hedge : b.mantissa = 2 ^ 52 ∧ b.exponent ≠ -1074
  · have hle := hb.le_exponent
    calc
      (2 : ℚ) ^ (-1075 : ℤ) = 2 ^ (-2 + -1073 : ℤ) := rfl
      _ ≤ 2 ^ (-2 + b.exponent) := zpow_le_zpow_right₀ (by norm_num) (by omega)
      _ = b.reach * 2 ^ b.exponent := by
        rw [zpow_add₀ (by norm_num), reach, if_pos hedge]
        norm_num
  · have hle := hb.le_exponent
    calc
      (2 : ℚ) ^ (-1075 : ℤ) = 2 ^ (-1 + -1074 : ℤ) := rfl
      _ ≤ 2 ^ (-1 + b.exponent) := zpow_le_zpow_right₀ (by norm_num) (by omega)
      _ = b.reach * 2 ^ b.exponent := by
        rw [zpow_add₀ (by norm_num), reach, if_neg hedge]
        norm_num

theorem Covers.reach_le (hb : b.Canonical) (h : b.Covers v) : b.reach * 2 ^ b.exponent ≤ v := by
  have hu : (0 : ℚ) < 2 ^ b.exponent := by positivity
  have hm : (1 : ℚ) ≤ b.mantissa := by exact_mod_cast hb.pos
  have hreach := b.reach_bounds.2
  calc
    b.reach * 2 ^ b.exponent ≤ (b.mantissa - b.reach) * 2 ^ b.exponent :=
      mul_le_mul_of_nonneg_right (by linarith) hu.le
    _ ≤ v := h.le.1

theorem Covers.pos (hb : b.Canonical) (h : b.Covers v) : 0 < v := by
  have hu : (0 : ℚ) < 2 ^ b.exponent := by positivity
  have hreach := b.reach_bounds.1
  exact (mul_pos (by linarith) hu).trans_le (h.reach_le hb)

end Binary

namespace Decimal

def value (d : Decimal) : ℚ := d.digits * 10 ^ d.exponent

section digits

theorem ofDigits_eq (ds : List Char) : ofDigits ds = Nat.ofDigitChars 10 ds 0 := by
  rw [Nat.ofDigitChars_eq_foldl, ofDigits]

theorem ofDigits_append (ds es : List Char) :
    ofDigits (ds ++ es) = 10 ^ es.length * ofDigits ds + ofDigits es := by
  rw [ofDigits_eq, ofDigits_eq, ofDigits_eq, Nat.ofDigitChars_append,
    Nat.ofDigitChars_eq_ofDigitChars_zero]

theorem ofDigits_zeros (n : Nat) : ofDigits (List.replicate n '0') = 0 := by
  rw [ofDigits_eq, Nat.ofDigitChars_replicate_zero, Nat.mul_zero]

theorem ofDigits_digitChars (d : Decimal) : ofDigits d.digitChars = d.digits := by
  rw [ofDigits_eq, digitChars, Nat.ofDigitChars_ten_toDigits]

theorem isDigit_of_mem_digitChars (d : Decimal) : ∀ c ∈ d.digitChars, c.isDigit = true :=
  fun _ hc => Nat.isDigit_of_mem_toDigits (by decide) (by decide) hc

theorem isDigit_of_mem_zeros {n : Nat} : ∀ c ∈ List.replicate n '0', c.isDigit = true := by
  intro c hc
  rw [List.eq_of_mem_replicate hc]
  rfl

theorem length_digitChars_le_iff (d : Decimal) {k : Nat} (hk : 0 < k) :
    d.digitChars.length ≤ k ↔ d.digits < 10 ^ k :=
  Nat.length_toDigits_le_iff (by decide) hk

theorem digits_lt (d : Decimal) : d.digits < 10 ^ d.digitChars.length :=
  (d.length_digitChars_le_iff Nat.length_toDigits_pos).1 Nat.le.refl

theorem le_digits (d : Decimal) (hd : 0 < d.digits) : 10 ^ (d.digitChars.length - 1) ≤ d.digits := by
  by_cases hone : d.digitChars.length = 1
  · rw [hone]
    exact hd
  · have hpos : 0 < d.digitChars.length := Nat.length_toDigits_pos
    have hle := d.length_digitChars_le_iff (k := d.digitChars.length - 1) (by omega)
    omega

end digits

/-- A numeral as it is written: digits, and perhaps a point with more digits. -/
structure Spells (cs whole fraction : List Char) : Prop where
  whole_digits : ∀ c ∈ whole, c.isDigit = true
  fraction_digits : ∀ c ∈ fraction, c.isDigit = true
  whole_ne : whole ≠ []
  eq : cs = whole ++ '.' :: fraction ∨ fraction = [] ∧ cs = whole

theorem plainChars_spells (d : Decimal) : ∃ whole fraction, Spells d.plainChars whole fraction ∧
    (⟨ofDigits (whole ++ fraction), -fraction.length⟩ : Decimal).value = d.value := by
  obtain ⟨digits, exponent⟩ := d
  generalize hds : digitChars ⟨digits, exponent⟩ = ds
  have hdigits : ofDigits ds = digits := by
    rw [← hds]
    exact ofDigits_digitChars _
  have hall : ∀ c ∈ ds, c.isDigit = true := by
    rw [← hds]
    exact isDigit_of_mem_digitChars _
  have hne : ds ≠ [] := by
    rw [← hds]
    exact Nat.toDigits_ne_nil
  cases exponent with
  | ofNat zeros =>
    refine ⟨ds ++ List.replicate zeros '0', [], ⟨?_, ?_, ?_, ?_⟩, ?_⟩
    · intro c hc
      rcases List.mem_append.1 hc with hc | hc
      · exact hall c hc
      · exact isDigit_of_mem_zeros c hc
    · intro c hc
      contradiction
    · exact List.append_ne_nil_of_left_ne_nil hne _
    · refine .inr ⟨rfl, ?_⟩
      rw [plainChars, hds]
    · rw [List.append_nil, ofDigits_append, hdigits, ofDigits_zeros, List.length_replicate]
      simp [value]
      ring
  | negSucc k =>
    have hexponent : Int.negSucc k = -((k + 1 : Nat) : ℤ) := Int.negSucc_eq k
    by_cases hlt : k + 1 < ds.length
    · refine ⟨ds.take (ds.length - (k + 1)), ds.drop (ds.length - (k + 1)), ⟨?_, ?_, ?_, ?_⟩, ?_⟩
      · exact fun c hc => hall c (List.mem_of_mem_take hc)
      · exact fun c hc => hall c (List.mem_of_mem_drop hc)
      · intro hnil
        have hlength := congrArg List.length hnil
        rw [List.length_take, List.length_nil] at hlength
        omega
      · left
        rw [plainChars, hds]
        exact if_pos hlt
      · have hlength : (ds.drop (ds.length - (k + 1))).length = k + 1 := by
          rw [List.length_drop]
          omega
        rw [List.take_append_drop, hdigits, hlength, hexponent]
    · refine ⟨['0'], List.replicate (k + 1 - ds.length) '0' ++ ds, ⟨?_, ?_, ?_, ?_⟩, ?_⟩
      · intro c hc
        rw [List.mem_singleton.1 hc]
        rfl
      · intro c hc
        rcases List.mem_append.1 hc with hc | hc
        · exact isDigit_of_mem_zeros c hc
        · exact hall c hc
      · exact List.cons_ne_nil _ _
      · left
        rw [plainChars, hds]
        exact if_neg hlt
      · have hlength : (List.replicate (k + 1 - ds.length) '0' ++ ds).length = k + 1 := by
          rw [List.length_append, List.length_replicate]
          omega
        have hzero : ofDigits ['0'] = 0 := rfl
        rw [hlength, hexponent, ofDigits_append, ofDigits_append, hdigits, ofDigits_zeros, hzero,
          Nat.mul_zero, Nat.mul_zero, Nat.zero_add, Nat.zero_add]

variable {b : Binary} {d : Decimal}

theorem value_pos_iff : 0 < d.value ↔ 0 < d.digits := by
  have hten : (0 : ℚ) < 10 ^ d.exponent := by positivity
  rw [value, mul_pos_iff_of_pos_right hten]
  exact Nat.cast_pos

theorem value_bounds (hd : 0 < d.digits) :
    (10 : ℚ) ^ (d.digitChars.length + d.exponent - 1) ≤ d.value ∧
      d.value < 10 ^ (d.digitChars.length + d.exponent) := by
  have hten : (0 : ℚ) < 10 ^ d.exponent := by positivity
  have hpos : 0 < d.digitChars.length := Nat.length_toDigits_pos
  have hlow : (10 : ℚ) ^ (d.digitChars.length - 1) ≤ d.digits := by
    exact_mod_cast d.le_digits hd
  have hhigh : (d.digits : ℚ) < 10 ^ d.digitChars.length := by exact_mod_cast d.digits_lt
  constructor
  · have hexp : (d.digitChars.length : ℤ) + d.exponent - 1 =
        ((d.digitChars.length - 1 : Nat) : ℤ) + d.exponent := by omega
    rw [hexp, zpow_add₀ (by norm_num), zpow_natCast]
    exact mul_le_mul_of_nonneg_right hlow hten.le
  · rw [zpow_add₀ (by norm_num), zpow_natCast]
    exact mul_lt_mul_of_pos_right hhigh hten

theorem length_bounds (hb : b.Canonical) (hd : 0 < d.digits) (hv : b.Covers d.value) :
    d.digitChars.length + d.exponent ≤ 309 ∧ -324 < d.digitChars.length + d.exponent := by
  obtain ⟨hlow, hhigh⟩ := value_bounds hd
  constructor
  · have htop : d.value < 2 ^ (1024 : ℤ) := by
      refine lt_of_lt_of_le (hv.lt_top hb) (zpow_le_zpow_right₀ (by norm_num) ?_)
      have := hb.exponent_le
      omega
    have hnat : 2 ^ 1024 < 10 ^ 309 := by decide +kernel
    have hpow : (2 : ℚ) ^ (1024 : ℤ) < 10 ^ (309 : ℤ) := by exact_mod_cast hnat
    have hlt : (10 : ℚ) ^ ((d.digitChars.length : ℤ) + d.exponent - 1) < 10 ^ (309 : ℤ) :=
      hlow.trans_lt (htop.trans hpow)
    have := (zpow_lt_zpow_iff_right₀ (by norm_num : (1 : ℚ) < 10)).1 hlt
    omega
  · have hlt : (10 : ℚ) ^ (-324 : ℤ) < 10 ^ ((d.digitChars.length : ℤ) + d.exponent) :=
      ((Binary.finest hb).trans_le (hv.reach_le hb)).trans hhigh
    exact (zpow_lt_zpow_iff_right₀ (by norm_num : (1 : ℚ) < 10)).1 hlt

/-- A decimal becomes the double that covers its value. -/
theorem toFloat_eq (hb : b.Canonical) (hd : 0 < d.digits) (hv : b.Covers d.value) :
    d.toFloat = Double.of .positive b hb := by
  obtain ⟨hhigh, hlow⟩ := length_bounds hb hd hv
  have hne : d.digits ≠ 0 := Nat.ne_of_gt hd
  have hexp : (if decide (d.exponent < 0) then -(d.exponent.natAbs : ℤ) else d.exponent.natAbs) =
      d.exponent := by
    by_cases hneg : d.exponent < 0
    · simp only [hneg, decide_true, ↓reduceIte]
      omega
    · simp only [hneg, decide_false, Bool.false_eq_true, ↓reduceIte]
      omega
  rw [toFloat]
  simp only [hne, ↓reduceIte]
  rw [if_neg (by omega), if_neg (by omega)]
  refine Double.ofScientific_eq hb hd ?_ ?_
  · by_cases hneg : d.exponent < 0
    · -- a text of that many digits has about that many bits
      have hlength : d.digitChars.length ≤ d.digits.log2 + 1 := by
        apply (d.length_digitChars_le_iff (Nat.succ_pos _)).2
        calc
          d.digits < 2 ^ (d.digits.log2 + 1) := Nat.lt_log2_self
          _ ≤ 10 ^ (d.digits.log2 + 1) := Nat.pow_le_pow_left (by decide) _
      simp only [hneg, decide_true, ↓reduceIte]
      omega
    · simp only [hneg, decide_false, Bool.false_eq_true, ↓reduceIte]
      omega
  · rw [hexp]
    exact hv

end Decimal

end FormulaLedger
