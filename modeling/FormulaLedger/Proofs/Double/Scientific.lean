import FormulaLedger.Proofs.Double.Rounding
import Mathlib.Tactic.IntervalCases

set_option autoImplicit false

namespace FormulaLedger

open Float.Model Float.Model.UnpackedFloat

namespace Double

variable {b : Binary} {m₁ m₂ : Nat} {e₁ e₂ : Int}

theorem mul_eq (hb : b.Canonical) (h₁ : 0 < m₁) (h₂ : 0 < m₂) (hbits : 2 ^ 52 ≤ m₁ * m₂)
    (hv : b.Covers ((m₁ * 2 ^ e₁) * (m₂ * 2 ^ e₂))) :
    UnpackedFloat.mul Format.binary64 (.finite .positive m₁ e₁ h₁) (.finite .positive m₂ e₂ h₂) =
      .finite .positive b.mantissa b.exponent hb.pos := by
  have hu : (0 : ℚ) < 2 ^ (e₁ + e₂) := by positivity
  have hvalue : ((m₁ : ℚ) * 2 ^ e₁) * (m₂ * 2 ^ e₂) = (m₁ * m₂ : Nat) * 2 ^ (e₁ + e₂) := by
    rw [zpow_add₀ (by norm_num)]
    push_cast
    ring
  rw [hvalue] at hv
  have htells : Tells (ExtendedMantissa.ofMantissaAndAccuracy (m₁ * m₂) .exact)
      ((m₁ * m₂ : Nat) * 2 ^ (e₁ + e₂) / 2 ^ (e₁ + e₂)) := by
    rw [mul_div_cancel_right₀ _ hu.ne']
    exact tells_exact _
  have henough : (2 : ℚ) ^ (e₁ + e₂ + 52) ≤ (m₁ * m₂ : Nat) * 2 ^ (e₁ + e₂) := by
    have hle : (2 : ℚ) ^ 52 ≤ (m₁ * m₂ : Nat) := by exact_mod_cast hbits
    rw [add_comm, zpow_add₀ (by norm_num)]
    exact mul_le_mul_of_nonneg_right hle hu.le
  exact roundWithAccuracy_eq hb hv .positive htells (.inr henough)

theorem two_zpow_le {m : Nat} (e : Int) (hm : 0 < m) :
    (2 : ℚ) ^ (totalExponent m e - 1) ≤ m * 2 ^ e := by
  have hu : (0 : ℚ) < 2 ^ e := by positivity
  apply le_of_totalExponent (Nat.ne_of_gt hm)
  rw [mul_div_cancel_right₀ _ hu.ne']

theorem lt_two_zpow (m : Nat) (e : Int) : (m : ℚ) * 2 ^ e < 2 ^ totalExponent m e := by
  have hu : (0 : ℚ) < 2 ^ e := by positivity
  apply lt_of_totalExponent
  rw [mul_div_cancel_right₀ _ hu.ne']
  linarith

theorem div_eq (hb : b.Canonical) (h₁ : 0 < m₁) (h₂ : 0 < m₂)
    (hv : b.Covers ((m₁ * 2 ^ e₁) / (m₂ * 2 ^ e₂))) :
    UnpackedFloat.div Format.binary64 (.finite .positive m₁ e₁ h₁) (.finite .positive m₂ e₂ h₂) =
      .finite .positive b.mantissa b.exponent hb.pos := by
  have hm₂ : (0 : ℚ) < m₂ := by exact_mod_cast h₂
  have hdiv : UnpackedFloat.div Format.binary64 (.finite .positive m₁ e₁ h₁)
      (.finite .positive m₂ e₂ h₂) =
      roundWithAccuracy Format.binary64 .positive (divCore Format.binary64 m₁ e₁ m₂ e₂).1
        (divCore Format.binary64 m₁ e₁ m₂ e₂).2.1 (divCore Format.binary64 m₁ e₁ m₂ e₂).2.2 := rfl
  have hcore : divCore Format.binary64 m₁ e₁ m₂ e₂ =
      let target := min (e₁ - e₂) (max (totalExponent m₁ e₁ - totalExponent m₂ e₂ - 53) (-1074))
      let m := m₁ <<< (e₁ - e₂ - target).toNat
      (m / m₂, target, accuracyOfFraction (m % m₂) m₂) := rfl
  rw [hdiv, hcore]
  dsimp only
  generalize htarget : min (e₁ - e₂) (max (totalExponent m₁ e₁ - totalExponent m₂ e₂ - 53) (-1074)) =
    target
  have hu : (0 : ℚ) < 2 ^ target := by positivity
  have hshift : target + (e₁ - e₂ - target).toNat = e₁ - e₂ := by omega
  generalize hn : (e₁ - e₂ - target).toNat = n at hshift
  have hquot : ((m₁ : ℚ) * 2 ^ e₁) / (m₂ * 2 ^ e₂) / 2 ^ target =
      ((m₁ <<< n / m₂ : Nat) : ℚ) + ((m₁ <<< n % m₂ : Nat) : ℚ) / m₂ := by
    have hdecomp : ((m₁ <<< n : Nat) : ℚ) = m₂ * (m₁ <<< n / m₂ : Nat) + (m₁ <<< n % m₂ : Nat) := by
      exact_mod_cast (Nat.div_add_mod (m₁ <<< n) m₂).symm
    have hpow : (2 : ℚ) ^ e₁ = 2 ^ e₂ * 2 ^ target * 2 ^ n := by
      rw [← zpow_natCast, ← zpow_add₀ (by norm_num), ← zpow_add₀ (by norm_num)]
      congr 1
      omega
    have hsum : ((m₁ <<< n / m₂ : Nat) : ℚ) + ((m₁ <<< n % m₂ : Nat) : ℚ) / m₂ =
        (m₁ <<< n : Nat) / m₂ := by
      rw [hdecomp]
      field_simp
    rw [hsum, hpow, Nat.shiftLeft_eq]
    push_cast
    field_simp
  have htells := tells_fraction (m₁ <<< n / m₂) (m₁ <<< n % m₂) m₂ (Nat.mod_lt _ h₂)
  rw [← hquot] at htells
  apply roundWithAccuracy_eq hb hv .positive htells
  by_cases hmin : target ≤ -1074
  · exact .inl hmin
  · have hle : target + 52 ≤ totalExponent m₁ e₁ - 1 - totalExponent m₂ e₂ := by omega
    have hlow := two_zpow_le e₁ h₁
    have hhigh := lt_two_zpow m₂ e₂
    have hpos : (0 : ℚ) < m₂ * 2 ^ e₂ := by positivity
    right
    calc
      (2 : ℚ) ^ (target + 52) ≤ 2 ^ (totalExponent m₁ e₁ - 1 - totalExponent m₂ e₂) :=
        zpow_le_iff.2 hle
      _ = 2 ^ (totalExponent m₁ e₁ - 1) / 2 ^ totalExponent m₂ e₂ := by
        rw [zpow_sub₀ (by norm_num) (totalExponent m₁ e₁ - 1)]
      _ ≤ (m₁ * 2 ^ e₁) / (m₂ * 2 ^ e₂) := by
        exact div_le_div₀ (by positivity) hlow hpos hhigh.le

end Double

def Binary.ofNat (m : Nat) : Binary := ⟨m * 2 ^ (52 - m.log2), (m.log2 : Int) - 52⟩

namespace Binary

variable {m : Nat}

theorem log2_le (hm : 0 < m) (hlt : m < 2 ^ 53) : m.log2 ≤ 52 :=
  Nat.le_of_lt_succ ((Nat.log2_lt (Nat.ne_of_gt hm)).2 hlt)

theorem full_ofNat (hm : 0 < m) (hlt : m < 2 ^ 53) : 2 ^ 52 ≤ (ofNat m).mantissa := by
  have hlog := log2_le hm hlt
  calc
    2 ^ 52 = 2 ^ m.log2 * 2 ^ (52 - m.log2) := by
      rw [← Nat.pow_add]
      congr 1
      omega
    _ ≤ m * 2 ^ (52 - m.log2) := Nat.mul_le_mul_right _ (Nat.log2_self_le (Nat.ne_of_gt hm))

theorem canonical_ofNat (hm : 0 < m) (hlt : m < 2 ^ 53) : (ofNat m).Canonical := by
  have hlog := log2_le hm hlt
  have hfull := full_ofNat hm hlt
  refine ⟨?_, ?_, ?_, ?_, .inl hfull⟩
  · exact Nat.lt_of_lt_of_le (by decide) hfull
  · calc
      m * 2 ^ (52 - m.log2) < 2 ^ (m.log2 + 1) * 2 ^ (52 - m.log2) :=
        Nat.mul_lt_mul_of_pos_right Nat.lt_log2_self (by positivity)
      _ = 2 ^ 53 := by
        rw [← Nat.pow_add]
        congr 1
        omega
  · simp only [ofNat]
    omega
  · simp only [ofNat]
    omega

theorem value_ofNat (hm : 0 < m) (hlt : m < 2 ^ 53) : (ofNat m).value = m := by
  have hlog := log2_le hm hlt
  have hpow : (2 : ℚ) ^ (52 - m.log2) * 2 ^ ((m.log2 : ℤ) - 52) = 1 := by
    rw [← zpow_natCast, ← zpow_add₀ (by norm_num)]
    have hzero : ((52 - m.log2 : Nat) : ℤ) + ((m.log2 : ℤ) - 52) = 0 := by omega
    rw [hzero, zpow_zero]
  rw [value, ofNat]
  push_cast
  rw [mul_assoc, hpow, mul_one]

end Binary

namespace Double

variable {m : Nat}

theorem round_canonical {b : Binary} (hb : b.Canonical) (hfull : 2 ^ 52 ≤ b.mantissa) :
    roundWithAccuracy Format.binary64 .positive b.mantissa b.exponent .exact =
      .finite .positive b.mantissa b.exponent hb.pos := by
  have hu : (0 : ℚ) < 2 ^ b.exponent := by positivity
  have hle : (2 : ℚ) ^ 52 ≤ b.mantissa := by exact_mod_cast hfull
  refine roundWithAccuracy_eq hb b.covers_value .positive ?_ (.inr ?_)
  · rw [Binary.value, mul_div_cancel_right₀ _ hu.ne']
    exact tells_exact _
  · rw [Binary.value, add_comm, zpow_add₀ (by norm_num)]
    exact mul_le_mul_of_nonneg_right hle hu.le

theorem unpack_ofNat (hm : 0 < m) (hlt : m < 2 ^ 53) :
    m.toUInt64.toFloat.toModel.unpack = .finite .positive (Binary.ofNat m).mantissa
      (Binary.ofNat m).exponent (Binary.canonical_ofNat hm hlt).pos := by
  have hb := Binary.canonical_ofNat hm hlt
  have hlog := Binary.log2_le hm hlt
  have hnat : m.toUInt64.toNat = m := by
    rw [Nat.toUInt64_eq, UInt64.toNat_ofNat']
    omega
  have hcompare : compare (m : Int) 0 = .gt := Int.compare_eq_gt.2 (by omega)
  have htarget : max (totalExponent m 0 - 53) (-1074) = (m.log2 : Int) - 52 := by
    rw [totalExponent]
    omega
  have hamount : (0 - ((m.log2 : Int) - 52)).toNat = 52 - m.log2 := by omega
  have hexponent : (0 : Int) - (52 - m.log2 : Nat) = (m.log2 : Int) - 52 := by omega
  have hround : UnpackedFloat.ofNat Format.binary64 m =
      roundWithAccuracy Format.binary64 .positive (Binary.ofNat m).mantissa
        (Binary.ofNat m).exponent .exact := by
    rw [UnpackedFloat.ofNat, UnpackedFloat.ofInt, UnpackedFloat.normalize, hcompare]
    simp only [Int.toNat_natCast]
    rw [UnpackedFloat.round, targetExponent_eq, htarget, decreaseExponent, hamount]
    simp only [hexponent, Nat.shiftLeft_eq]
    rfl
  have hfloat : m.toUInt64.toFloat.toModel.unpack =
      (Float.Model.pack (UnpackedFloat.ofNat Format.binary64 m.toUInt64.toNat)).unpack := rfl
  rw [hfloat, hnat, hround, round_canonical hb (Binary.full_ofNat hm hlt)]
  exact unpack_pack .positive hb

end Double

def Binary.tenPow (e : Nat) : Binary :=
  ⟨(ofNat (5 ^ e)).mantissa, (ofNat (5 ^ e)).exponent + e⟩

namespace Binary

theorem five_pow_lt {e : Nat} (he : e ≤ 22) : 5 ^ e < 2 ^ 53 :=
  calc
    5 ^ e ≤ 5 ^ 22 := Nat.pow_le_pow_right (by decide) he
    _ < 2 ^ 53 := by decide

theorem canonical_tenPow {e : Nat} (he : e ≤ 22) : (tenPow e).Canonical := by
  have h := canonical_ofNat (Nat.pow_pos (by decide)) (five_pow_lt he)
  have hlog := log2_le (Nat.pow_pos (by decide)) (five_pow_lt he)
  refine ⟨h.pos, h.mantissa_lt, ?_, ?_, .inl (full_ofNat (Nat.pow_pos (by decide)) (five_pow_lt he))⟩
  · simp only [tenPow, ofNat]
    omega
  · simp only [tenPow, ofNat]
    omega

theorem value_tenPow {e : Nat} (he : e ≤ 22) : (tenPow e).value = 10 ^ e := by
  have h := value_ofNat (Nat.pow_pos (by decide)) (five_pow_lt he)
  rw [value] at h
  rw [value, tenPow]
  simp only
  rw [zpow_add₀ (by norm_num), ← mul_assoc, h, zpow_natCast]
  push_cast
  rw [← mul_pow]
  norm_num

end Binary

namespace Double

theorem table_eq : ∀ e : Fin Float.exactlyRepresentablePowersOfTen.size,
    Float.exactlyRepresentablePowersOfTen[e] =
      of .positive (Binary.tenPow e) (Binary.canonical_tenPow (Nat.le_of_lt_succ e.isLt)) := by
  decide +kernel

variable {m : Nat} {b : Binary}

theorem ofScientific_fast (hb : b.Canonical) (hm : 0 < m) (hlt : m < 2 ^ 53) {negative : Bool}
    {e : Nat} (he : e ≤ 22) (hv : b.Covers (m * 10 ^ (if negative then -(e : ℤ) else e))) :
    Float.ofScientific m negative e = of .positive b hb := by
  let i : Fin Float.exactlyRepresentablePowersOfTen.size := ⟨e, Nat.lt_succ_of_le he⟩
  have hdef : Float.ofScientific m negative e =
      if negative then m.toUInt64.toFloat / Float.exactlyRepresentablePowersOfTen[i]
      else m.toUInt64.toFloat * Float.exactlyRepresentablePowersOfTen[i] := by
    rw [Float.ofScientific, dif_pos ⟨hlt, he⟩]
    rfl
  have hm' := Binary.value_ofNat hm hlt
  have hten := Binary.value_tenPow he
  rw [Binary.value] at hm' hten
  rw [hdef, table_eq]
  cases negative with
  | true =>
    rw [if_pos rfl, zpow_neg, zpow_natCast, ← div_eq_mul_inv, ← hten, ← hm'] at hv
    have hquot : m.toUInt64.toFloat / of .positive (Binary.tenPow i) (Binary.canonical_tenPow he) =
        .ofModel (.pack (UnpackedFloat.div Format.binary64 m.toUInt64.toFloat.toModel.unpack
          (of .positive (Binary.tenPow i) (Binary.canonical_tenPow he)).toModel.unpack)) := rfl
    rw [if_pos rfl, hquot, unpack_ofNat hm hlt, unpack_of, div_eq hb _ _ hv]
    rfl
  | false =>
    rw [if_neg (by decide), zpow_natCast, ← hten, ← hm'] at hv
    have hprod : m.toUInt64.toFloat * of .positive (Binary.tenPow i) (Binary.canonical_tenPow he) =
        .ofModel (.pack (UnpackedFloat.mul Format.binary64 m.toUInt64.toFloat.toModel.unpack
          (of .positive (Binary.tenPow i) (Binary.canonical_tenPow he)).toModel.unpack)) := rfl
    have hbits : 2 ^ 52 ≤ (Binary.ofNat m).mantissa * (Binary.tenPow i).mantissa :=
      Nat.le_trans (Binary.full_ofNat hm hlt)
        (Nat.le_mul_of_pos_right _ (Binary.canonical_tenPow he).pos)
    rw [if_neg (by decide), hprod, unpack_ofNat hm hlt, unpack_of, mul_eq hb _ _ hbits hv]
    rfl

theorem model_ofScientific (hb : b.Canonical) (hm : 0 < m) {e : Int} (hhigh : e ≤ 2 ^ 11)
    (hlow : -((2 ^ 11 : Int) + m.log2) ≤ e) (hv : b.Covers (m * 10 ^ e)) :
    UnpackedFloat.ofScientific Format.binary64 m e =
      .finite .positive b.mantissa b.exponent hb.pos := by
  have hne : m ≠ 0 := Nat.ne_of_gt hm
  have hhigh' : ¬ e > 2 ^ 11 := by omega
  have hlow' : ¬ e < -((2 ^ 11 : Int) + m.log2) := by omega
  rw [UnpackedFloat.ofScientific, dif_neg hne, if_neg hhigh', if_neg hlow']
  by_cases hsign : 0 ≤ e
  · rw [if_pos hsign]
    have hmantissa : m <<< Format.binary64.mantissaBits = m * 2 ^ 53 := Nat.shiftLeft_eq _ _
    have hexponent : -(Format.binary64.mantissaBits : Int) = -53 := rfl
    have hcast : (e.toNat : ℤ) = e := Int.toNat_of_nonneg hsign
    refine mul_eq hb _ _ ?_ ?_
    · rw [hmantissa]
      calc
        2 ^ 52 ≤ 1 * 2 ^ 53 * 1 := by decide
        _ ≤ m * 2 ^ 53 * 10 ^ e.toNat :=
          Nat.mul_le_mul (Nat.mul_le_mul_right _ hm) (Nat.one_le_pow _ _ (by decide))
    · have hvalue : ((m * 2 ^ 53 : Nat) : ℚ) * 2 ^ (-53 : ℤ) * ((10 ^ e.toNat : Nat) * 2 ^ (0 : ℤ)) =
          m * 10 ^ e := by
        have hpow : (10 : ℚ) ^ e = 10 ^ e.toNat := by rw [← zpow_natCast, hcast]
        rw [hpow]
        push_cast
        rw [zpow_neg, mul_one]
        field_simp
        norm_num
      rw [hmantissa, hexponent, hvalue]
      exact hv
  · rw [if_neg hsign]
    have hcast : ((-e).toNat : ℤ) = -e := Int.toNat_of_nonneg (by omega)
    have hvalue : (m : ℚ) * 2 ^ (0 : ℤ) / ((10 ^ (-e).toNat : Nat) * 2 ^ (0 : ℤ)) = m * 10 ^ e := by
      have hpow : (10 : ℚ) ^ e = (10 ^ (-e).toNat)⁻¹ := by
        rw [← zpow_natCast, hcast, zpow_neg, inv_inv]
      rw [hpow]
      push_cast
      rw [mul_one, mul_one, div_eq_mul_inv]
    apply div_eq hb _ _
    rw [hvalue]
    exact hv

/-- A decimal becomes the double that covers it. -/
theorem ofScientific_eq (hb : b.Canonical) (hm : 0 < m) {negative : Bool} {e : Nat}
    (he : e ≤ 2 ^ 11 + if negative then m.log2 else 0)
    (hv : b.Covers (m * 10 ^ (if negative then -(e : ℤ) else e))) :
    Float.ofScientific m negative e = of .positive b hb := by
  by_cases hfast : m < 2 ^ 53 ∧ e ≤ 22
  · exact ofScientific_fast hb hm hfast.1 hfast.2 hv
  · have hexp : (if negative then Int.negOfNat e else Int.ofNat e) =
        (if negative then -(e : ℤ) else e) := by
      cases negative with
      | true => exact Int.negOfNat_eq
      | false => rfl
    rw [Float.ofScientific, dif_neg hfast]
    simp only [hexp]
    have hmodel := model_ofScientific hb hm (e := if negative then -(e : ℤ) else e) ?_ ?_ hv
    · rw [Float.Model.ofScientific, hmodel]
      rfl
    · cases negative with
      | true =>
        simp only [↓reduceIte]
        omega
      | false =>
        simp only [Bool.false_eq_true, ↓reduceIte] at he ⊢
        omega
    · cases negative with
      | true =>
        simp only [↓reduceIte] at he ⊢
        omega
      | false =>
        simp only [Bool.false_eq_true, ↓reduceIte]
        omega

end Double

end FormulaLedger
