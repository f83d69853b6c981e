import FormulaLedger.Proofs.Double.Basic
import Mathlib.Algebra.Order.Field.Power
import Mathlib.Data.Rat.Cast.Order
import Mathlib.Tactic.Linarith
import Mathlib.Tactic.NormNum
import Mathlib.Tactic.Positivity
import Mathlib.Tactic.FieldSimp
import Mathlib.Tactic.Ring

/-!
Rounding to the nearest double, with ties to the even mantissa. A double covers the rationals that
round to it, and every operation that knows a rational well enough ends with the double that covers
it.
-/

set_option autoImplicit false

namespace FormulaLedger

open Float.Model Float.Model.UnpackedFloat

namespace Double

/-- What an extended mantissa says of a number: its whole part, whether a half is in it, and whether
anything is left. -/
def Tells (em : ExtendedMantissa) (v : ℚ) : Prop :=
  ∃ rest : ℚ, 0 ≤ rest ∧ rest < 1 / 2 ∧ (em.stickyBit = true ↔ 0 < rest) ∧
    v = em.mantissa + (if em.roundBit then 1 / 2 else 0) + rest

theorem tells_exact (m : Nat) : Tells (ExtendedMantissa.ofMantissaAndAccuracy m .exact) m :=
  ⟨0, by norm_num, by norm_num, by simp [ExtendedMantissa.ofMantissaAndAccuracy],
    by simp [ExtendedMantissa.ofMantissaAndAccuracy]⟩

theorem tells_fraction (m n d : Nat) (hd : n < d) :
    Tells (ExtendedMantissa.ofMantissaAndAccuracy m (accuracyOfFraction n d)) (m + n / d) := by
  have hpos : (0 : ℚ) < d := by exact_mod_cast Nat.zero_lt_of_lt hd
  have hlt : (n : ℚ) / d < 1 := by
    rw [div_lt_one hpos]
    exact_mod_cast hd
  unfold accuracyOfFraction
  by_cases hn : n = 0
  · subst hn
    have h := tells_exact m
    simpa using h
  · have hnpos : (0 : ℚ) < n / d := by
      have : (0 : ℚ) < n := by exact_mod_cast Nat.pos_of_ne_zero hn
      positivity
    rw [if_neg hn]
    cases hc : compare (2 * n) d with
    | lt =>
      have hlt' : 2 * n < d := Nat.compare_eq_lt.1 hc
      have hhalf : (n : ℚ) / d < 1 / 2 := by
        rw [div_lt_div_iff₀ hpos (by norm_num)]
        have : (2 : ℚ) * n < d := by exact_mod_cast hlt'
        linarith
      refine ⟨n / d, hnpos.le, hhalf, ?_, ?_⟩
      · simp [ExtendedMantissa.ofMantissaAndAccuracy, hnpos]
      · simp [ExtendedMantissa.ofMantissaAndAccuracy]
    | eq =>
      have heq : 2 * n = d := Nat.compare_eq_eq.1 hc
      have hhalf : (n : ℚ) / d = 1 / 2 := by
        rw [div_eq_div_iff hpos.ne' (by norm_num)]
        have : (2 : ℚ) * n = d := by exact_mod_cast heq
        linarith
      refine ⟨0, le_rfl, by norm_num, ?_, ?_⟩
      · simp [ExtendedMantissa.ofMantissaAndAccuracy]
      · simp [ExtendedMantissa.ofMantissaAndAccuracy, hhalf]
    | gt =>
      have hgt : d < 2 * n := Nat.compare_eq_gt.1 hc
      have hhalf : 1 / 2 < (n : ℚ) / d := by
        rw [div_lt_div_iff₀ (by norm_num) hpos]
        have : (d : ℚ) < 2 * n := by exact_mod_cast hgt
        linarith
      refine ⟨n / d - 1 / 2, by linarith, by linarith, ?_, ?_⟩
      · exact ⟨fun _ => by linarith, fun _ => rfl⟩
      · simp [ExtendedMantissa.ofMantissaAndAccuracy]

namespace Tells

variable {em : ExtendedMantissa} {v : ℚ}

theorem shiftRightOne (h : Tells em v) : Tells em.shiftRightOne (v / 2) := by
  obtain ⟨m, half, sticky⟩ := em
  obtain ⟨rest, h0, hhalf, hsticky, hv⟩ := h
  simp only at hsticky hv
  have hdiv : (m : ℚ) = 2 * (m / 2 : Nat) + (m % 2 : Nat) := by
    exact_mod_cast (Nat.div_add_mod m 2).symm
  have hodd : (if (m % 2 != 0) = true then (1 / 2 : ℚ) else 0) = (m % 2 : Nat) / 2 := by
    rcases Nat.mod_two_eq_zero_or_one m with hm | hm
    · simp [hm]
    · simp [hm]
  -- the half moves into the rest, and the last bit of the whole part becomes the half
  refine ⟨((if half then 1 / 2 else 0) + rest) / 2, ?_, ?_, ?_, ?_⟩
  · cases half <;> simp <;> linarith
  · cases half <;> simp <;> linarith
  · cases half with
    | true =>
      have hpos : (0 : ℚ) < (1 / 2 + rest) / 2 := by linarith
      simpa [ExtendedMantissa.shiftRightOne] using hpos
    | false => simpa [ExtendedMantissa.shiftRightOne] using hsticky
  · have hsum : v / 2 = ((m / 2 : Nat) : ℚ) + (if (m % 2 != 0) = true then 1 / 2 else 0) +
        ((if half then 1 / 2 else 0) + rest) / 2 := by
      rw [hodd, hv, hdiv]
      ring
    exact hsum

theorem shiftRight (h : Tells em v) (n : Nat) : Tells (em >>> n) (v / 2 ^ n) := by
  change Tells (n.repeat ExtendedMantissa.shiftRightOne em) _
  induction n with
  | zero => simpa [Nat.repeat] using h
  | succ n ih =>
    rw [Nat.repeat, pow_succ, ← div_div]
    exact ih.shiftRightOne

theorem bounds (h : Tells em v) : em.mantissa ≤ v ∧ v < em.mantissa + 1 := by
  obtain ⟨rest, h0, hhalf, _, hv⟩ := h
  rw [hv]
  cases em.roundBit with
  | true =>
    simp only [↓reduceIte]
    exact ⟨by linarith, by linarith⟩
  | false =>
    simp only [Bool.false_eq_true, ↓reduceIte]
    exact ⟨by linarith, by linarith⟩

end Tells

/-- A number is rounded to a whole one that is nearer than half, or that is even and at half. -/
def Near (n : Nat) (v : ℚ) : Prop :=
  (n - 1 / 2 < v ∧ v < n + 1 / 2) ∨ n % 2 = 0 ∧ n - 1 / 2 ≤ v ∧ v ≤ n + 1 / 2

theorem eq_of_cast_lt {a b : Nat} (h₁ : (a : ℚ) < b + 1) (h₂ : (b : ℚ) < a + 1) : a = b := by
  have h₁ : a < b + 1 := by exact_mod_cast h₁
  have h₂ : b < a + 1 := by exact_mod_cast h₂
  omega

theorem Tells.roundedMantissa {em : ExtendedMantissa} {v : ℚ} (h : Tells em v) {n : Nat}
    (hn : Near n v) : em.roundedMantissa = n := by
  obtain ⟨m, half, sticky⟩ := em
  obtain ⟨rest, h0, hhalf, hsticky, hv⟩ := h
  simp only at hsticky hv
  have hle : (n : ℚ) - 1 / 2 ≤ v ∧ v ≤ n + 1 / 2 := by
    rcases hn with ⟨h₁, h₂⟩ | ⟨_, h₁, h₂⟩
    · exact ⟨h₁.le, h₂.le⟩
    · exact ⟨h₁, h₂⟩
  cases half with
  | true =>
    simp only [↓reduceIte] at hv
    cases sticky with
    | true =>
      have hpos := hsticky.1 rfl
      have hr : ExtendedMantissa.roundedMantissa ⟨m, true, true⟩ = m + 1 := rfl
      rw [hr]
      apply eq_of_cast_lt
      · push_cast
        linarith
      · push_cast
        linarith
    | false =>
      have hzero : rest = 0 := by
        by_contra hne
        have hpos : 0 < rest := lt_of_le_of_ne h0 (Ne.symm hne)
        exact absurd (hsticky.2 hpos) (by simp)
      have hr : ExtendedMantissa.roundedMantissa ⟨m, true, false⟩ = m + m % 2 := rfl
      rw [hr]
      rw [hzero, add_zero] at hv
      have h₁ : (n : ℚ) ≤ m + 1 := by linarith
      have h₂ : (m : ℚ) ≤ n := by linarith
      have h₁ : n ≤ m + 1 := by exact_mod_cast h₁
      have h₂ : m ≤ n := by exact_mod_cast h₂
      rcases hn with ⟨hlow, hhigh⟩ | ⟨heven, _⟩
      · have h₃ : (n : ℚ) < m + 1 := by linarith
        have h₄ : (m : ℚ) < n := by linarith
        have h₃ : n < m + 1 := by exact_mod_cast h₃
        have h₄ : m < n := by exact_mod_cast h₄
        omega
      · omega
  | false =>
    simp only [Bool.false_eq_true, ↓reduceIte] at hv
    have hr : ExtendedMantissa.roundedMantissa ⟨m, false, sticky⟩ = m := by
      cases sticky <;> rfl
    rw [hr]
    apply eq_of_cast_lt
    · linarith
    · linarith

end Double

namespace Binary

def value (b : Binary) : ℚ := b.mantissa * 2 ^ b.exponent

/-- How far the numbers below that round to the double go, in units of its last place. -/
def reach (b : Binary) : ℚ := if b.mantissa = 2 ^ 52 ∧ b.exponent ≠ -1074 then 1 / 4 else 1 / 2

/-- The number rounds to the double. The ends belong to the doubles with even mantissas. -/
def Covers (b : Binary) (v : ℚ) : Prop :=
  ((b.mantissa - b.reach) * 2 ^ b.exponent < v ∧ v < (b.mantissa + 1 / 2) * 2 ^ b.exponent) ∨
    b.mantissa % 2 = 0 ∧ (b.mantissa - b.reach) * 2 ^ b.exponent ≤ v ∧
      v ≤ (b.mantissa + 1 / 2) * 2 ^ b.exponent

variable {b : Binary} {v : ℚ}

theorem reach_bounds (b : Binary) : 1 / 4 ≤ b.reach ∧ b.reach ≤ 1 / 2 := by
  unfold reach
  split
  · norm_num
  · norm_num

theorem covers_value (b : Binary) : b.Covers b.value := by
  have hu : (0 : ℚ) < 2 ^ b.exponent := by positivity
  have hr := (reach_bounds b).1
  left
  constructor
  · unfold value
    exact mul_lt_mul_of_pos_right (by linarith) hu
  · unfold value
    exact mul_lt_mul_of_pos_right (by linarith) hu

theorem Covers.le (h : b.Covers v) : (b.mantissa - b.reach) * 2 ^ b.exponent ≤ v ∧
    v ≤ (b.mantissa + 1 / 2) * 2 ^ b.exponent := by
  rcases h with ⟨h₁, h₂⟩ | ⟨_, h₁, h₂⟩
  · exact ⟨h₁.le, h₂.le⟩
  · exact ⟨h₁, h₂⟩

theorem Covers.near (h : b.Covers v) : Double.Near b.mantissa (v / 2 ^ b.exponent) := by
  have hu : (0 : ℚ) < 2 ^ b.exponent := by positivity
  have hr := (reach_bounds b).2
  rcases h with ⟨h₁, h₂⟩ | ⟨heven, h₁, h₂⟩
  · left
    constructor
    · rw [lt_div_iff₀ hu]
      nlinarith
    · rwa [div_lt_iff₀ hu]
  · refine .inr ⟨heven, ?_, ?_⟩
    · rw [le_div_iff₀ hu]
      nlinarith
    · rwa [div_le_iff₀ hu]

theorem Covers.lt_top (hb : b.Canonical) (h : b.Covers v) : v < 2 ^ (53 + b.exponent) := by
  have hu : (0 : ℚ) < 2 ^ b.exponent := by positivity
  have hm : (b.mantissa : ℚ) + 1 ≤ 2 ^ 53 := by exact_mod_cast hb.mantissa_lt
  rw [zpow_add₀ (by norm_num)]
  calc
    v ≤ (b.mantissa + 1 / 2) * 2 ^ b.exponent := h.le.2
    _ < 2 ^ (53 : ℤ) * 2 ^ b.exponent := by
      refine mul_lt_mul_of_pos_right ?_ hu
      norm_num at hm ⊢
      linarith

theorem Covers.mantissa_eq (hb : b.Canonical) (h : b.Covers v) (he : b.exponent ≠ -1074)
    (hv : v < 2 ^ (52 + b.exponent)) : b.mantissa = 2 ^ 52 := by
  have hu : (0 : ℚ) < 2 ^ b.exponent := by positivity
  have hr := (reach_bounds b).2
  have hfull : 2 ^ 52 ≤ b.mantissa := hb.full.resolve_right he
  rw [zpow_add₀ (by norm_num)] at hv
  have hlt : ((b.mantissa : ℚ) - b.reach) * 2 ^ b.exponent < 2 ^ (52 : ℤ) * 2 ^ b.exponent :=
    lt_of_le_of_lt h.le.1 hv
  have hlt := lt_of_mul_lt_mul_right hlt hu.le
  have hpow : (2 : ℚ) ^ (52 : ℤ) = 4503599627370496 := by norm_num
  rw [hpow] at hlt
  have hlt : (b.mantissa : ℚ) < 4503599627370497 := by linarith
  have hlt : b.mantissa < 4503599627370497 := by exact_mod_cast hlt
  omega

theorem Covers.near_top (h : b.Covers v) (hm : b.mantissa = 2 ^ 52) (he : b.exponent ≠ -1074)
    (hv : v < 2 ^ (52 + b.exponent)) : Double.Near (2 ^ 53) (v / 2 ^ (b.exponent - 1)) := by
  have hw : (0 : ℚ) < 2 ^ (b.exponent - 1) := by positivity
  have hdouble : (2 : ℚ) ^ b.exponent = 2 * 2 ^ (b.exponent - 1) := by
    rw [zpow_sub_one₀ (by norm_num)]
    ring
  have hreach : b.reach = 1 / 4 := if_pos ⟨hm, he⟩
  have hlow := h.le.1
  rw [zpow_add₀ (by norm_num), hdouble] at hv
  rw [hdouble, hreach, hm] at hlow
  push_cast at hlow
  have hpow : (2 : ℚ) ^ (52 : ℤ) = 2 ^ 52 := by norm_cast
  rw [hpow] at hv
  refine .inr ⟨by norm_num, ?_, ?_⟩
  · rw [le_div_iff₀ hw]
    push_cast
    linarith
  · rw [div_le_iff₀ hw]
    push_cast
    linarith

end Binary

namespace Double

theorem targetExponent_eq (t : Int) :
    Format.binary64.targetExponent t = max (t - 53) (-1074) := rfl

theorem zpow_lt_iff {a b : ℤ} : (2 : ℚ) ^ a < 2 ^ b ↔ a < b :=
  zpow_lt_zpow_iff_right₀ (by norm_num)

theorem zpow_le_iff {a b : ℤ} : (2 : ℚ) ^ a ≤ 2 ^ b ↔ a ≤ b :=
  zpow_le_zpow_iff_right₀ (by norm_num)

variable {m : Nat} {e : Int} {v : ℚ}

theorem lt_of_totalExponent (h : v / 2 ^ e < m + 1) : v < 2 ^ totalExponent m e := by
  have hu : (0 : ℚ) < 2 ^ e := by positivity
  have hm : (m : ℚ) + 1 ≤ 2 ^ (m.log2 + 1) := by exact_mod_cast Nat.lt_log2_self
  rw [div_lt_iff₀ hu] at h
  calc
    v < (m + 1) * 2 ^ e := h
    _ ≤ 2 ^ (m.log2 + 1) * 2 ^ e := mul_le_mul_of_nonneg_right hm hu.le
    _ = 2 ^ totalExponent m e := by
      rw [totalExponent, zpow_add₀ (by norm_num)]
      norm_cast

theorem le_of_totalExponent (hm : m ≠ 0) (h : (m : ℚ) ≤ v / 2 ^ e) :
    2 ^ (totalExponent m e - 1) ≤ v := by
  have hu : (0 : ℚ) < 2 ^ e := by positivity
  have hlog : (2 : ℚ) ^ m.log2 ≤ m := by exact_mod_cast Nat.log2_self_le hm
  rw [le_div_iff₀ hu] at h
  calc
    (2 : ℚ) ^ (totalExponent m e - 1) = 2 ^ m.log2 * 2 ^ e := by
      rw [totalExponent, show (m.log2 : ℤ) + 1 + e - 1 = m.log2 + e by ring,
        zpow_add₀ (by norm_num), zpow_natCast]
    _ ≤ m * 2 ^ e := mul_le_mul_of_nonneg_right hlog hu.le
    _ ≤ v := h

/-- The exponent that the first shift ends with: the one of the double that covers the number, or
the one below it when the number lies just below a power of two. -/
theorem exponent_cases {b : Binary} (hb : b.Canonical) (hv : b.Covers v)
    (hlow : (m : ℚ) ≤ v / 2 ^ e) (hhigh : v / 2 ^ e < m + 1)
    (he : e ≤ -1074 ∨ 2 ^ (e + 52) ≤ v) :
    e ≤ max (totalExponent m e - 53) (-1074) ∧
      (max (totalExponent m e - 53) (-1074) = b.exponent ∨
        max (totalExponent m e - 53) (-1074) = b.exponent - 1 ∧ b.exponent ≠ -1074 ∧
          v < 2 ^ (52 + b.exponent)) := by
  have hge := hb.le_exponent
  have htop := lt_of_totalExponent hhigh
  have hcover := hv.lt_top hb
  have hle : e ≤ max (totalExponent m e - 53) (-1074) := by
    rcases he with he | he
    · exact le_max_of_le_right he
    · have := zpow_lt_iff.1 (lt_of_le_of_lt he htop)
      exact le_max_of_le_left (by omega)
  refine ⟨hle, ?_⟩
  have hupper : max (totalExponent m e - 53) (-1074) ≤ b.exponent := by
    by_cases hm : m = 0
    · -- a number below one unit of the smallest exponent
      have hz : totalExponent m e = 1 + e := by
        rw [hm, totalExponent]
        simp
      have hsmall : e ≤ -1074 := by
        rcases he with he | he
        · exact he
        · rw [hz] at htop
          have := zpow_lt_iff.1 (lt_of_le_of_lt he htop)
          omega
      rw [hz]
      omega
    · have hbot := le_of_totalExponent hm hlow
      have := zpow_lt_iff.1 (lt_of_le_of_lt hbot hcover)
      omega
  by_cases hbin : 2 ^ (52 + b.exponent) ≤ v
  · have := zpow_lt_iff.1 (lt_of_le_of_lt hbin htop)
    exact .inl (by omega)
  · by_cases hmin : b.exponent = -1074
    · exact .inl (by omega)
    · have hlt := lt_of_not_ge hbin
      have hfull := hv.mantissa_eq hb hmin hlt
      have hhalf : (2 : ℚ) ^ (51 + b.exponent) ≤ v := by
        have hu : (0 : ℚ) < 2 ^ b.exponent := by positivity
        have hr := (Binary.reach_bounds b).2
        refine le_trans ?_ hv.le.1
        rw [zpow_add₀ (by norm_num), hfull]
        refine mul_le_mul_of_nonneg_right ?_ hu.le
        norm_num
        linarith
      have hbelow := zpow_lt_iff.1 (lt_of_le_of_lt hhalf htop)
      by_cases heq : max (totalExponent m e - 53) (-1074) = b.exponent
      · exact .inl heq
      · exact .inr ⟨by omega, hmin, hlt⟩

theorem ofMantissaAndAccuracy_mantissa (m : Nat) (acc : Accuracy) :
    (ExtendedMantissa.ofMantissaAndAccuracy m acc).mantissa = m := by
  cases acc with
  | exact => rfl
  | inexact o =>
    cases o with
    | lt => rfl
    | eq => rfl
    | gt => rfl

theorem totalExponent_le {b : Binary} (hb : b.Canonical) :
    max (totalExponent b.mantissa b.exponent - 53) (-1074) ≤ b.exponent := by
  have hlog : b.mantissa.log2 < 53 := (Nat.log2_lt (Nat.ne_of_gt hb.pos)).2 hb.mantissa_lt
  have hge := hb.le_exponent
  rw [totalExponent]
  omega

theorem shiftToExponent_self (m : Nat) (e target : Int) (h : target ≤ e) :
    shiftToExponent m e .exact target = (ExtendedMantissa.ofMantissaAndAccuracy m .exact, e) := by
  have hzero : (target - e).toNat = 0 := by omega
  rw [shiftToExponent, hzero]
  simp [HShiftRight.hShiftRight, Nat.repeat]

theorem roundWithAccuracy_of_shifts {b : Binary} (hb : b.Canonical) (s : Sign) {acc : Accuracy}
    {em₁ : ExtendedMantissa} (em₂ : ExtendedMantissa) {e₁ : Int}
    (h₁ : shiftToTargetExponent Format.binary64 m e acc = (em₁, e₁))
    (h₂ : shiftToTargetExponent Format.binary64 em₁.roundedMantissa e₁ .exact = (em₂, b.exponent))
    (hm : em₂.mantissa = b.mantissa) :
    roundWithAccuracy Format.binary64 s m e acc = .finite s b.mantissa b.exponent hb.pos := by
  have hne : b.mantissa ≠ 0 := Nat.ne_of_gt hb.pos
  simp only [roundWithAccuracy, h₁, h₂, hm]
  rw [dif_neg hne]

/-- Rounding ends with the double that covers the number, if the mantissa has bits enough or its
exponent is beyond the smallest. -/
theorem roundWithAccuracy_eq {b : Binary} (hb : b.Canonical) (hv : b.Covers v) (s : Sign)
    {acc : Accuracy} (ht : Tells (ExtendedMantissa.ofMantissaAndAccuracy m acc) (v / 2 ^ e))
    (he : e ≤ -1074 ∨ 2 ^ (e + 52) ≤ v) :
    roundWithAccuracy Format.binary64 s m e acc = .finite s b.mantissa b.exponent hb.pos := by
  have hbounds := ht.bounds
  rw [ofMantissaAndAccuracy_mantissa] at hbounds
  obtain ⟨hle, hcases⟩ := exponent_cases hb hv hbounds.1 hbounds.2 he
  have hfirst : shiftToTargetExponent Format.binary64 m e acc =
      shiftToExponent m e acc (max (totalExponent m e - 53) (-1074)) := rfl
  generalize max (totalExponent m e - 53) (-1074) = target at hle hcases hfirst
  have hexp : e + (target - e).toNat = target := by omega
  have hshift := ht.shiftRight (target - e).toNat
  have hquot : v / 2 ^ e / 2 ^ (target - e).toNat = v / 2 ^ target := by
    rw [div_div, ← zpow_natCast, ← zpow_add₀ (by norm_num), hexp]
  rw [hquot] at hshift
  rw [shiftToExponent, hexp] at hfirst
  rcases hcases with rfl | ⟨rfl, hmin, hlt⟩
  · have hround := hshift.roundedMantissa hv.near
    refine roundWithAccuracy_of_shifts hb s _ hfirst ?_ (ofMantissaAndAccuracy_mantissa _ .exact)
    rw [hround]
    exact shiftToExponent_self _ _ _ (totalExponent_le hb)
  · -- the mantissa is rounded up to a power of two, and the second shift takes its last bit off
    have hfull := hv.mantissa_eq hb hmin hlt
    have hnear := hv.near_top hfull hmin hlt
    have hround := hshift.roundedMantissa hnear
    have hge := hb.le_exponent
    have hlog : (2 ^ 53 : Nat).log2 = 53 := Nat.log2_two_pow
    have htotal : totalExponent (2 ^ 53) (b.exponent - 1) - 53 = b.exponent := by
      rw [totalExponent, hlog]
      omega
    refine roundWithAccuracy_of_shifts hb s ⟨2 ^ 52, false, false⟩ hfirst ?_ hfull.symm
    rw [hround, shiftToTargetExponent, targetExponent_eq, htotal, max_eq_left hge, shiftToExponent]
    have hone : (b.exponent - (b.exponent - 1)).toNat = 1 := by omega
    rw [hone]
    refine Prod.ext rfl ?_
    simp

end Double

end FormulaLedger
