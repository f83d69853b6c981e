import FormulaLedger.Proofs.Decimal.Reading

set_option autoImplicit false

namespace FormulaLedger

namespace Rounding

variable {r : Rounding} {tie : Tie} {n : Nat} {e : Int}

theorem scale_eq (hr : 0 < r.denominator) (a n : Nat) (e : Int) : ∃ unit : ℚ, 0 < unit ∧
    (a * 10 ^ (-e).toNat : Nat) = (a / r.denominator : ℚ) * unit ∧
    (n * (r.denominator * 10 ^ e.toNat) : Nat) = (n * 10 ^ e : ℚ) * unit := by
  have hden : (0 : ℚ) < r.denominator := by exact_mod_cast hr
  refine ⟨r.denominator * 10 ^ (-e).toNat, by positivity, ?_, ?_⟩
  · push_cast
    field_simp
  · have hten : (10 : ℚ) ^ e.toNat = 10 ^ e * 10 ^ (-e).toNat := by
      rw [← zpow_natCast, ← zpow_natCast, ← zpow_add₀ (by norm_num)]
      congr 1
      omega
    push_cast
    rw [hten]
    ring

theorem scaled_le_iff (hr : 0 < r.denominator) (a : Nat) :
    (a * 10 ^ (-e).toNat ≤ n * (r.denominator * 10 ^ e.toNat) ↔ a / r.denominator ≤ (n * 10 ^ e : ℚ)) ∧
      (n * (r.denominator * 10 ^ e.toNat) ≤ a * 10 ^ (-e).toNat ↔
        (n * 10 ^ e : ℚ) ≤ a / r.denominator) := by
  obtain ⟨unit, hunit, ha, hn⟩ := scale_eq hr a n e
  have hcast (i j : Nat) : i ≤ j ↔ (i : ℚ) ≤ j := Nat.cast_le.symm
  rw [hcast, hcast, ha, hn]
  exact ⟨mul_le_mul_iff_of_pos_right hunit, mul_le_mul_iff_of_pos_right hunit⟩

theorem holds_scaled (hr : 0 < r.denominator) : (r.scaled e).holds n = true ↔
    ((r.low / r.denominator < (n * 10 ^ e : ℚ) ∧ (n * 10 ^ e : ℚ) < r.high / r.denominator) ∨
      r.closed = true ∧ r.low / r.denominator ≤ (n * 10 ^ e : ℚ) ∧
        (n * 10 ^ e : ℚ) ≤ r.high / r.denominator) := by
  have hlow := scaled_le_iff hr r.low (n := n) (e := e)
  have hhigh := scaled_le_iff hr r.high (n := n) (e := e)
  rw [holds, scaled]
  simp only [Nat.pow_eq]
  cases hclosed : r.closed with
  | true =>
    simp only [↓reduceIte, Bool.and_eq_true, decide_eq_true_eq, hlow.1, hhigh.2, true_and]
    constructor
    · exact .inr
    · rintro (⟨h₁, h₂⟩ | h)
      · exact ⟨h₁.le, h₂.le⟩
      · exact h
  | false =>
    simp only [Bool.false_eq_true, ↓reduceIte, Bool.and_eq_true, decide_eq_true_eq, false_and,
      or_false]
    rw [← not_le, ← not_le, hlow.2, hhigh.1, not_le, not_le]

theorem holds_of_nearest? (h : r.nearest? tie = some n) : r.holds n = true := by
  unfold nearest? at h
  dsimp only at h
  cases hbelow : r.holds (r.value / r.denominator) with
  | true =>
    cases habove : r.holds (r.value / r.denominator + 1) with
    | true =>
      -- both neighbours lie in the interval, so either choice does
      have hboth : n = r.value / r.denominator ∨ n = r.value / r.denominator + 1 := by
        rw [hbelow, habove] at h
        simp only at h
        split at h
        · exact .inl (Option.some.inj h).symm
        · split at h
          · exact .inr (Option.some.inj h).symm
          · cases tie with
            | up => exact .inr (Option.some.inj h).symm
            | even =>
              simp only [Option.some.injEq] at h
              split at h
              · exact .inl h.symm
              · exact .inr h.symm
      rcases hboth with rfl | rfl
      · exact hbelow
      · exact habove
    | false =>
      rw [hbelow, habove] at h
      rw [← Option.some.inj h]
      exact hbelow
  | false =>
    cases habove : r.holds (r.value / r.denominator + 1) with
    | true =>
      rw [hbelow, habove] at h
      rw [← Option.some.inj h]
      exact habove
    | false =>
      rw [hbelow, habove] at h
      contradiction

theorem nearest?_isSome (h : r.holds (r.value / r.denominator) = true) :
    (r.nearest? tie).isSome = true := by
  unfold nearest?
  simp only [h]
  cases r.holds (r.value / r.denominator + 1) with
  | false => rfl
  | true =>
    simp only
    split
    · rfl
    · split
      · rfl
      · cases tie with
        | up => rfl
        | even => rfl

theorem holds_of_search {steps : Nat} {d : Decimal} (h : r.search tie steps e = some d) :
    (r.scaled d.exponent).holds d.digits = true := by
  induction steps generalizing e with
  | zero => contradiction
  | succ steps ih =>
    rw [search] at h
    cases hnear : (r.scaled e).nearest? tie with
    | none =>
      rw [hnear] at h
      exact ih h
    | some n =>
      rw [hnear] at h
      rw [← Option.some.inj h]
      exact holds_of_nearest? hnear

theorem search_isSome (tie : Tie) {steps : Nat} {fine : Int} (hle : fine ≤ e) (hsteps : e < fine + steps)
    (h : ((r.scaled fine).nearest? tie).isSome = true) : (r.search tie steps e).isSome = true := by
  induction steps generalizing e with
  | zero => omega
  | succ steps ih =>
    rw [search]
    cases hnear : (r.scaled e).nearest? tie with
    | some n => rfl
    | none =>
      have hne : fine ≠ e := by
        rintro rfl
        rw [hnear] at h
        contradiction
      exact ih (by omega) (by omega)

end Rounding

namespace Binary

variable {b : Binary}

theorem denominator_pos (b : Binary) : 0 < b.rounding.denominator := Nat.pow_pos (by decide)

theorem scale_div (b : Binary) (a : ℚ) :
    a * (2 ^ (b.exponent - 2).toNat : Nat) / (2 ^ (2 - b.exponent).toNat : Nat) =
      a / 4 * 2 ^ b.exponent := by
  have hpow : (2 : ℚ) ^ (b.exponent - 2).toNat =
      2 ^ b.exponent * 2 ^ (-2 : ℤ) * 2 ^ (2 - b.exponent).toNat := by
    rw [← zpow_natCast, ← zpow_natCast, ← zpow_add₀ (by norm_num), ← zpow_add₀ (by norm_num)]
    congr 1
    omega
  push_cast
  rw [hpow, zpow_neg]
  field_simp
  norm_num

theorem rounding_low (hb : b.Canonical) :
    (b.rounding.low : ℚ) / b.rounding.denominator = (b.mantissa - b.reach) * 2 ^ b.exponent := by
  have hpos := hb.pos
  rw [rounding]
  simp only [Nat.pow_eq]
  by_cases hedge : b.mantissa = 2 ^ 52 ∧ b.exponent ≠ -1074
  · rw [if_pos hedge, Nat.cast_mul, scale_div, Nat.cast_sub (by omega), reach, if_pos hedge]
    push_cast
    ring
  · rw [if_neg hedge, Nat.cast_mul, scale_div, Nat.cast_sub (by omega), reach, if_neg hedge]
    push_cast
    ring

theorem rounding_high (b : Binary) :
    (b.rounding.high : ℚ) / b.rounding.denominator = (b.mantissa + 1 / 2) * 2 ^ b.exponent := by
  rw [rounding]
  simp only [Nat.pow_eq]
  rw [Nat.cast_mul, scale_div]
  push_cast
  ring

theorem rounding_value (b : Binary) :
    (b.rounding.value : ℚ) / b.rounding.denominator = b.value := by
  rw [rounding]
  simp only [Nat.pow_eq]
  rw [Nat.cast_mul, scale_div, value]
  push_cast
  ring

theorem rounding_holds_iff (hb : b.Canonical) {n : Nat} {e : Int} :
    (b.rounding.scaled e).holds n = true ↔ b.Covers (n * 10 ^ e) := by
  have hclosed : (b.rounding.closed = true) = (b.mantissa % 2 = 0) := by simp [rounding]
  rw [Rounding.holds_scaled b.denominator_pos, rounding_low hb, rounding_high, hclosed, Covers]

theorem holds_of_fine (hb : b.Canonical) {e : Int} (hfine : 10 ^ e < b.reach * 2 ^ b.exponent) :
    (b.rounding.scaled e).holds
      ((b.rounding.scaled e).value / (b.rounding.scaled e).denominator) = true := by
  rw [rounding_holds_iff hb]
  generalize hn : (b.rounding.scaled e).value / (b.rounding.scaled e).denominator = n
  have hpos : 0 < (b.rounding.scaled e).denominator :=
    Nat.mul_pos b.denominator_pos (Nat.pow_pos (by decide))
  have hle : n * (b.rounding.scaled e).denominator ≤ (b.rounding.scaled e).value := by
    rw [← hn]
    exact Nat.div_mul_le_self _ _
  have hge : (b.rounding.scaled e).value ≤ (n + 1) * (b.rounding.scaled e).denominator := by
    rw [← hn, Nat.add_one_mul]
    exact (Nat.lt_div_mul_add hpos).le
  have hbelow := (Rounding.scaled_le_iff b.denominator_pos b.rounding.value).2.1 hle
  have habove := (Rounding.scaled_le_iff b.denominator_pos b.rounding.value).1.1 hge
  rw [rounding_value, value] at hbelow habove
  push_cast at habove
  have hu : (0 : ℚ) < 2 ^ b.exponent := by positivity
  left
  constructor
  · linarith
  · linarith

theorem decade_bound (hb : b.Canonical) : -324 ≤ b.decade := by
  have hle := hb.le_exponent
  rw [decade]
  omega

end Binary

namespace Decimal

variable {b : Binary}

/-- The shortest decimal of a double rounds to the double. -/
theorem shortest_covers (tie : Tie) (s : Float.Model.UnpackedFloat.Sign) (hb : b.Canonical) :
    b.Covers (shortest tie (Double.of s b hb)).value ∧
      0 < (shortest tie (Double.of s b hb)).digits := by
  have hne : b.mantissa ≠ 0 := Nat.ne_of_gt hb.pos
  have hsome := Rounding.search_isSome tie (b.decade_bound hb)
    (by omega : b.decade < -324 + (b.decade + 325).toNat)
    (Rounding.nearest?_isSome (Binary.holds_of_fine hb (Binary.finest hb)))
  obtain ⟨d, hd⟩ := Option.isSome_iff_exists.1 hsome
  have hshortest : shortest tie (Double.of s b hb) = d := by
    rw [shortest, Double.ofFloat_of]
    simp only [hne, ↓reduceIte, hd, Option.getD_some]
  have hcovers : b.Covers d.value := (Binary.rounding_holds_iff hb).1 (Rounding.holds_of_search hd)
  rw [hshortest]
  exact ⟨hcovers, value_pos_iff.1 (hcovers.pos hb)⟩

end Decimal

end FormulaLedger
