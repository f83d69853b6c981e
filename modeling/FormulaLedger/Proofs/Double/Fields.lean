import FormulaLedger.Decimal.Number
import Mathlib

set_option autoImplicit false

namespace FormulaLedger

open Float.Model Float.Model.UnpackedFloat

/-- The magnitudes of finite doubles: 53 bits with the leading one set, or the smallest exponent. -/
structure Binary.Canonical (b : Binary) : Prop where
  pos : 0 < b.mantissa
  mantissa_lt : b.mantissa < 2 ^ 53
  le_exponent : -1074 ≤ b.exponent
  exponent_le : b.exponent ≤ 971
  full : 2 ^ 52 ≤ b.mantissa ∨ b.exponent = -1074

namespace Double

abbrev Word : Type := BitVec Format.binary64.numBits

theorem unpackMantissa_toNat (b : Word) : (unpackMantissa b).toNat = b.toNat % 2 ^ 52 := by
  simp [unpackMantissa]

theorem unpackExponent_toNat (b : Word) :
    (unpackExponent b).toNat = b.toNat / 2 ^ 52 % 2 ^ 11 := by
  simp [unpackExponent, Nat.shiftRight_eq_div_pow]

theorem unpackSign_toNat (b : Word) : (unpackSign b).toNat = b.toNat / 2 ^ 63 % 2 := by
  simp [unpackSign, Nat.shiftRight_eq_div_pow]

theorem packComponents_toNat (s : Sign) (e : BitVec 11) (m : BitVec 52) :
    (packComponents Format.binary64 s e m).toNat =
      s.toBitVec.toNat * 2 ^ 63 + e.toNat * 2 ^ 52 + m.toNat := by
  have he := e.isLt
  have hm := m.isLt
  unfold packComponents
  rw [BitVec.toNat_append, BitVec.toNat_append, ← Nat.shiftLeft_add_eq_or_of_lt hm,
    ← Nat.shiftLeft_add_eq_or_of_lt he, Nat.shiftLeft_eq, Nat.shiftLeft_eq]
  simp
  omega

theorem toBitVec_ofBitVec (b : BitVec 1) : (Sign.ofBitVec b).toBitVec = b := by
  have hb : b = 0#1 ∨ b = 1#1 := by
    have hlt := b.isLt
    have hcases : b.toNat = 0 ∨ b.toNat = 1 := by omega
    cases hcases with
    | inl h => exact .inl (BitVec.eq_of_toNat_eq h)
    | inr h => exact .inr (BitVec.eq_of_toNat_eq h)
  cases hb with
  | inl h => simp [h, Sign.ofBitVec, Sign.toBitVec]
  | inr h => simp [h, Sign.ofBitVec, Sign.toBitVec]

theorem ofBitVec_toBitVec (s : Sign) : Sign.ofBitVec s.toBitVec = s := by
  cases s with
  | negative => rfl
  | positive => rfl

theorem packComponents_unpack (b : Word) :
    packComponents Format.binary64 (Sign.ofBitVec (unpackSign b)) (unpackExponent b)
      (unpackMantissa b) = b := by
  have hlt : b.toNat < 2 ^ 64 := b.isLt
  apply BitVec.eq_of_toNat_eq
  rw [packComponents_toNat, toBitVec_ofBitVec, unpackSign_toNat, unpackExponent_toNat,
    unpackMantissa_toNat]
  omega

theorem unpackSign_packComponents (s : Sign) (e : BitVec 11) (m : BitVec 52) :
    unpackSign (packComponents Format.binary64 s e m) = s.toBitVec := by
  have he := e.isLt
  have hm := m.isLt
  have hs := s.toBitVec.isLt
  apply BitVec.eq_of_toNat_eq
  rw [unpackSign_toNat, packComponents_toNat]
  omega

theorem hidden_append (m : BitVec 52) : (1#1 ++ m).toNat = 2 ^ 52 + m.toNat := by
  rw [BitVec.toNat_append, ← Nat.shiftLeft_add_eq_or_of_lt m.isLt, Nat.shiftLeft_eq]
  rfl

theorem exponent_eq_ones_iff (b : Word) :
    unpackExponent b = -1#11 ↔ b.toNat / 2 ^ 52 % 2 ^ 11 = 2047 := by
  rw [← unpackExponent_toNat, ← BitVec.toNat_inj]
  simp

theorem exponent_eq_zero_iff (b : Word) :
    unpackExponent b = 0#11 ↔ b.toNat / 2 ^ 52 % 2 ^ 11 = 0 := by
  rw [← unpackExponent_toNat, ← BitVec.toNat_inj]
  simp

def fields (n : Nat) : Binary :=
  let fraction : Nat := n % 2 ^ 52
  let field : Nat := n / 2 ^ 52 % 2 ^ 11
  if field = 0 then ⟨fraction, -1074⟩ else ⟨2 ^ 52 + fraction, (field : Int) - 1075⟩

/-- The two ways of reading the fields agree on finite doubles, and give a canonical magnitude. -/
theorem fields_of_unpack {b : Word} {s : Sign} {m : Nat} {e : Int} {h : 0 < m}
    (hu : UnpackedFloat.unpack Format.binary64 b = .finite s m e h) :
    fields b.toNat = ⟨m, e⟩ ∧ s = Sign.ofBitVec (unpackSign b) ∧ (⟨m, e⟩ : Binary).Canonical := by
  have hfraction : b.toNat % 2 ^ 52 < 2 ^ 52 := Nat.mod_lt _ (by decide)
  have hfield : b.toNat / 2 ^ 52 % 2 ^ 11 < 2 ^ 11 := Nat.mod_lt _ (by decide)
  have hbias : (Format.binary64.exponentBias : Int) = 1023 := rfl
  rw [UnpackedFloat.unpack] at hu
  dsimp only at hu
  split at hu
  · split at hu <;> contradiction
  · rename_i hones
    have hones : ¬ b.toNat / 2 ^ 52 % 2 ^ 11 = 2047 := fun h =>
      hones ((exponent_eq_ones_iff b).2 h)
    split at hu
    · rename_i hzero
      have hzero := (exponent_eq_zero_iff b).1 hzero
      split at hu
      · contradiction
      · obtain ⟨rfl, rfl, rfl⟩ := UnpackedFloat.finite.inj hu
        rw [unpackMantissa_toNat] at h
        rw [unpackMantissa_toNat, unpackExponent_toNat, hzero, hbias]
        refine ⟨if_pos hzero, rfl, ?_⟩
        exact ⟨h, Nat.lt_trans hfraction (by decide), by simp, by simp, .inr rfl⟩
    · rename_i hzero
      have hzero : ¬ b.toNat / 2 ^ 52 % 2 ^ 11 = 0 := fun h =>
        hzero ((exponent_eq_zero_iff b).2 h)
      obtain ⟨rfl, rfl, rfl⟩ := UnpackedFloat.finite.inj hu
      rw [hidden_append, unpackMantissa_toNat, unpackExponent_toNat, hbias]
      refine ⟨?_, rfl, ?_⟩
      · rw [fields, if_neg hzero]
        rfl
      · refine ⟨?_, ?_, ?_, ?_, .inl (Nat.le_add_right _ _)⟩
        · exact Nat.add_pos_left (by decide) _
        · show 2 ^ 52 + b.toNat % 2 ^ 52 < 2 ^ 53
          omega
        · show -1074 ≤ ((b.toNat / 2 ^ 52 % 2 ^ 11 : Nat) : Int) - (1023 + 52)
          omega
        · show ((b.toNat / 2 ^ 52 % 2 ^ 11 : Nat) : Int) - (1023 + 52) ≤ 971
          omega

theorem log2_add_one_eq_iff {m : Nat} (hm : 0 < m) (hlt : m < 2 ^ 53) :
    m.log2 + 1 = 53 ↔ 2 ^ 52 ≤ m := by
  have hne : m ≠ 0 := Nat.ne_of_gt hm
  have hlog : m.log2 < 53 := (Nat.log2_lt hne).2 hlt
  rw [← Nat.le_log2 hne]
  omega

theorem unpack_packComponents_normal (s : Sign) (f : BitVec 11) (m : BitVec 52)
    (hones : f.toNat ≠ 2047) (hzero : f.toNat ≠ 0) (h : 0 < 2 ^ 52 + m.toNat) :
    UnpackedFloat.unpack Format.binary64 (packComponents Format.binary64 s f m) =
      .finite s (2 ^ 52 + m.toNat) ((f.toNat : Int) - 1075) h := by
  have hones' : ¬ f = -1#11 := fun he => hones (by rw [he]; rfl)
  have hzero' : ¬ f = 0#11 := fun he => hzero (by rw [he]; rfl)
  have hbias : (Format.binary64.exponentBias : Int) = 1023 := rfl
  rw [UnpackedFloat.unpack]
  simp only [unpackExponent_packComponents, unpackMantissa_packComponents,
    unpackSign_packComponents, hones', hzero', ↓reduceIte, ofBitVec_toBitVec, hidden_append, hbias]
  rfl

theorem unpack_packComponents_subnormal (s : Sign) (m : BitVec 52) (h : 0 < m.toNat) :
    UnpackedFloat.unpack Format.binary64 (packComponents Format.binary64 s 0#11 m) =
      .finite s m.toNat (-1074) h := by
  have hzero : ¬ m = 0#52 := fun he => Nat.ne_of_gt h (by rw [he]; rfl)
  have hones : ¬ (0#11 = -1#11) := by decide
  rw [UnpackedFloat.unpack]
  simp only [unpackExponent_packComponents, unpackMantissa_packComponents,
    unpackSign_packComponents, hones, hzero, ↓reduceIte, ↓reduceDIte, ofBitVec_toBitVec]
  rfl

theorem pack_canonical (s : Sign) {b : Binary} (hb : b.Canonical) :
    UnpackedFloat.pack Format.binary64 (.finite s b.mantissa b.exponent hb.pos) =
      if 2 ^ 52 ≤ b.mantissa then
        packComponents Format.binary64 s (BitVec.ofNat 11 (b.exponent + 1075).toNat)
          (BitVec.ofNat 52 b.mantissa)
      else packComponents Format.binary64 s 0#11 (BitVec.ofNat 52 b.mantissa) := by
  have hbias : (Format.binary64.exponentBias : Int) = 1023 := rfl
  have hbits : Format.binary64.mantissaBits = 53 := rfl
  have hle := hb.exponent_le
  have hfinite : ¬ 2 ^ 11 ≤ (b.exponent + 1023 + 52).toNat + 1 := by omega
  have hadd : b.exponent + 1023 + 52 = b.exponent + 1075 := by omega
  have hwidth : ((52 : Nat) : Int) = 52 := rfl
  rw [UnpackedFloat.pack]
  simp only [hbias, hbits, hwidth, log2_add_one_eq_iff hb.pos hb.mantissa_lt]
  rw [if_neg hfinite, hadd]

theorem unpack_pack (s : Sign) {b : Binary} (hb : b.Canonical) :
    UnpackedFloat.unpack Format.binary64 (UnpackedFloat.pack Format.binary64
      (.finite s b.mantissa b.exponent hb.pos)) = .finite s b.mantissa b.exponent hb.pos := by
  obtain ⟨m, e⟩ := b
  have hlt : m < 2 ^ 53 := hb.mantissa_lt
  have hge : -1074 ≤ e := hb.le_exponent
  have hle : e ≤ 971 := hb.exponent_le
  rw [pack_canonical s hb]
  by_cases hm : 2 ^ 52 ≤ m
  · have hfield : (BitVec.ofNat 11 (e + 1075).toNat).toNat = (e + 1075).toNat := by
      rw [BitVec.toNat_ofNat]
      omega
    have hfraction : 2 ^ 52 + (BitVec.ofNat 52 m).toNat = m := by
      rw [BitVec.toNat_ofNat]
      omega
    rw [if_pos hm, unpack_packComponents_normal s _ _ (by rw [hfield]; omega)
      (by rw [hfield]; omega) (by omega)]
    simp only [hfraction, hfield, UnpackedFloat.finite.injEq, true_and]
    omega
  · have he : e = -1074 := hb.full.resolve_left hm
    have hfraction : (BitVec.ofNat 52 m).toNat = m := by
      rw [BitVec.toNat_ofNat]
      omega
    rw [if_neg hm, unpack_packComponents_subnormal s _ (by rw [hfraction]; exact hb.pos)]
    simp only [hfraction, he]

theorem pack_unpack_finite {b : Word} {s : Sign} {m : Nat} {e : Int} {h : 0 < m}
    (hu : UnpackedFloat.unpack Format.binary64 b = .finite s m e h) :
    UnpackedFloat.pack Format.binary64 (.finite s m e h) = b := by
  obtain ⟨hfields, rfl, hc⟩ := fields_of_unpack hu
  have hfraction : b.toNat % 2 ^ 52 < 2 ^ 52 := Nat.mod_lt _ (by decide)
  have hpack := pack_canonical (Sign.ofBitVec (unpackSign b)) hc
  have hb := packComponents_unpack b
  rw [fields] at hfields
  split at hfields
  · rename_i hzero
    obtain ⟨rfl, rfl⟩ := Binary.mk.inj hfields
    rw [if_neg (Nat.not_le_of_lt hfraction)] at hpack
    have he : unpackExponent b = 0#11 := (exponent_eq_zero_iff b).2 hzero
    have hm : unpackMantissa b = BitVec.ofNat 52 (b.toNat % 2 ^ 52) := by
      apply BitVec.eq_of_toNat_eq
      rw [unpackMantissa_toNat, BitVec.toNat_ofNat, Nat.mod_mod]
    rw [he, hm] at hb
    exact hpack.trans hb
  · obtain ⟨rfl, rfl⟩ := Binary.mk.inj hfields
    rw [if_pos (Nat.le_add_right _ _)] at hpack
    have he : unpackExponent b =
        BitVec.ofNat 11 (((b.toNat / 2 ^ 52 % 2 ^ 11 : Nat) : Int) - 1075 + 1075).toNat := by
      apply BitVec.eq_of_toNat_eq
      rw [unpackExponent_toNat, BitVec.toNat_ofNat]
      change _ = _ % 2 ^ 11
      omega
    have hm : unpackMantissa b = BitVec.ofNat 52 (2 ^ 52 + b.toNat % 2 ^ 52) := by
      apply BitVec.eq_of_toNat_eq
      rw [unpackMantissa_toNat, BitVec.toNat_ofNat]
      change _ = _ % 2 ^ 52
      omega
    rw [he, hm] at hb
    exact hpack.trans hb

theorem pack_unpack_word {b : Word} (hv : Format.binary64.Valid b) :
    UnpackedFloat.pack Format.binary64 (UnpackedFloat.unpack Format.binary64 b) = b := by
  have hb := packComponents_unpack b
  cases hu : UnpackedFloat.unpack Format.binary64 b with
  | finite s m e h => exact pack_unpack_finite hu
  | notANumber =>
    rw [UnpackedFloat.unpack] at hu
    dsimp only at hu
    split at hu
    · rename_i hones
      split at hu
      · contradiction
      · rename_i hzero
        exact (hv.eq_packedNaN hones hzero).symm
    · split at hu
      · split at hu <;> contradiction
      · contradiction
  | infinity s =>
    rw [UnpackedFloat.unpack] at hu
    dsimp only at hu
    split at hu
    · rename_i hones
      split at hu
      · rename_i hzero
        obtain rfl := UnpackedFloat.infinity.inj hu
        rw [hones, hzero] at hb
        exact hb
      · contradiction
    · split at hu
      · split at hu <;> contradiction
      · contradiction
  | zero s =>
    rw [UnpackedFloat.unpack] at hu
    dsimp only at hu
    split at hu
    · split at hu <;> contradiction
    · split at hu
      · rename_i hzero
        split at hu
        · rename_i hm
          obtain rfl := UnpackedFloat.zero.inj hu
          rw [hzero, hm] at hb
          exact hb
        · contradiction
      · contradiction

theorem pack_unpack (f : Float.Model) : Float.Model.pack f.unpack = f := by
  have h := pack_unpack_word f.valid
  obtain ⟨bits, hv⟩ := f
  simp only [Float.Model.pack, Float.Model.unpack, Float.Model.mk.injEq]
  exact congrArg UInt64.ofBitVec h

end Double

end FormulaLedger
