import FormulaLedger.Proofs.Double.Fields

set_option autoImplicit false

namespace FormulaLedger

open Float.Model Float.Model.UnpackedFloat

namespace Double

def of (s : Sign) (b : Binary) (hb : b.Canonical) : Float :=
  .ofModel (.pack (.finite s b.mantissa b.exponent hb.pos))

def word (x : Float) : Word := x.toBits.toBitVec

theorem unpack_of (s : Sign) {b : Binary} (hb : b.Canonical) :
    (of s b hb).toModel.unpack = .finite s b.mantissa b.exponent hb.pos :=
  unpack_pack s hb

theorem unpack_zero : (0 : Float).toModel.unpack = .zero .positive := rfl

theorem eq_of_unpack {x y : Float} (h : x.toModel.unpack = y.toModel.unpack) : x = y := by
  have hx := pack_unpack x.toModel
  have hy := pack_unpack y.toModel
  rw [h, hy] at hx
  exact congrArg Float.ofModel hx.symm

theorem zero_or_of {x : Float} (hx : x.isFinite = true) :
    (∃ s, x.toModel.unpack = .zero s) ∨ ∃ s b, ∃ hb : Binary.Canonical b, x = of s b hb := by
  have hfin : x.toModel.unpack.isFinite = true := hx
  cases hu : x.toModel.unpack with
  | notANumber =>
    rw [hu] at hfin
    contradiction
  | infinity s =>
    rw [hu] at hfin
    contradiction
  | zero s => exact .inl ⟨s, rfl⟩
  | finite s m e h =>
    obtain ⟨_, _, hc⟩ := fields_of_unpack hu
    refine .inr ⟨s, ⟨m, e⟩, hc, eq_of_unpack ?_⟩
    rw [hu, unpack_of]

section of

variable (s : Sign) {b : Binary} (hb : b.Canonical)

@[simp] theorem isFinite_of : (of s b hb).isFinite = true := by
  have h : (of s b hb).isFinite = (of s b hb).toModel.unpack.isFinite := rfl
  rw [h, unpack_of]
  rfl

@[simp] theorem isNaN_of : (of s b hb).isNaN = false := by
  have h : (of s b hb).isNaN = (of s b hb).toModel.unpack.isNaN := rfl
  rw [h, unpack_of]
  rfl

@[simp] theorem isInf_of : (of s b hb).isInf = false := by
  have h : (of s b hb).isInf = (of s b hb).toModel.unpack.isInf := rfl
  rw [h, unpack_of]
  rfl

theorem fields_of : Binary.ofFloat (of s b hb) = b ∧
    s = Sign.ofBitVec (unpackSign (word (of s b hb))) := by
  obtain ⟨hf, hs, _⟩ := fields_of_unpack (unpack_of s hb)
  exact ⟨hf, hs⟩

@[simp] theorem ofFloat_of : Binary.ofFloat (of s b hb) = b := (fields_of s hb).1

theorem isNegative_of : Number.isNegative (of s b hb) = (s == .negative) := by
  have hs := (fields_of s hb).2
  have hsign := unpackSign_toNat (word (of s b hb))
  have hlt : (of s b hb).toBits.toNat < 2 ^ 64 := (of s b hb).toBits.toNat_lt
  have hbits : (word (of s b hb)).toNat = (of s b hb).toBits.toNat := rfl
  have hnat : s.toBitVec.toNat = (of s b hb).toBits.toNat / 2 ^ 63 := by
    rw [hs, toBitVec_ofBitVec, ← hs, hsign, hbits]
    omega
  rw [Number.isNegative, Nat.pow_eq, ← hnat]
  cases s with
  | negative => rfl
  | positive => rfl

theorem neg_of : -of s b hb = of (-s) b hb := by
  have h : (-of s b hb) = .ofModel (.pack (of s b hb).toModel.unpack.neg) := rfl
  rw [h, unpack_of, UnpackedFloat.neg]
  rfl

theorem zero_sub_of : 0 - of s b hb = of (-s) b hb := by
  have h : (0 - of s b hb) = .ofModel (.pack (UnpackedFloat.sub Format.binary64
      (0 : Float).toModel.unpack (of s b hb).toModel.unpack)) := rfl
  rw [h, unpack_zero, unpack_of, UnpackedFloat.sub]
  rfl

theorem beq_zero_of : (of s b hb == 0) = false := by
  have h : (of s b hb == 0) =
      ((of s b hb).toModel.unpack.compare (0 : Float).toModel.unpack == some .eq) := rfl
  rw [h, unpack_of, unpack_zero]
  cases s with
  | negative => rfl
  | positive => rfl

theorem of_lt_zero : of s b hb < 0 ↔ s = .negative := by
  have h : (of s b hb < 0) = (decide ((of s b hb).toModel < (0 : Float).toModel) = true) := rfl
  have h' : ((of s b hb).toModel < (0 : Float).toModel) =
      (((of s b hb).toModel.unpack.compare (0 : Float).toModel.unpack == some .lt) = true) := rfl
  rw [h, decide_eq_true_iff, h', unpack_of, unpack_zero]
  cases s with
  | negative => simp [UnpackedFloat.compare]
  | positive => simp [UnpackedFloat.compare]

end of

theorem beq_zero_of_unpack {x : Float} {s : Sign} (h : x.toModel.unpack = .zero s) :
    (x == 0) = true := by
  have h' : (x == 0) = (x.toModel.unpack.compare (0 : Float).toModel.unpack == some .eq) := rfl
  rw [h', h, unpack_zero]
  rfl

theorem unpack_neg_zero : (-0 : Float).toModel.unpack = .zero .negative := rfl

theorem beq_zero_iff {x : Float} : (x == 0) = true ↔ x = 0 ∨ x = -0 := by
  constructor
  · intro h
    have h' : (x == 0) = (x.toModel.unpack.compare (0 : Float).toModel.unpack == some .eq) := rfl
    rw [h', unpack_zero] at h
    cases hu : x.toModel.unpack with
    | zero s =>
      cases s with
      | positive => exact .inl (eq_of_unpack hu)
      | negative => exact .inr (eq_of_unpack (hu.trans unpack_neg_zero.symm))
    | notANumber =>
      rw [hu] at h
      contradiction
    | infinity s =>
      rw [hu] at h
      cases s <;> contradiction
    | finite s m e hm =>
      rw [hu] at h
      cases s <;> contradiction
  · rintro (rfl | rfl)
    · exact beq_zero_of_unpack unpack_zero
    · exact beq_zero_of_unpack unpack_neg_zero

end Double

end FormulaLedger
