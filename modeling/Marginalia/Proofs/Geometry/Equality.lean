import Mathlib.Algebra.Group.Nat.Defs
import Marginalia.Proofs.Geometry.Comparison

/-!
# Equal coordinates

Numbers other than zero that are equal as numbers have the same bits. The bits of a number are its
sign, its exponent field and its fraction; a finite number that is not zero has one representation
in these, infinity has one for each sign, and only zero has two that are equal.
-/

namespace Marginalia

open Float.Model

namespace Scalar

/-- The exponent field and the fraction of a number that is not zero; a number with an empty
exponent field has no leading one. -/
structure HasFields (bits : BitVec Format.binary32.numBits) (sign : UnpackedFloat.Sign)
    (mantissa : Nat) (exponent : Int) : Prop where
  sign : sign = .ofBitVec (UnpackedFloat.unpackSign bits)
  value : (UnpackedFloat.unpackExponent bits).toNat = 0 ∧
      mantissa = (UnpackedFloat.unpackMantissa bits).toNat ∧ exponent = 1 - 150 ∨
    (UnpackedFloat.unpackExponent bits).toNat ≠ 0 ∧
      mantissa = 2 ^ 23 + (UnpackedFloat.unpackMantissa bits).toNat ∧
      exponent = (UnpackedFloat.unpackExponent bits).toNat - 150

theorem hasFields_of_unpack {bits : BitVec Format.binary32.numBits} {sign : UnpackedFloat.Sign}
    {mantissa : Nat} {exponent : Int} {hpos : 0 < mantissa}
    (h : UnpackedFloat.unpack .binary32 bits = .finite sign mantissa exponent hpos) :
    HasFields bits sign mantissa exponent := by
  delta UnpackedFloat.unpack at h
  dsimp only at h
  by_cases hones : UnpackedFloat.unpackExponent bits = -1#8
  · rw [if_pos hones] at h
    by_cases hempty : UnpackedFloat.unpackMantissa bits = 0#23
    · rw [if_pos hempty] at h
      cases h
    · rw [if_neg hempty] at h
      cases h
  rw [if_neg hones] at h
  by_cases hfield : UnpackedFloat.unpackExponent bits = 0#8
  · rw [if_pos hfield] at h
    by_cases hempty : UnpackedFloat.unpackMantissa bits = 0#23
    · rw [dif_pos hempty] at h
      cases h
    · rw [dif_neg hempty] at h
      cases h
      refine ⟨rfl, Or.inl ⟨?_, rfl, ?_⟩⟩ <;> rw [hfield] <;> rfl
  · rw [if_neg hfield] at h
    cases h
    refine ⟨rfl, Or.inr ⟨fun hzero ↦ hfield (BitVec.eq_of_toNat_eq hzero), ?_, rfl⟩⟩
    rw [BitVec.toNat_append, ← Nat.shiftLeft_add_eq_or_of_lt (BitVec.isLt _)]
    rfl

/-- Sign, exponent field and fraction make up the bits. -/
theorem eq_of_fields {a b : BitVec Format.binary32.numBits}
    (hsign : UnpackedFloat.unpackSign a = UnpackedFloat.unpackSign b)
    (hexponent : (UnpackedFloat.unpackExponent a).toNat = (UnpackedFloat.unpackExponent b).toNat)
    (hmantissa : (UnpackedFloat.unpackMantissa a).toNat = (UnpackedFloat.unpackMantissa b).toNat) :
    a = b := by
  have hsign' : a.toNat >>> 31 % 2 = b.toNat >>> 31 % 2 := congrArg BitVec.toNat hsign
  simp only [UnpackedFloat.unpackExponent, UnpackedFloat.unpackMantissa,
    BitVec.toNat_cast, BitVec.extractLsb_toNat, Nat.shiftRight_eq_div_pow] at *
  refine BitVec.eq_of_toNat_eq ?_
  have ha : a.toNat < 2 ^ 32 := a.isLt
  have hb : b.toNat < 2 ^ 32 := b.isLt
  omega

theorem sign_injective {a b : BitVec 1}
    (h : UnpackedFloat.Sign.ofBitVec a = UnpackedFloat.Sign.ofBitVec b) : a = b := by
  unfold UnpackedFloat.Sign.ofBitVec at h
  split at h <;> split at h
  · bv_omega
  · cases h
  · cases h
  · bv_omega

/-- Numbers with the same fields are the same. -/
theorem HasFields.unique {a b : BitVec Format.binary32.numBits} {sign : UnpackedFloat.Sign}
    {mantissa : Nat} {exponent : Int} (ha : HasFields a sign mantissa exponent)
    (hb : HasFields b sign mantissa exponent) : a = b := by
  have hsign := sign_injective (ha.sign.symm.trans hb.sign)
  have hma := (UnpackedFloat.unpackMantissa a).isLt
  have hmb := (UnpackedFloat.unpackMantissa b).isLt
  have hea := ha.value
  have heb := hb.value
  simp only [Format.binary32] at hma hmb
  refine eq_of_fields hsign ?_ ?_ <;> omega

theorem eq_of_bits {a b : Scalar} (h : a.toBits.toBitVec = b.toBits.toBitVec) : a = b := by
  obtain ⟨⟨a, ha⟩⟩ := a
  obtain ⟨⟨b, hb⟩⟩ := b
  obtain rfl : a = b := UInt32.eq_of_toBitVec_eq h
  rfl

/-- Two numbers that compare as equal, one of them finite and not zero, are the same. -/
theorem eq_of_compare {a b : Scalar} {sign : UnpackedFloat.Sign} {mantissa : Nat} {exponent : Int}
    {hpos : 0 < mantissa} (ha : a.toModel.unpack = .finite sign mantissa exponent hpos)
    (h : a.toModel.unpack.compare b.toModel.unpack = some .eq) : a = b := by
  have hb : b.toModel.unpack = .finite sign mantissa exponent hpos := by
    rw [ha] at h
    cases hunpack : b.toModel.unpack with
    | notANumber => rw [hunpack] at h; cases sign <;> cases h
    | infinity other => rw [hunpack] at h; cases sign <;> cases other <;> cases h
    | zero other => rw [hunpack] at h; cases sign <;> cases h
    | finite sign' mantissa' exponent' hpos' =>
      rw [hunpack] at h
      delta UnpackedFloat.compare at h
      cases sign <;> cases sign' <;> dsimp only at h <;> simp only [Option.some.injEq,
        reduceCtorEq, Ordering.swap_eq_eq, Ordering.then_eq_eq,
        Std.LawfulEqCmp.compare_eq_iff_eq] at h
      all_goals
        obtain ⟨rfl, rfl⟩ := h
        rfl
  have hbits : a.toBits.toBitVec = b.toBits.toBitVec :=
    (hasFields_of_unpack ha).unique (hasFields_of_unpack hb)
  exact eq_of_bits hbits

/-- Infinity has one representation for each sign. -/
theorem fields_of_unpack_infinity {bits : BitVec Format.binary32.numBits}
    {sign : UnpackedFloat.Sign} (h : UnpackedFloat.unpack .binary32 bits = .infinity sign) :
    sign = .ofBitVec (UnpackedFloat.unpackSign bits) ∧
      UnpackedFloat.unpackExponent bits = -1#8 ∧ UnpackedFloat.unpackMantissa bits = 0#23 := by
  delta UnpackedFloat.unpack at h
  dsimp only at h
  by_cases hones : UnpackedFloat.unpackExponent bits = -1#8
  · rw [if_pos hones] at h
    by_cases hempty : UnpackedFloat.unpackMantissa bits = 0#23
    · rw [if_pos hempty] at h
      cases h
      exact ⟨rfl, hones, hempty⟩
    · rw [if_neg hempty] at h
      cases h
  rw [if_neg hones] at h
  by_cases hfield : UnpackedFloat.unpackExponent bits = 0#8
  · rw [if_pos hfield] at h
    by_cases hempty : UnpackedFloat.unpackMantissa bits = 0#23
    · rw [dif_pos hempty] at h
      cases h
    · rw [dif_neg hempty] at h
      cases h
  · rw [if_neg hfield] at h
    cases h

theorem eq_of_infinity {a b : Scalar} {sign : UnpackedFloat.Sign}
    (ha : a.toModel.unpack = .infinity sign) (hb : b.toModel.unpack = .infinity sign) : a = b := by
  obtain ⟨hsign, hexponent, hmantissa⟩ := fields_of_unpack_infinity ha
  obtain ⟨hsign', hexponent', hmantissa'⟩ := fields_of_unpack_infinity hb
  exact eq_of_bits (eq_of_fields (sign_injective (hsign.symm.trans hsign'))
    (congrArg BitVec.toNat (hexponent.trans hexponent'.symm))
    (congrArg BitVec.toNat (hmantissa.trans hmantissa'.symm)))

/-- Two numbers are the same; the two zeros count as one. -/
def Same (a b : Scalar) : Prop := a = b ∨ (a == 0) = true ∧ (b == 0) = true

instance (a b : Scalar) : Decidable (a.Same b) :=
  inferInstanceAs (Decidable (a = b ∨ (a == 0) = true ∧ (b == 0) = true))

theorem beq_iff_compare (a b : Scalar) :
    (a == b) = true ↔ a.toModel.unpack.compare b.toModel.unpack = some .eq := by
  change (a.toModel.unpack.compare b.toModel.unpack == some .eq) = true ↔ _
  exact beq_iff_eq

/-- Numbers are equal to themselves. -/
theorem beq_self {a : Scalar} (ha : a.isNaN = false) : (a == a) = true := by
  obtain ⟨order, horder⟩ :=
    Option.isSome_iff_exists.mp (unpacked_compare_isSome a.toModel.unpack a.toModel.unpack ha ha)
  have hswap := unpacked_compare_swap a.toModel.unpack a.toModel.unpack
  rw [beq_iff_compare]
  rw [horder] at hswap ⊢
  cases order with
  | lt => cases hswap
  | eq => rfl
  | gt => cases hswap

theorem beq_zero_iff (a : Scalar) : (a == 0) = true ↔ ∃ sign, a.toModel.unpack = .zero sign := by
  have hzero : (0 : Scalar).toModel.unpack = .zero .positive := rfl
  rw [beq_iff_compare, hzero]
  constructor
  · intro h
    cases hunpack : a.toModel.unpack with
    | zero sign => exact ⟨sign, rfl⟩
    | notANumber => rw [hunpack] at h; cases h
    | infinity sign => rw [hunpack] at h; cases sign <;> cases h
    | finite sign mantissa exponent hpos => rw [hunpack] at h; cases sign <;> cases h
  · rintro ⟨sign, h⟩
    rw [h]
    rfl

/-- Numbers are equal as numbers when they are the same. -/
theorem beq_iff_same {a b : Scalar} (hb : b.isNaN = false) : (a == b) = true ↔ a.Same b := by
  constructor
  · intro h
    have hcompare := (beq_iff_compare a b).mp h
    cases ha : a.toModel.unpack with
    | notANumber =>
      rw [ha] at hcompare
      cases hcompare
    | infinity sign =>
      cases hb : b.toModel.unpack with
      | infinity other =>
        refine .inl (eq_of_infinity ha ?_)
        rw [ha, hb] at hcompare
        cases sign <;> cases other <;> first | exact hb | cases hcompare
      | _ => rw [ha, hb] at hcompare; cases sign <;> cases hcompare
    | zero sign =>
      cases hb : b.toModel.unpack with
      | zero other => exact .inr ⟨(beq_zero_iff a).mpr ⟨sign, ha⟩, (beq_zero_iff b).mpr ⟨other, hb⟩⟩
      | notANumber => rw [ha, hb] at hcompare; cases hcompare
      | infinity other => rw [ha, hb] at hcompare; cases other <;> cases hcompare
      | finite other mantissa exponent hpos =>
        rw [ha, hb] at hcompare
        cases other <;> cases hcompare
    | finite sign mantissa exponent hpos => exact .inl (eq_of_compare ha hcompare)
  · rintro (rfl | ⟨ha, hb⟩)
    · exact beq_self hb
    · obtain ⟨sign, ha⟩ := (beq_zero_iff a).mp ha
      obtain ⟨other, hb⟩ := (beq_zero_iff b).mp hb
      rw [beq_iff_compare, ha, hb]
      rfl

theorem not_lt_of_le {a b : Scalar} (h : a ≤ b) : ¬b < a := by
  intro hlt
  rw [lt_iff] at hlt
  rw [le_iff, unpacked_compare_swap b.toModel.unpack, hlt] at h
  cases h

end Scalar

namespace IsZoom

variable {zoom : Scalar} (h : IsZoom zoom)
include h

/-- An allowed zoom stays as it is. -/
theorem clampZoom_eq : clampZoom zoom = zoom := by
  rw [clampZoom, if_pos h.finite, Scalar.clamp, if_neg (Scalar.not_lt_of_le h.least),
    if_neg (Scalar.not_lt_of_le h.greatest)]

/-- An allowed zoom is not zero, so it is the same as every number that it is equal to. -/
theorem eq_of_beq {other : Scalar} (heq : (zoom == other) = true) : zoom = other := by
  have hcompare : zoom.toModel.unpack.compare other.toModel.unpack = some .eq :=
    beq_iff_eq.mp heq
  have hfinite : zoom.toModel.unpack.isFinite = true := h.finite
  have hleast := (Scalar.le_iff minZoom zoom).mp h.least
  cases hunpack : zoom.toModel.unpack with
  | notANumber => rw [hunpack] at hfinite; cases hfinite
  | infinity sign => rw [hunpack] at hfinite; cases hfinite
  | zero sign =>
    rw [hunpack] at hleast
    cases sign <;> exact absurd hleast (by decide)
  | finite sign mantissa exponent hpos => exact Scalar.eq_of_compare hunpack hcompare

end IsZoom

end Marginalia
