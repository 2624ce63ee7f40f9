import Marginalia.Decimal.FloatValue

/-!
# Finite numbers

A single-precision number that is not finite has an exponent field of ones, and its bits stand for
no finite value.
-/

namespace Marginalia.Decimal

open Float.Model

/-- The exponent field of a number that is not finite has all its bits set. -/
theorem isFinite_eq_false_iff (x : Float32) :
    x.isFinite = false ↔
      x.toBits.toNat / Nat.pow 2 BitLayout.single.fractionBits %
        Nat.pow 2 BitLayout.single.exponentBits + 1 = Nat.pow 2 BitLayout.single.exponentBits := by
  change _ ↔ x.toBits.toNat / Nat.pow 2 23 % Nat.pow 2 8 + 1 = Nat.pow 2 8
  have hexponent : (@UnpackedFloat.unpackExponent .binary32 x.toBits.toBitVec).toNat =
      x.toBits.toNat / Nat.pow 2 23 % Nat.pow 2 8 := by
    simp [UnpackedFloat.unpackExponent, Nat.shiftRight_eq_div_pow]
  have hones : @UnpackedFloat.unpackExponent .binary32 x.toBits.toBitVec = -1#8 ↔
      x.toBits.toNat / Nat.pow 2 23 % Nat.pow 2 8 + 1 = Nat.pow 2 8 := by
    rw [BitVec.toNat_eq, hexponent]
    show _ = 255 ↔ _ + 1 = 256
    omega
  rw [← hones]
  change (UnpackedFloat.unpack .binary32 x.toBits.toBitVec).isFinite = false ↔ _
  delta UnpackedFloat.unpack
  dsimp only
  by_cases h : @UnpackedFloat.unpackExponent .binary32 x.toBits.toBitVec = -1#8
  · rw [if_pos h]
    refine iff_of_true ?_ h
    split <;> rfl
  · rw [if_neg h]
    refine iff_of_false ?_ h
    by_cases hfield : @UnpackedFloat.unpackExponent .binary32 x.toBits.toBitVec = 0#8
    · rw [if_pos hfield]
      by_cases hempty : @UnpackedFloat.unpackMantissa .binary32 x.toBits.toBitVec = 0#23
      · rw [dif_pos hempty]
        rintro ⟨⟩
      · rw [dif_neg hempty]
        rintro ⟨⟩
    · rw [if_neg hfield]
      rintro ⟨⟩

theorem FloatValue.ofSingle_of_not_isFinite {x : Float32} (h : x.isFinite = false) :
    ofSingle x = .nan ∨ ∃ negative, ofSingle x = .infinite negative := by
  rw [ofSingle, ofBits, if_pos ((isFinite_eq_false_iff x).mp h)]
  split
  · exact Or.inr ⟨_, rfl⟩
  · exact Or.inl rfl

end Marginalia.Decimal
