import Mathlib
import Marginalia.Proofs.Geometry.Equality

/-!
# How far rounding goes

A product or a quotient of positive numbers is off by one unit of its last place at most, as long as
its exponent is in range. A zoom has few exponents, and so has a distance, which is a square root.
Hence a zoom that is multiplied by a distance and divided by it again is nearly the same.
-/

namespace Marginalia.Scalar

open Float.Model
open Float.Model.UnpackedFloat (Accuracy ExtendedMantissa Sign roundWithAccuracy
  shiftToTargetExponent)

/-! ## Values -/

/-- The rational number that a finite number stands for; for anything else it is zero. -/
def value (a : Scalar) : ℚ :=
  match a.toModel.unpack with
  | .finite sign mantissa exponent _ => sign.apply mantissa * 2 ^ exponent
  | _ => 0

/-- A positive number with a leading one, which its mantissa includes. -/
structure IsNormal (a : Scalar) (mantissa : Nat) (exponent : Int) : Prop where
  unpack : ∃ hpos, a.toModel.unpack = .finite .positive mantissa exponent hpos
  least : 2 ^ 23 ≤ mantissa
  greatest : mantissa < 2 ^ 24

namespace IsNormal

variable {a b : Scalar} {m n : Nat} {e f : Int}

theorem value_eq (h : IsNormal a m e) : a.value = m * 2 ^ e := by
  obtain ⟨hpos, hunpack⟩ := h.unpack
  rw [value, hunpack]
  rfl

theorem value_pos (h : IsNormal a m e) : 0 < a.value := by
  have hm : (0 : ℚ) < m := by exact_mod_cast Nat.lt_of_lt_of_le (by decide) h.least
  rw [h.value_eq]
  positivity

theorem isFinite (h : IsNormal a m e) : a.isFinite = true := by
  obtain ⟨hpos, hunpack⟩ := h.unpack
  change a.toModel.unpack.isFinite = true
  rw [hunpack]
  rfl

theorem log2_eq (h : IsNormal a m e) : m.log2 = 23 := by
  have hm : m ≠ 0 := Nat.ne_of_gt (Nat.lt_of_lt_of_le (Nat.two_pow_pos 23) h.least)
  exact (Nat.log2_eq_iff hm).mpr ⟨h.least, h.greatest⟩

/-- Of two numbers with leading ones, the one with the lesser exponent is less. -/
theorem value_lt_of_exponent_lt (ha : IsNormal a m e) (hb : IsNormal b n f) (h : e < f) :
    a.value < b.value := by
  have hm : (m : ℚ) < 2 ^ 24 := by exact_mod_cast ha.greatest
  have hn : (2 : ℚ) ^ 23 ≤ n := by exact_mod_cast hb.least
  calc
    a.value = m * 2 ^ e := ha.value_eq
    _ < 2 ^ 24 * 2 ^ e := by gcongr
    _ = 2 ^ 23 * 2 ^ (e + 1) := by rw [zpow_add_one₀ two_ne_zero]; ring
    _ ≤ 2 ^ 23 * 2 ^ f := by
      gcongr
      · exact one_le_two
      · exact h
    _ ≤ n * 2 ^ f := by gcongr
    _ = b.value := hb.value_eq.symm

/-- Numbers with leading ones are compared by their values. -/
theorem lt_iff_value (ha : IsNormal a m e) (hb : IsNormal b n f) : a < b ↔ a.value < b.value := by
  obtain ⟨hposa, hunpacka⟩ := ha.unpack
  obtain ⟨hposb, hunpackb⟩ := hb.unpack
  have hcompare : a < b ↔ e < f ∨ e = f ∧ m < n := by
    rw [lt_iff, hunpacka, hunpackb]
    simp only [UnpackedFloat.compare, Option.some.injEq, Ordering.then_eq_lt,
      Std.LawfulEqCmp.compare_eq_iff_eq, compare_lt_iff_lt]
  rw [hcompare]
  rcases lt_trichotomy e f with h | rfl | h
  · exact iff_of_true (.inl h) (ha.value_lt_of_exponent_lt hb h)
  · rw [ha.value_eq, hb.value_eq, mul_lt_mul_iff_left₀ (by positivity), Nat.cast_lt]
    simp
  · refine iff_of_false ?_ (hb.value_lt_of_exponent_lt ha h).le.not_gt
    omega

end IsNormal

/-! ## Packing -/

section Format

variable {S : Format}

theorem toNat_leadingOne {width : Nat} (fraction : BitVec width) :
    (1#1 ++ fraction).toNat = 2 ^ width + fraction.toNat := by
  rw [BitVec.toNat_append, ← Nat.shiftLeft_add_eq_or_of_lt fraction.isLt, BitVec.toNat_ofNat,
    Nat.shiftLeft_eq]
  simp

/-- The fraction is what follows the leading one. -/
theorem toNat_leadingOne_ofNat {m width : Nat} (hm : m ≠ 0) (hlog : m.log2 = width) :
    (1#1 ++ BitVec.ofNat width m).toNat = m := by
  obtain ⟨hleast, hgreatest⟩ := (Nat.log2_eq_iff hm).mp hlog
  rw [Nat.pow_succ] at hgreatest
  rw [toNat_leadingOne, BitVec.toNat_ofNat, Nat.mod_eq_sub_mod hleast, Nat.mod_eq_of_lt (by omega)]
  omega

theorem unpack_packComponents {exponent : BitVec S.exponentBits}
    {fraction : BitVec S.mantissaBitsWithoutImplicit} (hzero : exponent ≠ 0#_)
    (hones : exponent ≠ -1#_) (hpos : 0 < (1#1 ++ fraction).toNat) :
    UnpackedFloat.unpack S (UnpackedFloat.packComponents S .positive exponent fraction) =
      .finite .positive (1#1 ++ fraction).toNat
        (exponent.toNat - (S.exponentBias + S.mantissaBitsWithoutImplicit : Int)) hpos := by
  unfold UnpackedFloat.unpack
  simp only [UnpackedFloat.unpackMantissa_packComponents,
    UnpackedFloat.unpackExponent_packComponents, UnpackedFloat.unpackSign_packComponents,
    if_neg hzero, if_neg hones]
  rfl

/-- A positive number with a leading one fits into the bits if its exponent fits into its field. -/
theorem unpack_pack {m field : Nat} {e : Int} (hlog : m.log2 = S.mantissaBitsWithoutImplicit)
    (hfield : e + S.exponentBias + S.mantissaBitsWithoutImplicit = field) (habove : 0 < field)
    (hbelow : field + 1 < 2 ^ S.exponentBits) (hpos : 0 < m) :
    UnpackedFloat.unpack S (UnpackedFloat.pack S (.finite .positive m e hpos)) =
      .finite .positive m e hpos := by
  have hexponent : (BitVec.ofNat S.exponentBits field).toNat = field := by
    rw [BitVec.toNat_ofNat, Nat.mod_eq_of_lt (by omega)]
  have hzero : BitVec.ofNat S.exponentBits field ≠ 0#_ := by
    intro h
    rw [h, BitVec.toNat_zero] at hexponent
    omega
  have hones : BitVec.ofNat S.exponentBits field ≠ -1#_ := by
    intro h
    rw [h, BitVec.neg_one_eq_allOnes, BitVec.toNat_allOnes] at hexponent
    omega
  have hpack : UnpackedFloat.pack S (.finite .positive m e hpos) =
      UnpackedFloat.packComponents S .positive (BitVec.ofNat _ field) (BitVec.ofNat _ m) := by
    have hbits : m.log2 + 1 = S.mantissaBits := by rw [hlog, Format.mantissaBits, Nat.add_comm]
    unfold UnpackedFloat.pack
    dsimp only
    rw [hfield, Int.toNat_natCast, if_neg (Nat.not_le.mpr hbelow), if_pos hbits]
  have hmantissa := toNat_leadingOne_ofNat hpos.ne' hlog
  rw [hpack, unpack_packComponents hzero hones (hmantissa.symm ▸ hpos)]
  congr 1
  omega

/-! ## Rounding -/

theorem mantissa_shiftRight (em : ExtendedMantissa) (k : Nat) :
    (em >>> k).mantissa = em.mantissa / 2 ^ k := by
  induction k with
  | zero => exact (Nat.div_one _).symm
  | succ k ih =>
    change (em >>> k).mantissa / 2 = _
    rw [ih, Nat.div_div_eq_div_mul, Nat.pow_succ]

theorem mantissa_ofMantissaAndAccuracy (q : Nat) (accuracy : Accuracy) :
    (ExtendedMantissa.ofMantissaAndAccuracy q accuracy).mantissa = q := by
  cases accuracy with
  | exact => rfl
  | inexact order => cases order <;> rfl

/-- Rounding takes the mantissa as it is or the next one. -/
theorem roundedMantissa_bounds (em : ExtendedMantissa) :
    em.mantissa ≤ em.roundedMantissa ∧ em.roundedMantissa ≤ em.mantissa + 1 := by
  obtain ⟨m, round, sticky⟩ := em
  cases round <;> cases sticky <;>
    simp only [ExtendedMantissa.roundedMantissa, ExtendedMantissa.accuracy,
      Accuracy.roundToNearestEven] <;>
    omega

/-- A mantissa with too many digits is shifted by as many. -/
theorem shiftToTargetExponent_eq {q k : Nat} {e : Int} (accuracy : Accuracy)
    (hlog : q.log2 = S.mantissaBitsWithoutImplicit + k) (hlow : S.minExponent ≤ e + k) :
    shiftToTargetExponent S q e accuracy =
      (ExtendedMantissa.ofMantissaAndAccuracy q accuracy >>> k, e + k) := by
  have htarget : S.targetExponent (totalExponent q e) = e + k := by
    rw [Format.targetExponent, totalExponent, Format.mantissaBits, hlog]
    omega
  have hshift : (e + (k : Int) - e).toNat = k := by omega
  simp only [shiftToTargetExponent, UnpackedFloat.shiftToExponent, htarget, hshift]

theorem div_two_pow_bounds {q k width : Nat} (hq : q ≠ 0) (hlog : q.log2 = width + k) :
    2 ^ width ≤ q / 2 ^ k ∧ q / 2 ^ k < 2 ^ (width + 1) := by
  obtain ⟨hleast, hgreatest⟩ := (Nat.log2_eq_iff hq).mp hlog
  rw [Nat.le_div_iff_mul_le (Nat.two_pow_pos k), Nat.div_lt_iff_lt_mul (Nat.two_pow_pos k),
    ← Nat.pow_add, ← Nat.pow_add, Nat.add_right_comm]
  exact ⟨hleast, hgreatest⟩

/-- A mantissa with too many digits is rounded to one of the two next to it; if that has one digit
too many then, it is a power of two. -/
theorem roundWithAccuracy_eq {q k : Nat} {e : Int} (sign : Sign) (accuracy : Accuracy)
    (hq : q ≠ 0) (hlog : q.log2 = S.mantissaBitsWithoutImplicit + k)
    (hlow : S.minExponent ≤ e + k) :
    ∃ r m f hpos, roundWithAccuracy S sign q e accuracy = .finite sign m f hpos ∧
      m.log2 = S.mantissaBitsWithoutImplicit ∧ (e + k ≤ f ∧ f ≤ e + k + 1) ∧
      (q / 2 ^ k ≤ r ∧ r ≤ q / 2 ^ k + 1) ∧ (m : ℚ) * 2 ^ f = r * 2 ^ (e + k) := by
  obtain ⟨hleast, hgreatest⟩ := div_two_pow_bounds hq hlog
  have hfirst := shiftToTargetExponent_eq accuracy hlog hlow
  have hfloor : (ExtendedMantissa.ofMantissaAndAccuracy q accuracy >>> k).mantissa = q / 2 ^ k := by
    rw [mantissa_shiftRight, mantissa_ofMantissaAndAccuracy]
  have hbounds := roundedMantissa_bounds (ExtendedMantissa.ofMantissaAndAccuracy q accuracy >>> k)
  rw [hfloor] at hbounds
  unfold roundWithAccuracy
  rw [hfirst]
  dsimp only
  generalize (ExtendedMantissa.ofMantissaAndAccuracy q accuracy >>> k).roundedMantissa = r
    at hbounds ⊢
  have hr : r ≠ 0 := by
    have := Nat.two_pow_pos S.mantissaBitsWithoutImplicit
    omega
  by_cases hcarry : r < 2 ^ (S.mantissaBitsWithoutImplicit + 1)
  · have hlog' : r.log2 = S.mantissaBitsWithoutImplicit + 0 :=
      (Nat.log2_eq_iff hr).mpr ⟨hleast.trans hbounds.1, hcarry⟩
    rw [shiftToTargetExponent_eq .exact hlog' (by simpa using hlow)]
    refine ⟨r, r, e + k, Nat.pos_of_ne_zero hr, ?_, hlog', by omega, hbounds, rfl⟩
    exact (dif_neg hr).trans (by simp only [Nat.cast_zero, Int.add_zero]; rfl)
  · have hpower : r = 2 ^ (S.mantissaBitsWithoutImplicit + 1) := by omega
    have hlog' : r.log2 = S.mantissaBitsWithoutImplicit + 1 := by rw [hpower, Nat.log2_two_pow]
    have hhalf : (ExtendedMantissa.ofMantissaAndAccuracy r .exact >>> 1).mantissa =
        2 ^ S.mantissaBitsWithoutImplicit := by
      rw [mantissa_shiftRight, mantissa_ofMantissaAndAccuracy, hpower, Nat.pow_succ, Nat.pow_one,
        Nat.mul_div_cancel _ Nat.two_pos]
    rw [shiftToTargetExponent_eq .exact hlog' (by omega)]
    have hpos := Nat.two_pow_pos S.mantissaBitsWithoutImplicit
    refine ⟨r, 2 ^ S.mantissaBitsWithoutImplicit, e + k + 1, hpos, ?_, Nat.log2_two_pow, by omega,
      hbounds, ?_⟩
    · dsimp only
      simp only [hhalf]
      exact dif_neg hpos.ne'
    · rw [hpower, zpow_add_one₀ two_ne_zero]
      push_cast
      ring

end Format

/-! ## Products, quotients and roots -/

/-- A number is off by one unit of the last place at most. -/
def IsNear (a : Scalar) (x : ℚ) : Prop :=
  |a.value - x| ≤ x / 2 ^ 23

/-- Both neighbours of a number with a leading one are near it. -/
theorem abs_sub_le_of_neighbour {q k r : Nat} {x : ℚ} (hleast : 2 ^ (23 + k) ≤ q)
    (hfloor : q / 2 ^ k ≤ r) (hceil : r ≤ q / 2 ^ k + 1) (hx : q ≤ x) (hx' : x ≤ q + 1) :
    |r * 2 ^ k - x| ≤ x / 2 ^ 23 := by
  have hbelow : q / 2 ^ k * 2 ^ k ≤ q := Nat.div_mul_le_self q (2 ^ k)
  have habove : q + 1 ≤ (q / 2 ^ k + 1) * 2 ^ k := by
    rw [Nat.add_one_mul]
    exact Nat.lt_div_mul_add (Nat.two_pow_pos k)
  have hunit : (2 : ℚ) ^ k ≤ x / 2 ^ 23 := by
    have hq : (2 : ℚ) ^ (23 + k) ≤ q := by exact_mod_cast hleast
    rw [le_div_iff₀ (by positivity), ← pow_add, Nat.add_comm]
    exact hq.trans hx
  have hlower : (r : ℚ) * 2 ^ k ≤ q + 2 ^ k := by
    exact_mod_cast (Nat.mul_le_mul_right (2 ^ k) hceil).trans (by rw [Nat.add_one_mul]; omega)
  have hupper : (q : ℚ) + 1 ≤ r * 2 ^ k + 2 ^ k := by
    exact_mod_cast habove.trans (by rw [Nat.add_one_mul]; gcongr)
  rw [abs_le]
  constructor <;> linarith

/-- A number between a natural number and the next one, rounded. -/
theorem isNormal_round {q k : Nat} {e : Int} (accuracy : Accuracy) (hleast : 2 ^ (23 + k) ≤ q)
    (hgreatest : q < 2 ^ (24 + k)) (hlow : -149 ≤ e + k) (hhigh : e + k < 104) :
    let a : Scalar := .ofModel (.pack (roundWithAccuracy .binary32 .positive q e accuracy))
    ∃ m f, IsNormal a m f ∧ (e + k ≤ f ∧ f ≤ e + k + 1) ∧
      ∀ x : ℚ, q ≤ x → x ≤ q + 1 → a.IsNear (x * 2 ^ e) := by
  intro a
  have hq : q ≠ 0 := by
    have := Nat.two_pow_pos (23 + k)
    omega
  have hlog : q.log2 = 23 + k := (Nat.log2_eq_iff hq).mpr ⟨hleast, by rwa [Nat.add_right_comm]⟩
  obtain ⟨r, m, f, hpos, hround, hm, hf, ⟨hfloor, hceil⟩, hvalue⟩ :=
    roundWithAccuracy_eq (S := .binary32) .positive accuracy hq hlog hlow
  obtain ⟨hmleast, hmgreatest⟩ := (Nat.log2_eq_iff hpos.ne').mp hm
  have hunpack : a.toModel.unpack = .finite .positive m f hpos := by
    change UnpackedFloat.unpack .binary32 (UnpackedFloat.pack .binary32 _) = _
    rw [hround]
    refine unpack_pack hm (?_ : _ = ((f + 150).toNat : Int)) (by omega) ?_ hpos
    · change f + (127 : Nat) + (23 : Nat) = _
      omega
    · change _ < 256
      omega
  have hnormal : IsNormal a m f := ⟨⟨hpos, hunpack⟩, hmleast, hmgreatest⟩
  refine ⟨m, f, hnormal, hf, fun x hx hx' ↦ ?_⟩
  have hpower : (0 : ℚ) < 2 ^ e := by positivity
  calc
    |a.value - x * 2 ^ e| = |(r * 2 ^ k - x) * 2 ^ e| := by
      rw [hnormal.value_eq, hvalue, zpow_add₀ two_ne_zero, zpow_natCast]
      ring_nf
    _ = |r * 2 ^ k - x| * 2 ^ e := by rw [abs_mul, abs_of_pos hpower]
    _ ≤ x / 2 ^ 23 * 2 ^ e := by
      gcongr
      exact abs_sub_le_of_neighbour hleast hfloor hceil hx hx'
    _ = x * 2 ^ e / 2 ^ 23 := by ring

/-- A number of a few digits more than there is room for. -/
theorem exists_excess {q : Nat} (c : Nat) (hleast : 2 ^ (23 + c) ≤ q)
    (hgreatest : q < 2 ^ (25 + c)) :
    ∃ k, c ≤ k ∧ k ≤ c + 1 ∧ 2 ^ (23 + k) ≤ q ∧ q < 2 ^ (24 + k) := by
  by_cases h : q < 2 ^ (24 + c)
  · exact ⟨c, Nat.le_refl c, Nat.le_succ c, hleast, h⟩
  · refine ⟨c + 1, Nat.le_succ c, Nat.le_refl _, ?_, ?_⟩
    · rw [show 23 + (c + 1) = 24 + c by omega]
      exact Nat.le_of_not_lt h
    · rw [show 24 + (c + 1) = 25 + c by omega]
      exact hgreatest

namespace IsNormal

variable {a b : Scalar} {m n : Nat} {e f : Int}

/-- A product is near the product of the values. -/
theorem mul (ha : IsNormal a m e) (hb : IsNormal b n f) (hlow : -172 ≤ e + f)
    (hhigh : e + f < 80) :
    ∃ m' e', IsNormal (a * b) m' e' ∧ (e + f + 23 ≤ e' ∧ e' ≤ e + f + 25) ∧
      (a * b).IsNear (a.value * b.value) := by
  have hproduct : a * b =
      .ofModel (.pack (roundWithAccuracy .binary32 .positive (m * n) (e + f) .exact)) := by
    obtain ⟨hposa, hunpacka⟩ := ha.unpack
    obtain ⟨hposb, hunpackb⟩ := hb.unpack
    change Float32.ofModel (.pack (.mul .binary32 a.toModel.unpack b.toModel.unpack)) = _
    rw [hunpacka, hunpackb]
    rfl
  have hleast : 2 ^ 23 * 2 ^ 23 ≤ m * n := Nat.mul_le_mul ha.least hb.least
  have hgreatest : m * n < 2 ^ 24 * 2 ^ 24 := Nat.mul_lt_mul'' ha.greatest hb.greatest
  rw [← Nat.pow_add] at hleast hgreatest
  obtain ⟨k, hk, hk', hleast, hgreatest⟩ := exists_excess 23 hleast hgreatest
  obtain ⟨m', e', hnormal, he, hnear⟩ :=
    isNormal_round (e := e + f) .exact hleast hgreatest (by omega) (by omega)
  rw [← hproduct] at hnormal hnear
  refine ⟨m', e', hnormal, by omega, ?_⟩
  have hvalues : a.value * b.value = (m * n : Nat) * 2 ^ (e + f) := by
    rw [ha.value_eq, hb.value_eq, zpow_add₀ two_ne_zero]
    push_cast
    ring
  rw [hvalues]
  exact hnear _ le_rfl (by simp)

/-- A mantissa is divided with as many digits more as a mantissa has. -/
theorem divCore_eq (ha : IsNormal a m e) (hb : IsNormal b n f) (hlow : -125 ≤ e - f) :
    UnpackedFloat.divCore .binary32 m e n f =
      (m * 2 ^ 24 / n, e - f - 24, UnpackedFloat.accuracyOfFraction (m * 2 ^ 24 % n) n) := by
  have htarget : Format.binary32.targetExponent (totalExponent m e - totalExponent n f) =
      e - f - 24 := by
    rw [totalExponent, totalExponent, ha.log2_eq, hb.log2_eq]
    change max (_ - 24 : Int) (-149) = _
    omega
  have hshift : (e - f - (e - f - 24)).toNat = 24 := by omega
  rw [UnpackedFloat.divCore, htarget, Int.min_eq_right (by omega), hshift, Nat.shiftLeft_eq]

/-- A quotient is near the quotient of the values. -/
theorem div (ha : IsNormal a m e) (hb : IsNormal b n f) (hlow : -125 ≤ e - f)
    (hhigh : e - f < 127) :
    ∃ m' e', IsNormal (a / b) m' e' ∧ (a / b).IsNear (a.value / b.value) := by
  have hn : 0 < n := Nat.lt_of_lt_of_le (Nat.two_pow_pos 23) hb.least
  have hquotient : a / b =
      .ofModel (.pack (roundWithAccuracy .binary32 .positive (m * 2 ^ 24 / n) (e - f - 24)
        (UnpackedFloat.accuracyOfFraction (m * 2 ^ 24 % n) n))) := by
    obtain ⟨hposa, hunpacka⟩ := ha.unpack
    obtain ⟨hposb, hunpackb⟩ := hb.unpack
    change Float32.ofModel (.pack (.div .binary32 a.toModel.unpack b.toModel.unpack)) = _
    rw [hunpacka, hunpackb]
    simp only [UnpackedFloat.div, ha.divCore_eq hb hlow]
    rfl
  have hleast : 2 ^ (23 + 0) ≤ m * 2 ^ 24 / n := by
    rw [Nat.le_div_iff_mul_le hn]
    exact Nat.mul_le_mul ha.least hb.greatest.le
  have hgreatest : m * 2 ^ 24 / n < 2 ^ (25 + 0) := by
    rw [Nat.div_lt_iff_lt_mul hn]
    have hm := ha.greatest
    have hn := hb.least
    omega
  obtain ⟨k, hk, hk', hleast, hgreatest⟩ := exists_excess 0 hleast hgreatest
  obtain ⟨m', e', hnormal, he, hnear⟩ := isNormal_round (e := e - f - 24)
    (UnpackedFloat.accuracyOfFraction (m * 2 ^ 24 % n) n) hleast hgreatest (by omega) (by omega)
  rw [← hquotient] at hnormal hnear
  refine ⟨m', e', hnormal, ?_⟩
  have hn' : (0 : ℚ) < n := by exact_mod_cast hn
  have hvalues : a.value / b.value = (m * 2 ^ 24 / n : ℚ) * 2 ^ (e - f - 24) := by
    rw [ha.value_eq, hb.value_eq, zpow_sub₀ two_ne_zero, zpow_sub₀ two_ne_zero]
    have : (2 : ℚ) ^ f ≠ 0 := by positivity
    field_simp
  rw [hvalues]
  refine hnear _ ?_ ?_
  · rw [le_div_iff₀ hn']
    exact_mod_cast Nat.div_mul_le_self (m * 2 ^ 24) n
  · rw [div_le_iff₀ hn']
    have hceil := Nat.lt_div_mul_add (a := m * 2 ^ 24) hn
    rw [← Nat.add_one_mul] at hceil
    exact_mod_cast hceil.le

end IsNormal

/-- The mantissa and the exponent of a finite number; only the least exponent goes without a leading
one. -/
theorem HasFields.bounds {bits : BitVec Format.binary32.numBits} {sign : Sign} {m : Nat} {e : Int}
    (h : HasFields bits sign m e) :
    m < 2 ^ 24 ∧ -149 ≤ e ∧ e ≤ 105 ∧ (e ≠ -149 → 2 ^ 23 ≤ m) := by
  have hvalue := h.value
  have hfraction : (UnpackedFloat.unpackMantissa bits).toNat < 2 ^ 23 := BitVec.isLt _
  have hfield : (UnpackedFloat.unpackExponent bits).toNat < 2 ^ 8 := BitVec.isLt _
  omega

/-- A root is taken of twice as many digits as a mantissa has, or of one less. -/
theorem sqrtCore_eq {m : Nat} {e : Int} (hlog : m.log2 ≤ 23) (hlow : -149 ≤ e) :
    ∃ t s accuracy, UnpackedFloat.sqrtCore .binary32 m e = ((m * 2 ^ s).sqrt, t, accuracy) ∧
      46 ≤ m.log2 + s ∧ m.log2 + s ≤ 47 ∧ 2 * t = e - s := by
  have htarget : min (e.ediv 2)
      (Format.binary32.targetExponent ((totalExponent m e + 1).ediv 2)) =
        (m.log2 + 2 + e) / 2 - 24 := by
    change min (e / 2) (max ((m.log2 + 1 + e + 1) / 2 - 24 : Int) (-149)) = _
    omega
  rw [UnpackedFloat.sqrtCore, htarget, Nat.shiftLeft_eq]
  exact ⟨_, _, _, rfl, by omega, by omega, by omega⟩

theorem sqrt_bounds {m s : Nat} (hm : m ≠ 0) (hleast : 46 ≤ m.log2 + s)
    (hgreatest : m.log2 + s ≤ 47) :
    2 ^ 23 ≤ (m * 2 ^ s).sqrt ∧ (m * 2 ^ s).sqrt < 2 ^ 24 := by
  obtain ⟨hlower, hupper⟩ := (Nat.log2_eq_iff hm).mp rfl
  rw [Nat.le_sqrt, Nat.sqrt_lt, ← Nat.pow_add, ← Nat.pow_add]
  constructor
  · calc
      2 ^ (23 + 23) ≤ 2 ^ (m.log2 + s) := Nat.pow_le_pow_right Nat.two_pos hleast
      _ = 2 ^ m.log2 * 2 ^ s := Nat.pow_add 2 _ _
      _ ≤ m * 2 ^ s := Nat.mul_le_mul_right _ hlower
  · calc
      m * 2 ^ s < 2 ^ (m.log2 + 1) * 2 ^ s := Nat.mul_lt_mul_of_pos_right hupper (Nat.two_pow_pos s)
      _ = 2 ^ (m.log2 + 1 + s) := (Nat.pow_add 2 _ _).symm
      _ ≤ 2 ^ (24 + 24) := Nat.pow_le_pow_right Nat.two_pos (by omega)

/-- A number with a leading one whose exponent is that of the root of a number. -/
def IsLength (a : Scalar) : Prop :=
  ∃ m e, IsNormal a m e ∧ -98 ≤ e ∧ e ≤ 42

/-- The root of a positive number has a leading one, and its exponent is about half of that of the
number. -/
theorem isLength_sqrt {a : Scalar} {m : Nat} {e : Int} {hpos : 0 < m}
    (ha : a.toModel.unpack = .finite .positive m e hpos) : IsLength a.sqrt := by
  obtain ⟨hm, hlow, hhigh, -⟩ := (hasFields_of_unpack ha).bounds
  have hlog : m.log2 ≤ 23 := Nat.le_of_lt_succ ((Nat.log2_lt hpos.ne').mpr hm)
  obtain ⟨t, s, accuracy, hcore, hdigits, hdigits', ht⟩ := sqrtCore_eq hlog hlow
  have hroot : a.sqrt =
      .ofModel (.pack (roundWithAccuracy .binary32 .positive (m * 2 ^ s).sqrt t accuracy)) := by
    change Float32.ofModel (.pack (.sqrt .binary32 a.toModel.unpack)) = _
    rw [ha]
    simp only [UnpackedFloat.sqrt, hcore]
  obtain ⟨hleast, hgreatest⟩ := sqrt_bounds hpos.ne' hdigits hdigits'
  obtain ⟨n, f, hnormal, hf, -⟩ := isNormal_round (k := 0) (e := t) accuracy hleast hgreatest
    (by omega) (by omega)
  rw [← hroot] at hnormal
  exact ⟨n, f, hnormal, by omega, by omega⟩

/-- A root above zero that is a finite number has a leading one. -/
theorem isLength_of_pos {a : Scalar} (hfinite : a.sqrt.isFinite = true) (hpos : 0 < a.sqrt) :
    IsLength a.sqrt := by
  have hsqrt : a.sqrt = .ofModel (.pack (.sqrt .binary32 a.toModel.unpack)) := rfl
  cases hunpack : a.toModel.unpack with
  | finite sign m e hm =>
    cases sign with
    | positive => exact isLength_sqrt hunpack
    | negative =>
      rw [hsqrt, hunpack] at hfinite
      change (Float32.Model.pack .notANumber).unpack.isFinite = true at hfinite
      exact absurd hfinite (by decide)
  | notANumber =>
    rw [hsqrt, hunpack] at hfinite
    exact absurd hfinite (by decide)
  | infinity sign =>
    rw [hsqrt, hunpack] at hfinite
    cases sign <;> exact absurd hfinite (by decide)
  | zero sign =>
    rw [hsqrt, hunpack] at hpos
    cases sign <;> exact absurd hpos (by decide)

end Marginalia.Scalar

namespace Marginalia

open Scalar (IsNormal IsNear)

theorem isNormal_minZoom : IsNormal minZoom (2 ^ 23) (-25) :=
  ⟨⟨by decide, by rfl⟩, by decide, by decide⟩

theorem isNormal_maxZoom : IsNormal maxZoom (2 ^ 23) (-21) :=
  ⟨⟨by decide, by rfl⟩, by decide, by decide⟩

namespace IsZoom

variable {zoom : Scalar} (h : IsZoom zoom)
include h

/-- A zoom has a leading one, and its exponent is one of five. -/
theorem isNormal : ∃ m e, IsNormal zoom m e ∧ -25 ≤ e ∧ e ≤ -21 := by
  have hfinite : zoom.toModel.unpack.isFinite = true := h.finite
  have hleast := (Scalar.le_iff minZoom zoom).mp h.least
  have hgreatest := (Scalar.le_iff zoom maxZoom).mp h.greatest
  obtain ⟨_, hmin⟩ := isNormal_minZoom.unpack
  obtain ⟨_, hmax⟩ := isNormal_maxZoom.unpack
  rw [hmin] at hleast
  rw [hmax] at hgreatest
  cases hunpack : zoom.toModel.unpack with
  | notANumber => rw [hunpack] at hfinite; cases hfinite
  | infinity sign => rw [hunpack] at hfinite; cases hfinite
  | zero sign => rw [hunpack] at hleast; cases hleast
  | finite sign m e hpos =>
    rw [hunpack] at hleast hgreatest
    cases sign with
    | negative => cases hleast
    | positive =>
      simp only [Float.Model.UnpackedFloat.compare, Option.any_some, Ordering.isLE_then_iff_or,
        compare_lt_iff_lt, Std.LawfulEqCmp.compare_eq_iff_eq] at hleast hgreatest
      obtain ⟨hm, -, -, hone⟩ := (Scalar.hasFields_of_unpack hunpack).bounds
      exact ⟨m, e, ⟨⟨hpos, hunpack⟩, hone (by omega), hm⟩, by omega, by omega⟩

/-- What comes of a number as a zoom is as near to another zoom as the number is. -/
theorem abs_clampZoom_sub_le {a : Scalar} {m : Nat} {e : Int} (ha : IsNormal a m e) :
    |(clampZoom a).value - zoom.value| ≤ |a.value - zoom.value| := by
  obtain ⟨n, f, hzoom, -, -⟩ := h.isNormal
  have hleast : minZoom.value ≤ zoom.value :=
    not_lt.mp (mt (hzoom.lt_iff_value isNormal_minZoom).mpr (Scalar.not_lt_of_le h.least))
  have hgreatest : zoom.value ≤ maxZoom.value :=
    not_lt.mp (mt (isNormal_maxZoom.lt_iff_value hzoom).mpr (Scalar.not_lt_of_le h.greatest))
  rw [clampZoom, if_pos ha.isFinite, Scalar.clamp]
  split
  · next hbelow =>
    have hvalue := (ha.lt_iff_value isNormal_minZoom).mp hbelow
    rw [abs_of_nonpos (by linarith), abs_of_nonpos (by linarith)]
    linarith
  · split
    · next habove =>
      have hvalue := (isNormal_maxZoom.lt_iff_value ha).mp habove
      rw [abs_of_nonneg (by linarith), abs_of_nonneg (by linarith)]
      linarith
    · exact le_rfl

/-- A zoom that is multiplied by a length and divided by it again is nearly the same. -/
theorem abs_clampZoom_mul_div_sub_le {d : Scalar} (hd : d.IsLength) :
    |(clampZoom (zoom * d / d)).value - zoom.value| ≤ zoom.value / 2 ^ 21 := by
  obtain ⟨m, e, hzoom, he, he'⟩ := h.isNormal
  obtain ⟨n, f, hlength, hf, hf'⟩ := hd
  obtain ⟨m₁, e₁, hproduct, he₁, hnear⟩ := hzoom.mul hlength (by omega) (by omega)
  obtain ⟨m₂, e₂, hquotient, hnear'⟩ := hproduct.div hlength (by omega) (by omega)
  have hpos := hlength.value_pos
  refine (h.abs_clampZoom_sub_le hquotient).trans ?_
  have hback : |(zoom * d).value / d.value - zoom.value| ≤ zoom.value / 2 ^ 23 := by
    have hscale : (zoom * d).value / d.value - zoom.value =
        ((zoom * d).value - zoom.value * d.value) / d.value := by
      field_simp
    rw [hscale, abs_div, abs_of_pos hpos, div_le_iff₀ hpos, div_mul_eq_mul_div]
    exact hnear
  obtain ⟨hlower, hupper⟩ := abs_le.mp hback
  obtain ⟨hlower', hupper'⟩ := abs_le.mp hnear'
  have hzoomPos := hzoom.value_pos
  rw [abs_le]
  constructor <;> linarith

end IsZoom

end Marginalia
