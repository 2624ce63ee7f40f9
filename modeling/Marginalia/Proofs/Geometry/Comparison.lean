import Marginalia.EditorState

/-!
# Comparing coordinates

Of two coordinates that are numbers, one is at most the other. Hence clamping a finite coordinate
between two finite bounds gives a finite coordinate between them, and every zoom that the editor
settles on is finite and within the allowed range.
-/

namespace Marginalia.Scalar

open Float.Model (UnpackedFloat)

/-- Comparing two unpacked numbers the other way round gives the opposite answer. -/
theorem unpacked_compare_swap (a b : UnpackedFloat) :
    b.compare a = (a.compare b).map Ordering.swap := by
  cases a with
  | infinity s =>
    cases s <;> cases b with
    | infinity t => cases t <;> rfl
    | notANumber => rfl
    | zero t => rfl
    | finite t m e h => cases t <;> rfl
  | notANumber =>
    cases b with
    | infinity t => cases t <;> rfl
    | notANumber => rfl
    | zero t => rfl
    | finite t m e h => cases t <;> rfl
  | zero s =>
    cases b with
    | infinity t => cases t <;> rfl
    | notANumber => rfl
    | zero t => rfl
    | finite t m e h => cases t <;> rfl
  | finite s m e h =>
    cases b with
    | infinity t => cases s <;> cases t <;> rfl
    | notANumber => cases s <;> rfl
    | zero t => cases s <;> rfl
    | finite t m' e' h' =>
      cases s <;> cases t <;> dsimp only [UnpackedFloat.compare] <;>
        simp [Ordering.swap_then, ← Std.OrientedCmp.eq_swap]

/-- Only what is no number cannot be compared. -/
theorem unpacked_compare_isSome (a b : UnpackedFloat) (ha : a.isNaN = false)
    (hb : b.isNaN = false) : (a.compare b).isSome := by
  cases a with
  | notANumber => cases ha
  | infinity s =>
    cases b with
    | notANumber => cases hb
    | infinity t => rfl
    | zero t => cases s <;> rfl
    | finite t m e h => cases s <;> rfl
  | zero s =>
    cases b with
    | notANumber => cases hb
    | infinity t => cases t <;> rfl
    | zero t => rfl
    | finite t m e h => cases t <;> rfl
  | finite s m e h =>
    cases b with
    | notANumber => cases hb
    | infinity t => cases s <;> cases t <;> rfl
    | zero t => cases s <;> rfl
    | finite t m' e' h' => cases s <;> cases t <;> rfl

theorem lt_iff (a b : Scalar) : a < b ↔ a.toModel.unpack.compare b.toModel.unpack = some .lt := by
  change decide (a.toModel < b.toModel) = true ↔ _
  rw [decide_eq_true_iff]
  exact beq_iff_eq

theorem le_iff (a b : Scalar) :
    a ≤ b ↔ (a.toModel.unpack.compare b.toModel.unpack).any Ordering.isLE = true := by
  change decide (a.toModel ≤ b.toModel) = true ↔ _
  rw [decide_eq_true_iff]
  exact Iff.rfl

theorem lt_irrefl (a : Scalar) : ¬a < a := by
  intro h
  rw [lt_iff] at h
  have hswap := unpacked_compare_swap a.toModel.unpack a.toModel.unpack
  rw [h] at hswap
  simp at hswap

/-- Numbers are ordered totally: what is not less is at least as great. -/
theorem le_of_not_lt (a b : Scalar) (ha : a.isNaN = false) (hb : b.isNaN = false)
    (h : ¬a < b) : b ≤ a := by
  rw [lt_iff] at h
  rw [le_iff, unpacked_compare_swap a.toModel.unpack]
  obtain ⟨order, horder⟩ :=
    Option.isSome_iff_exists.mp (unpacked_compare_isSome a.toModel.unpack b.toModel.unpack ha hb)
  rw [horder] at h ⊢
  cases order with
  | lt => exact absurd rfl h
  | eq => rfl
  | gt => rfl

theorem le_refl (a : Scalar) (ha : a.isNaN = false) : a ≤ a :=
  le_of_not_lt a a ha ha (lt_irrefl a)

theorem isNaN_of_isFinite (a : Scalar) (h : a.isFinite = true) : a.isNaN = false := by
  change a.toModel.unpack.isFinite = true at h
  change a.toModel.unpack.isNaN = false
  cases hunpack : a.toModel.unpack with
  | notANumber =>
    rw [hunpack] at h
    cases h
  | infinity s => rfl
  | zero s => rfl
  | finite s m e hpos => rfl

theorem isFinite_clamp (lower upper a : Scalar) (hlower : lower.isFinite = true)
    (hupper : upper.isFinite = true) (ha : a.isFinite = true) :
    (clamp lower upper a).isFinite = true := by
  unfold clamp
  split
  · exact hlower
  · split
    · exact hupper
    · exact ha

/-- A clamped number lies between the bounds. -/
theorem clamp_bounds (lower upper a : Scalar) (hlower : lower.isFinite = true)
    (hupper : upper.isFinite = true) (ha : a.isFinite = true) (h : lower ≤ upper) :
    lower ≤ clamp lower upper a ∧ clamp lower upper a ≤ upper := by
  have hlowerNaN := isNaN_of_isFinite lower hlower
  have hupperNaN := isNaN_of_isFinite upper hupper
  have haNaN := isNaN_of_isFinite a ha
  unfold clamp
  split
  · exact ⟨le_refl lower hlowerNaN, h⟩
  · next hlow =>
    split
    · exact ⟨h, le_refl upper hupperNaN⟩
    · next hhigh =>
      exact ⟨le_of_not_lt a lower haNaN hlowerNaN hlow, le_of_not_lt upper a hupperNaN haNaN hhigh⟩

end Marginalia.Scalar

namespace Marginalia

/-- A zoom that the editor can have. -/
structure IsZoom (zoom : Scalar) : Prop where
  finite : zoom.isFinite = true
  least : minZoom ≤ zoom
  greatest : zoom ≤ maxZoom

theorem isZoom_one : IsZoom 1 := by
  refine ⟨?_, ?_, ?_⟩ <;> decide

/-- Whatever zoom is asked for, the one that comes of it is allowed. -/
theorem isZoom_clampZoom (zoom : Scalar) : IsZoom (clampZoom zoom) := by
  unfold clampZoom
  split
  · next hfinite =>
    have hmin : minZoom.isFinite = true := by decide
    have hmax : maxZoom.isFinite = true := by decide
    obtain ⟨hleast, hgreatest⟩ :=
      Scalar.clamp_bounds minZoom maxZoom zoom hmin hmax hfinite (by decide)
    exact ⟨Scalar.isFinite_clamp minZoom maxZoom zoom hmin hmax hfinite, hleast, hgreatest⟩
  · exact isZoom_one

end Marginalia
