import Mathlib.Algebra.Order.Ring.Abs
import Mathlib.Data.Rat.Defs
import Mathlib.Algebra.Order.Ring.Rat
import Mathlib.Data.Set.Function
import Mathlib.Order.Interval.Set.UnorderedInterval
import Mathlib.Tactic.Linarith
import Mathlib.Tactic.Ring
import Marginalia.Export.PageFrame

/-!
# Where markup lands

In exact numbers, the displayed page and the media box of its page description have the same points
in two systems of coordinates: none is lost and none falls outside, whatever the rotation. Text runs
along the images of the displayed directions, and a box is painted where it is displayed.
-/

namespace Marginalia

/-! ## Points -/

namespace Export.PageFrame

variable {K : Type} [CommRing K]

/-- The point of the displayed page at a place of the page description. -/
def unmap (frame : PageFrame K) (q : Point K) : Point K :=
  frame.rotation.fromOutput frame.page ⟨q.x - frame.origin.x, q.y - frame.origin.y⟩

theorem unmap_map (frame : PageFrame K) (p : Point K) : frame.unmap (frame.map p) = p := by
  obtain ⟨page, origin, rotation⟩ := frame
  cases rotation <;> simp [unmap, map, Rotation.toOutput, Rotation.fromOutput]

theorem map_unmap (frame : PageFrame K) (q : Point K) : frame.map (frame.unmap q) = q := by
  obtain ⟨page, origin, rotation⟩ := frame
  cases rotation <;> simp [unmap, map, Rotation.toOutput, Rotation.fromOutput]

/-- Going right and up on the displayed page is going along the axes of its text. -/
theorem map_add_sub (frame : PageFrame K) (p : Point K) (dx dy : K) :
    let axes : Rotation.Axes K := frame.rotation.textAxes
    frame.map ⟨p.x + dx, p.y - dy⟩ =
      ⟨(frame.map p).x + (dx * axes.right.x + dy * axes.up.x),
        (frame.map p).y + (dx * axes.right.y + dy * axes.up.y)⟩ := by
  obtain ⟨page, origin, rotation⟩ := frame
  cases rotation <;> simp only [map, Rotation.toOutput, Rotation.textAxes, Point.mk.injEq] <;>
    constructor <;> ring

/-- The places of some points are the points whose displayed points are among them. -/
theorem image_map_eq (frame : PageFrame K) {shown places : Set (Point K)}
    (h : ∀ p, frame.map p ∈ places ↔ p ∈ shown) : frame.map '' shown = places := by
  ext q
  constructor
  · rintro ⟨p, hp, rfl⟩
    exact (h p).mpr hp
  · intro hq
    refine ⟨frame.unmap q, (h _).mp ?_, frame.map_unmap q⟩
    rwa [frame.map_unmap]

/-- What is mapped onto its places is mapped there one to one. -/
theorem bijOn_map (frame : PageFrame K) {shown places : Set (Point K)}
    (h : ∀ p, frame.map p ∈ places ↔ p ∈ shown) : Set.BijOn frame.map shown places := by
  rw [← frame.image_map_eq h]
  exact (Function.LeftInverse.injective frame.unmap_map).injOn.bijOn_image

end Export.PageFrame

/-! ## Boxes -/

section

variable {K : Type} [CommRing K] [LinearOrder K]

/-- The points of a box, those of its edges included. -/
def Box.region (b : Box K) : Set (Point K) :=
  {p | (b.x ≤ p.x ∧ p.x ≤ b.x + b.width) ∧ b.y ≤ p.y ∧ p.y ≤ b.y + b.height}

theorem Box.mem_region {b : Box K} {p : Point K} : p ∈ b.region ↔
    (b.x ≤ p.x ∧ p.x ≤ b.x + b.width) ∧ b.y ≤ p.y ∧ p.y ≤ b.y + b.height := Iff.rfl

variable [IsStrictOrderedRing K]

/-- The points of a box are those between two of its opposite corners. -/
theorem Box.mem_region_iff {b : Box K} (hwidth : 0 ≤ b.width) (hheight : 0 ≤ b.height)
    {p : Point K} : p ∈ b.region ↔
      p.x ∈ Set.uIcc b.x (b.x + b.width) ∧ p.y ∈ Set.uIcc b.y (b.y + b.height) := by
  rw [Set.uIcc_of_le (le_add_of_nonneg_right hwidth),
    Set.uIcc_of_le (le_add_of_nonneg_right hheight)]
  exact Box.mem_region

theorem Box.mem_region_spanning {a c p : Point K} :
    p ∈ (spanning min abs a c).region ↔ p.x ∈ Set.uIcc a.x c.x ∧ p.y ∈ Set.uIcc a.y c.y := by
  have hmax (s t : K) : min s t + |s - t| = max s t := by
    rw [← max_sub_min_eq_abs', add_sub_cancel]
  simp only [spanning, mem_region, hmax]
  rfl

/-! ## Intervals that are moved or reflected -/

theorem add_mem_uIcc_iff {s t u c : K} :
    u + c ∈ Set.uIcc (s + c) (t + c) ↔ u ∈ Set.uIcc s t := by
  simp [Set.mem_uIcc]

theorem sub_mem_uIcc_iff {s t u c : K} :
    c - u ∈ Set.uIcc (c - s) (c - t) ↔ u ∈ Set.uIcc s t := by
  simp only [Set.mem_uIcc, sub_le_sub_iff_left]
  rw [or_comm, and_comm, and_comm (b := t ≤ u)]

theorem moved_iff {t c length : K} :
    (c ≤ t + c ∧ t + c ≤ c + length) ↔ 0 ≤ t ∧ t ≤ 0 + length := by
  constructor <;> rintro ⟨hfrom, hto⟩ <;> constructor <;> linarith

theorem reflected_iff {t length : K} :
    (0 ≤ length - t ∧ length - t ≤ 0 + length) ↔ 0 ≤ t ∧ t ≤ 0 + length := by
  constructor <;> rintro ⟨hfrom, hto⟩ <;> constructor <;> linarith

namespace Export.PageFrame

/-! ## Places -/

/-- A point lies on the displayed page exactly when its place lies in the media box. -/
theorem map_mem_region_iff (origin : Point K) (size : Size K) (rotation : Rotation) (p : Point K) :
    (ofBox origin size rotation).map p ∈ Box.region ⟨origin.x, origin.y, size.width, size.height⟩ ↔
      p ∈ Box.region ⟨0, 0, (rotation.displayed size).width, (rotation.displayed size).height⟩ := by
  cases rotation <;>
    simp only [ofBox, map, Rotation.toOutput, Rotation.displayed, Rotation.swapsAxes, if_true,
      Bool.false_eq_true, if_false, Box.mem_region, moved_iff, reflected_iff]
  -- a page that lies on its side has its sides exchanged
  all_goals exact and_comm

/-- A point lies in a box exactly when its place lies in the box that is painted. -/
theorem map_mem_mapBox_iff (frame : PageFrame K) {b : Box K} (hwidth : 0 ≤ b.width)
    (hheight : 0 ≤ b.height) (p : Point K) :
    frame.map p ∈ (frame.mapBox min abs b).region ↔ p ∈ b.region := by
  rw [mapBox, Box.mem_region_spanning, Box.mem_region_iff hwidth hheight]
  obtain ⟨page, origin, rotation⟩ := frame
  cases rotation <;>
    simp only [map, Rotation.toOutput, add_mem_uIcc_iff, sub_mem_uIcc_iff, and_comm]

/-- Markup lands where it is displayed: the displayed page is mapped one to one onto the media box
and back, text runs along its baseline, and a box is painted where it is. -/
theorem map_places (origin : Point K) (size : Size K) (rotation : Rotation) :
    let frame := ofBox origin size rotation
    let shown := rotation.displayed size
    let axes : Rotation.Axes K := rotation.textAxes
    Set.BijOn frame.map (Box.region ⟨0, 0, shown.width, shown.height⟩)
        (Box.region ⟨origin.x, origin.y, size.width, size.height⟩) ∧
      (∀ p, rotation.fromOutput shown
        ⟨(frame.map p).x - origin.x, (frame.map p).y - origin.y⟩ = p) ∧
      (∀ q, frame.map (rotation.fromOutput shown ⟨q.x - origin.x, q.y - origin.y⟩) = q) ∧
      (∀ x y dx dy,
        (frame.map ⟨x + dx, y - dy⟩).x - (frame.map ⟨x, y⟩).x =
            dx * axes.right.x + dy * axes.up.x ∧
          (frame.map ⟨x + dx, y - dy⟩).y - (frame.map ⟨x, y⟩).y =
            dx * axes.right.y + dy * axes.up.y) ∧
      ∀ b : Box K, 0 ≤ b.width → 0 ≤ b.height →
        frame.map '' b.region = (frame.mapBox min abs b).region := by
  intro frame shown axes
  refine ⟨frame.bijOn_map (map_mem_region_iff origin size rotation), frame.unmap_map,
    frame.map_unmap, fun x y dx dy ↦ ?_, fun b hwidth hheight ↦ ?_⟩
  · have hmoved := frame.map_add_sub ⟨x, y⟩ dx dy
    dsimp only at hmoved
    rw [hmoved]
    exact ⟨add_sub_cancel_left _ _, add_sub_cancel_left _ _⟩
  · exact frame.image_map_eq (frame.map_mem_mapBox_iff hwidth hheight)

/-- On a page that is turned by a quarter, a box that is displayed upright lies on its side. -/
theorem map_places_quarter :
    (0 : ℚ) ≤ 50 ∧ (0 : ℚ) ≤ 20 ∧
      (ofBox (⟨50, 25⟩ : Point ℚ) ⟨200, 100⟩ .quarter).map '' Box.region ⟨10, 30, 50, 20⟩ =
        Box.region ⟨80, 35, 20, 50⟩ := by
  have hwidth : (0 : ℚ) ≤ 50 := by norm_num
  have hheight : (0 : ℚ) ≤ 20 := by norm_num
  refine ⟨hwidth, hheight, ?_⟩
  rw [(map_places (⟨50, 25⟩ : Point ℚ) ⟨200, 100⟩ .quarter).2.2.2.2 ⟨10, 30, 50, 20⟩ hwidth hheight]
  norm_num [mapBox, map, ofBox, Rotation.toOutput, Box.spanning]

end Export.PageFrame

end

end Marginalia
