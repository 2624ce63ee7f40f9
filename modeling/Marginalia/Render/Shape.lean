import Marginalia.Font.Outline
import Marginalia.Geometry.Basic

/-!
# Shapes

Which pixels a shape covers: those whose centre it contains.
-/

namespace Marginalia.Render

def center (x y : Nat) : Point Scalar :=
  ⟨Scalar.ofNat x + 0.5, Scalar.ofNat y + 0.5⟩

/-! ## Boxes -/

/-- The four sides of a box that has an area. -/
structure Sides where
  left : Scalar
  top : Scalar
  right : Scalar
  bottom : Scalar
  deriving Repr

namespace Sides

/-- The sides of a box in buffer pixels; a box without an area or without finite numbers has
none. -/
def ofBox? (b : Box Scalar) (scale : Scalar) : Option Sides :=
  let left := b.x * scale
  let top := b.y * scale
  let width := b.width * scale
  let height := b.height * scale
  let right := left + width
  let bottom := top + height
  if left.isFinite && top.isFinite && right.isFinite && bottom.isFinite && 0 < width &&
      0 < height then
    some ⟨left, top, right, bottom⟩
  else none

def widened (s : Sides) (distance : Scalar) : Sides :=
  ⟨s.left - distance, s.top - distance, s.right + distance, s.bottom + distance⟩

/-- Whether a point lies between the sides. -/
def contains (s : Sides) (p : Point Scalar) : Bool :=
  s.left ≤ p.x && p.x < s.right && s.top ≤ p.y && p.y < s.bottom

/-- Whether a point lies between the sides and on none of them. -/
def containsStrictly (s : Sides) (p : Point Scalar) : Bool :=
  s.left < p.x && p.x < s.right && s.top < p.y && p.y < s.bottom

/-- Whether a point lies on or between the sides. -/
def reaches (s : Sides) (p : Point Scalar) : Bool :=
  s.left ≤ p.x && p.x ≤ s.right && s.top ≤ p.y && p.y ≤ s.bottom

/-- Whether a point lies within a line of some width along the sides, and not on its edge. -/
def onBorder (s : Sides) (lineWidth : Scalar) (p : Point Scalar) : Bool :=
  let half := lineWidth / 2
  (s.widened half).containsStrictly p && !(s.widened (-half)).reaches p

end Sides

/-! ## Outlines -/

/-- A directed straight line. -/
structure Edge where
  start : Point Scalar
  finish : Point Scalar
  deriving Repr

namespace Edge

/-- How an edge winds around a point: up to the left of it, down, or not at all. -/
def winding (e : Edge) (p : Point Scalar) : Int :=
  let side := (e.finish.x - e.start.x) * (p.y - e.start.y) -
    (p.x - e.start.x) * (e.finish.y - e.start.y)
  if e.start.y ≤ p.y && p.y < e.finish.y then if 0 < side then 1 else 0
  else if e.finish.y ≤ p.y && p.y < e.start.y then if side < 0 then -1 else 0
  else 0

/-- Into how many straight lines a curve is cut. -/
def curveSteps : Nat := 16

def curvePoint (start control finish : Point Scalar) (t : Scalar) : Point Scalar :=
  let mix (a b c : Scalar) : Scalar := (1 - t) * (1 - t) * a + 2 * (1 - t) * t * b + t * t * c
  ⟨mix start.x control.x finish.x, mix start.y control.y finish.y⟩

def ofCurve (start control finish : Point Scalar) : List Edge :=
  let points := (List.range (curveSteps + 1)).map fun i ↦
    curvePoint start control finish (Scalar.ofNat i / Scalar.ofNat curveSteps)
  (points.zip points.tail).map fun (a, b) ↦ ⟨a, b⟩

/-- The edges of a path that has come from a first point to a current one. -/
def ofSteps : (first current : Point Scalar) → List Font.PathStep → List Edge
  | _, _, [] => []
  | _, _, .move p :: rest => ofSteps p p rest
  | first, current, .line p :: rest => ⟨current, p⟩ :: ofSteps first p rest
  | first, current, .curve c p :: rest => ofCurve current c p ++ ofSteps first p rest
  | first, current, .close :: rest => ⟨current, first⟩ :: ofSteps first first rest

end Edge

/-- Whether edges wind around a point. -/
def windAround (edges : List Edge) (p : Point Scalar) : Bool :=
  edges.foldl (fun turns e ↦ turns + e.winding p) 0 != 0

end Marginalia.Render
