import Marginalia.Geometry.Scalar

/-!
# Points, sizes and boxes

The editor works in three coordinate systems that differ by scale only: document units, zoomed
screen pixels, and the pixels of a frame buffer. In all of them `y` grows downward.
-/

namespace Marginalia

/-- A point of the plane. -/
structure Point (α : Type) where
  x : α
  y : α
  deriving DecidableEq, Repr, Inhabited

/-- A width and a height. -/
structure Size (α : Type) where
  width : α
  height : α
  deriving DecidableEq, Repr, Inhabited

/-- A box with sides parallel to the axes; its corner has the least coordinates. -/
structure Box (α : Type) where
  x : α
  y : α
  width : α
  height : α
  deriving DecidableEq, Repr, Inhabited

def toDocument (pixels zoom : Scalar) : Scalar :=
  pixels / zoom

def toScreen (units zoom : Scalar) : Scalar :=
  units * zoom

def toBuffer (units zoom pixelRatio : Scalar) : Scalar :=
  units * zoom * pixelRatio

def fromBuffer (pixels zoom pixelRatio : Scalar) : Scalar :=
  pixels / (zoom * pixelRatio)

def Point.toDocument (p : Point Scalar) (zoom : Scalar) : Point Scalar :=
  ⟨Marginalia.toDocument p.x zoom, Marginalia.toDocument p.y zoom⟩

namespace Box

/-- The shortest edge of a rectangle worth keeping, in document units. -/
def minimumEdge : Scalar := 5

/-- The box spanned by two opposite corners, for any kind of numbers of which there are the lesser
of two and the magnitude of one. -/
def spanning {α : Type} [Sub α] (lesser : α → α → α) (magnitude : α → α) (a b : Point α) : Box α
    where
  x := lesser a.x b.x
  y := lesser a.y b.y
  width := magnitude (a.x - b.x)
  height := magnitude (a.y - b.y)

/-- The box spanned by two opposite corners. -/
def ofCorners (a b : Point Scalar) : Box Scalar :=
  spanning Scalar.lesser Float32.abs a b

/-- Whether a point lies in the box widened by a margin on every side. -/
def contains (b : Box Scalar) (p : Point Scalar) (margin : Scalar) : Bool :=
  b.x - margin ≤ p.x && p.x ≤ b.x + b.width + margin &&
    b.y - margin ≤ p.y && p.y ≤ b.y + b.height + margin

/-- Whether no edge is too short. -/
def meetsMinimum (b : Box Scalar) : Bool :=
  minimumEdge ≤ b.width && minimumEdge ≤ b.height

end Box

end Marginalia
