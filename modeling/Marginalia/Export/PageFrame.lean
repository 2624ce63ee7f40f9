import Marginalia.Geometry.Rotation
import Marginalia.Pdf.Page

/-!
# Page frames

Where the points of a displayed page lie in the coordinates of its page description: the page is
turned back, and the corner of its media box is added. All of it holds for any kind of numbers.
-/

namespace Marginalia.Export

/-- A displayed page with the corner of its media box. -/
structure PageFrame (α : Type) where
  page : Size α
  origin : Point α
  rotation : Rotation
  deriving Repr

namespace PageFrame

variable {α : Type}

/-- The frame of a page with a media box and a rotation. -/
def ofBox (origin : Point α) (size : Size α) (rotation : Rotation) : PageFrame α :=
  ⟨rotation.displayed size, origin, rotation⟩

def map [Add α] [Sub α] (frame : PageFrame α) (p : Point α) : Point α :=
  let q := frame.rotation.toOutput frame.page p
  ⟨q.x + frame.origin.x, q.y + frame.origin.y⟩

def mapBox [Add α] [Sub α] (lesser : α → α → α) (magnitude : α → α) (frame : PageFrame α)
    (b : Box α) : Box α :=
  Box.spanning lesser magnitude (frame.map ⟨b.x, b.y⟩)
    (frame.map ⟨b.x + b.width, b.y + b.height⟩)

end PageFrame

end Marginalia.Export
