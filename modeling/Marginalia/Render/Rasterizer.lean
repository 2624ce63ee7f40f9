import Marginalia.Pdf.Open
import Marginalia.Render.Image

/-!
# Rasterizers

What turns a page into an image. The blank rasterizer shows an empty sheet of the right size with a
grey edge.
-/

namespace Marginalia.Render

open Pdf (EngineError OpenDocument PageGeometry)

/-- A page and the number of pixels for each of its units. -/
structure RenderRequest where
  page : Nat
  scale : Scalar
  deriving DecidableEq, Repr

/-- The first page, a pixel for each unit. -/
def RenderRequest.standard : RenderRequest := ⟨1, 1⟩

abbrev Rasterizer := OpenDocument → RenderRequest → Except EngineError Image

/-- The size of a page as it is shown; one that cannot be turned is shown as it lies. -/
def shownSize (g : PageGeometry) : Size Scalar :=
  match g.displayed with
  | .ok size => size
  | .error _ => g.size

/-- An empty sheet with an edge, unless it is very small. -/
def blankSheet (width height : Nat) : Image where
  width
  height
  pixel x y :=
    if 4 ≤ width ∧ 4 ≤ height ∧ (x = 0 ∨ y = 0 ∨ x + 1 = width ∨ y + 1 = height) then .edge
    else .white

/-- The rasterizer that shows empty sheets. A scale that is not positive counts as one. -/
def blank : Rasterizer := fun document request ↦ do
  let size := shownSize (← document.info.page request.page)
  let scale := if request.scale ≤ 0 then 1 else request.scale
  return blankSheet (pixelCount (size.width * scale)) (pixelCount (size.height * scale))

end Marginalia.Render
