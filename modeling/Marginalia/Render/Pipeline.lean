import Marginalia.Render.Overlay
import Marginalia.Render.Rasterizer

/-!
# The render pipeline

Pages are slow to draw, so their images are asked for by tickets, of which only the latest one is
good. The overlay is drawn at once from a scene, unless the store has moved on since the scene was
captured.
-/

namespace Marginalia.Render

open Pdf (EngineError OpenDocument)

/-- The image of a page, and the zoom it was drawn for. -/
structure BaseLayer where
  page : Nat
  zoom : Scalar
  image : Image

/-- A request for the image of a page. -/
structure BaseTicket where
  generation : Nat
  page : Nat
  zoom : Scalar
  request : RenderRequest
  deriving DecidableEq, Repr

/-- What came of a ticket. -/
structure BaseResult where
  ticket : BaseTicket
  result : Except EngineError Image

def BaseTicket.run (t : BaseTicket) (rasterizer : Rasterizer) (document : OpenDocument) :
    BaseResult :=
  ⟨t, rasterizer document t.request⟩

/-- The page image in use, the number of the latest ticket, and the version of the store when a
scene was last looked at. -/
structure Pipeline where
  generation : Nat
  base : Option BaseLayer
  pixelRatio : Scalar
  seenVersion : Nat
  fonts : Font.Library

namespace Pipeline

/-- A pipeline that knows a store at a version. A pixel ratio that makes no sense counts as one. -/
def new (storeVersion : Nat) (fonts : Font.Library) (pixelRatio : Scalar) : Pipeline where
  generation := 0
  base := none
  pixelRatio := if pixelRatio.isFinite && 0 < pixelRatio then pixelRatio else 1
  seenVersion := storeVersion
  fonts

/-- Ask for the image of a page; all earlier tickets become void. -/
def requestBase (p : Pipeline) (page : Nat) (zoom : Scalar) : BaseTicket × Pipeline :=
  let p := { p with generation := p.generation + 1 }
  (⟨p.generation, page, zoom, ⟨page, zoom * p.pixelRatio⟩⟩, p)

/-- Whether a ticket is the latest one. -/
def isCurrent (p : Pipeline) (t : BaseTicket) : Bool :=
  t.generation == p.generation

/-- Take over an image; the answer says whether it was still wanted. -/
def acceptBase (p : Pipeline) (r : BaseResult) : Except EngineError Bool × Pipeline :=
  if !p.isCurrent r.ticket then (.ok false, p)
  else
    match r.result with
    | .error e => (.error e, p)
    | .ok image => (.ok true, { p with base := some ⟨r.ticket.page, r.ticket.zoom, image⟩ })

/-- Forget the page image and make all tickets void. -/
def invalidate (p : Pipeline) : Pipeline :=
  { p with generation := p.generation + 1, base := none }

/-- Whether the store has changed since a scene was last looked at. -/
def needsRedraw (p : Pipeline) (storeVersion : Nat) : Bool :=
  storeVersion != p.seenVersion

/-- The image a scene is drawn over and its zoom: that of the scene's page, or an empty one. -/
def ground (p : Pipeline) (scene : Scene) : Image × Scalar :=
  let empty := Image.filled (pixelCount (scene.pageSize.width * scene.zoom * p.pixelRatio))
    (pixelCount (scene.pageSize.height * scene.zoom * p.pixelRatio)) .white
  match p.base with
  | none => (empty, scene.zoom)
  | some base => if base.page = scene.page then (base.image, base.zoom) else (empty, scene.zoom)

/-- Draw a scene, unless the store is at a later version. -/
def paintFrame (p : Pipeline) (storeVersion : Nat) (scene : Scene) : Option Image × Pipeline :=
  let p := { p with seenVersion := storeVersion }
  if scene.version < storeVersion then (none, p)
  else
    let (image, zoom) := p.ground scene
    (some (paintOverlay p.fonts scene (zoom * p.pixelRatio) image), p)

end Pipeline

end Marginalia.Render
