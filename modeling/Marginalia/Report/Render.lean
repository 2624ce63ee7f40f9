import Marginalia.Render.Pipeline
import Marginalia.Report.Editor
import Std.Data.HashMap

/-!
# Reports on rendering

Descriptions of images, scenes and the render pipeline.
-/

namespace Marginalia.Report

open Json (Value)

/-- How often each pixel occurs in an image. -/
def histogram (image : Render.Image) : Value :=
  let counts := image.pixels.foldl
    (fun counts p ↦ counts.alter (p.color.red, p.color.green, p.color.blue, p.alpha)
      fun n ↦ some (n.getD 0 + 1))
    (∅ : Std.HashMap (UInt8 × UInt8 × UInt8 × UInt8) Nat)
  object (counts.toList.map fun ((r, g, b, a), n) ↦
    ((⟨⟨r, g, b⟩, a⟩ : Render.Pixel).hex, count n))

/-- The pixel at a place, or nothing outside of the image. -/
def pixelAt (image : Render.Image) (place : Int × Int) : Value :=
  if place.1 < 0 || place.2 < 0 then .null
  else optional (fun (p : Render.Pixel) ↦ text p.hex) (image.get? place.1.toNat place.2.toNat)

/-- The size of an image, some of its pixels, and how often each pixel occurs. -/
def image (i : Render.Image) (places : Option (List (Int × Int))) (withHistogram : Bool) : Value :=
  object ([("size", list count [i.width, i.height])] ++
    member "px" (list (pixelAt i)) places ++
    if withHistogram then [("histogram", histogram i)] else [])

def pipeline (p : Render.Pipeline) (s : Store) : Value := object [
  ("generation", count p.generation),
  ("dpr", number p.pixelRatio),
  ("base", optional (fun (b : Render.BaseLayer) ↦
    .array [count b.page, number b.zoom, count b.image.width, count b.image.height]) p.base),
  ("needs_redraw", flag (p.needsRedraw s.version))]

def ticket (t : Render.BaseTicket) : Value := object [
  ("generation", count t.generation),
  ("page", count t.page),
  ("zoom", number t.zoom),
  ("request", .array [count t.request.page, number t.request.scale])]

def scene (s : Render.Scene) : Value := object [
  ("version", count s.version),
  ("page", count s.page),
  ("zoom", number s.zoom),
  ("page_size", size s.pageSize),
  ("ann", annotations s.annotations),
  ("sel", ref s.selected),
  ("hov", ref s.hovered),
  ("live", optional (fun (b, c) ↦ .array [box b, text (Color.hex c)]) s.live)]

end Marginalia.Report
