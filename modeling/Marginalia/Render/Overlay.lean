import Marginalia.Editor.Store.Basic
import Marginalia.Render.Image
import Marginalia.Render.Shape

/-!
# The overlay

What is drawn over a page: its patches, its labels, the rectangle that is being drawn, and frames
around the annotations under the pointer and selected. A scene holds all of it for one moment.
-/

namespace Marginalia.Render

/-- What the overlay shows at one moment. -/
structure Scene where
  version : Nat
  page : Nat
  zoom : Scalar
  pageSize : Size Scalar
  annotations : AnnotationSet
  selected : Option AnnotationRef
  hovered : Option AnnotationRef
  live : Option (Box Scalar × Color)
  deriving Repr

namespace Scene

def capture (s : Store) (pageSize : Size Scalar) (live : Option (Box Scalar × Color)) : Scene where
  version := s.version
  page := s.state.currentPage
  zoom := s.state.zoom
  pageSize
  annotations := ⟨s.annotations.labelsOn s.state.currentPage,
    s.annotations.patchesOn s.state.currentPage⟩
  selected := s.state.selected
  hovered := s.state.hovered
  live

end Scene

def selectionColor : Color := ⟨37, 99, 235⟩

def hoverColor : Color := ⟨147, 197, 253⟩

def fillBox (image : Image) (b : Box Scalar) (paint : Paint) (scale : Scalar) : Image :=
  match Sides.ofBox? b scale with
  | none => image
  | some sides => image.painted (fun x y ↦ sides.contains (center x y)) paint

/-- Draw a line along the sides of a box. -/
def frameBox (image : Image) (b : Box Scalar) (color : Color) (lineWidth scale : Scalar) : Image :=
  match Sides.ofBox? b scale with
  | none => image
  | some sides => image.painted (fun x y ↦ sides.onBorder lineWidth (center x y)) ⟨color, 255⟩

/-! ## Labels -/

/-- A path in font units moved to a pen position and enlarged; its upward direction is turned
downward. -/
def placed (pen : Point Scalar) (unit : Scalar) : Font.PathStep → Font.PathStep :=
  let place (p : Point Scalar) : Point Scalar := ⟨pen.x + p.x * unit, pen.y - p.y * unit⟩
  fun
  | .move p => .move (place p)
  | .line p => .line (place p)
  | .curve c p => .curve (place c) (place p)
  | .close => .close

/-- The path of a text from a pen position on. A character that the font does not have leaves a
gap. -/
def textPath (f : Font.Face) (unit gap : Scalar) :
    Point Scalar → List Char → List Font.PathStep
  | _, [] => []
  | pen, c :: rest =>
    match f.glyph? c with
    | none => textPath f unit gap ⟨pen.x + gap, pen.y⟩ rest
    | some glyph =>
      let advance := Scalar.ofNat ((f.advance? glyph).getD 0) * unit
      (f.path glyph).map (placed pen unit) ++
        textPath f unit gap ⟨pen.x + advance, pen.y⟩ rest

/-- Draw a label; without a font its box is tinted. -/
def drawLabel (fonts : Font.Library) (image : Image) (l : Label) (scale : Scalar) : Image :=
  match (fonts.get? l.style.family).bind fun asset ↦ Font.Face.ofBytes? asset.bytes with
  | none => fillBox image l.bounds ⟨l.style.color, 96⟩ scale
  | some f =>
    let size := l.style.fontSize * scale
    let steps := textPath f (size / Scalar.ofNat f.header.unitsPerEm) (size * 0.5)
      ⟨l.x * scale, l.y * scale⟩ l.text.toList
    let edges := Edge.ofSteps ⟨0, 0⟩ ⟨0, 0⟩ steps
    if edges.isEmpty then image
    else image.painted (fun x y ↦ windAround edges (center x y)) ⟨l.style.color, 255⟩

/-! ## Scenes -/

/-- Draw a frame around an annotation of the scene. -/
def frameRef (image : Image) (scene : Scene) (r : Option AnnotationRef) (color : Color)
    (lineWidth scale : Scalar) : Image :=
  match r.bind scene.annotations.bounds? with
  | none => image
  | some bounds => frameBox image bounds color lineWidth scale

/-- Draw a scene over an image: the patches, then the labels, then what is of the moment. -/
def paintOverlay (fonts : Font.Library) (scene : Scene) (scale : Scalar) (image : Image) : Image :=
  let image := scene.annotations.patches.foldl
    (fun image p ↦ fillBox image p.bounds ⟨p.color, 255⟩ scale) image
  let image := (scene.annotations.labels.filter fun l ↦ !l.text.isEmpty).foldl
    (fun image l ↦ drawLabel fonts image l scale) image
  let image := match scene.live with
    | none => image
    | some (b, color) => frameBox (fillBox image b ⟨color, 160⟩ scale) b selectionColor 1 scale
  let hovered := scene.hovered.filter fun r ↦ scene.selected ≠ some r
  let image := frameRef image scene hovered hoverColor 1 scale
  frameRef image scene scene.selected selectionColor 2 scale

end Marginalia.Render
