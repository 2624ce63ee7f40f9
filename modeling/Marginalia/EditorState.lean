import Marginalia.Annotation.Set

/-!
# Editor state

What the editor shows of a document apart from its annotations: the page, the zoom, the mode, and
which annotations are selected and under the pointer.
-/

namespace Marginalia

def minZoom : Scalar := 0.25

def maxZoom : Scalar := 4

/-- The nearest zoom that is allowed; a zoom without a finite value becomes one. -/
def clampZoom (zoom : Scalar) : Scalar :=
  if zoom.isFinite then Scalar.clamp minZoom maxZoom zoom else 1

/-- What a press of the pointer does. -/
inductive EditMode where
  | addText
  | addRect
  | select
  deriving DecidableEq, Repr, Inhabited

def EditMode.name : EditMode → String
  | .addText => "AddText"
  | .addRect => "AddRect"
  | .select => "Select"

/-- The view of a document. -/
structure EditorState where
  currentPage : Nat
  totalPages : Nat
  zoom : Scalar
  mode : EditMode
  selected : Option AnnotationRef
  hovered : Option AnnotationRef
  deriving DecidableEq, Repr

namespace EditorState

def ofPages (totalPages : Nat) : EditorState := ⟨1, totalPages, 1, .select, none, none⟩

def initial : EditorState := ofPages 0

/-- The nearest page of the document; without pages there is page one. -/
def clampPage (s : EditorState) (page : Nat) : Nat :=
  min (max page 1) (max s.totalPages 1)

/-- Forget a selection or a hovered annotation that is not in the set. -/
def retainValidRefs (s : EditorState) (set : AnnotationSet) : EditorState :=
  { s with
    selected := s.selected.filter set.contains
    hovered := s.hovered.filter set.contains }

end EditorState

end Marginalia
