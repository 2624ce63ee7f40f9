import Marginalia.Editor.Store.Basic

/-!
# What is under the pointer

The newest annotation wins, of whichever kind. A label may also be hit a little beside its box, but
only where nothing is hit exactly.
-/

namespace Marginalia.Store

/-- The later of two references; of two with the same number the second one. -/
def newer (best : Option AnnotationRef) (r : AnnotationRef) : Option AnnotationRef :=
  match best with
  | none => some r
  | some b => if r.id < b.id then some b else some r

/-- The newest of some references. -/
def newest (refs : List AnnotationRef) : Option AnnotationRef :=
  refs.foldl newer none

def patchesAt (set : AnnotationSet) (page : Nat) (p : Point Scalar) : List AnnotationRef :=
  ((set.patchesOn page).filter fun patch ↦ patch.bounds.contains p 0).map Patch.ref

/-- The labels of a page that a point lies in or near. -/
def labelsAt (set : AnnotationSet) (page : Nat) (p : Point Scalar) (margin : Scalar) :
    List AnnotationRef :=
  ((set.labelsOn page).filter fun l ↦ l.bounds.contains p margin).map Label.ref

/-- The annotation of the current page that is hit at a point of the screen. -/
def hit? (s : Store) (screen : Point Scalar) : Option AnnotationRef :=
  let p := screen.toDocument s.state.zoom
  let page := s.state.currentPage
  (newest (patchesAt s.annotations page p ++ labelsAt s.annotations page p 0)).or
    (newest (labelsAt s.annotations page p s.textHitMargin))

/-- Whether the selected annotation is hit at a point of the screen. -/
def selectionContains (s : Store) (screen : Point Scalar) : Bool :=
  match s.state.selected with
  | none => false
  | some r =>
    let margin := match r.kind with
      | .label => s.textHitMargin
      | .patch => 0
    (s.annotations.bounds? r).any fun b ↦ b.contains (screen.toDocument s.state.zoom) margin

end Marginalia.Store
