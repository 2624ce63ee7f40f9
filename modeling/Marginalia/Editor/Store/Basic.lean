import Marginalia.Editor.History
import Marginalia.Editor.Measure
import Marginalia.EditorState

/-!
# The annotation store

The annotations of the open document with the view, the undo history and the next free number.
Every change of the store raises its version, by which others see that they have to draw again.
-/

namespace Marginalia

/-- How a store behaves: how many changes can be undone, and how far beside a label it is still
hit. -/
structure StoreOptions where
  historyLimit : Nat
  textHitMargin : Scalar
  deriving DecidableEq, Repr

/-- Two hundred changes and four document units. -/
def StoreOptions.standard : StoreOptions := ⟨History.standardLimit, 4⟩

/-- The editable state of the open document. -/
structure Store where
  annotations : AnnotationSet
  state : EditorState
  history : History
  nextId : Nat
  measure : TextMeasure
  textHitMargin : Scalar
  version : Nat

namespace Store

def new (measure : TextMeasure) (options : StoreOptions) : Store where
  annotations := .empty
  state := .initial
  history := .new options.historyLimit
  nextId := 1
  measure
  textHitMargin := options.textHitMargin
  version := 0

def bump (s : Store) : Store := { s with version := s.version + 1 }

def snapshot (s : Store) : Store := { s with history := s.history.push s.annotations }

/-- Start afresh with a document of a number of pages; zoom and mode stay. -/
def loadDocument (s : Store) (pages : Nat) : Store :=
  { s with
    annotations := .empty
    state := { EditorState.ofPages pages with zoom := s.state.zoom, mode := s.state.mode }
    history := s.history.clear
    nextId := 1 }.bump

/-- Exchange the annotations for others that cannot be undone; references into the void are
forgotten. -/
def replaceAll (s : Store) (annotations : AnnotationSet) : Store :=
  { s with
    annotations
    state := s.state.retainValidRefs annotations
    history := s.history.clear }.bump

def clear (s : Store) : Store := s.replaceAll .empty

/-! ## Restoring -/

/-- The elements whose number is not among those seen, each number once; and all numbers seen. -/
def firstOfEach {α : Type} (id : α → Nat) : List Nat → List α → List α × List Nat
  | seen, [] => ([], seen)
  | seen, a :: rest =>
    if id a ∈ seen then firstOfEach id seen rest
    else
      let (kept, seen) := firstOfEach id (id a :: seen) rest
      (a :: kept, seen)

/-- The annotations of a set on pages of the document, without repeated numbers; labels come before
patches. -/
def admissible (pages : Nat) (set : AnnotationSet) : AnnotationSet :=
  let onPage (page : Nat) : Bool := 1 ≤ page && page ≤ pages
  let (labels, seen) := firstOfEach Label.id [] (set.labels.filter fun l ↦ onPage l.page)
  let (patches, _) := firstOfEach Patch.id seen (set.patches.filter fun p ↦ onPage p.page)
  ⟨labels, patches⟩

/-- Take over a whole set, for instance from a saved session. -/
def restore (s : Store) (set : AnnotationSet) : Store :=
  let kept := admissible s.state.totalPages set
  { s.replaceAll kept with nextId := (kept.maxId?.map (· + 1)).getD 1 }

def isExportedLabel (exported : AnnotationSet) (l : Label) : Bool :=
  (exported.label? l.id).any fun other ↦ other.agrees l

def isExportedPatch (exported : AnnotationSet) (p : Patch) : Bool :=
  (exported.patch? p.id).any fun other ↦ other.agrees p

/-- Remove the annotations that have not changed since a set of them was painted into the
document. -/
def retireExported (s : Store) (exported : AnnotationSet) : Store :=
  s.replaceAll {
    labels := s.annotations.labels.filter fun l ↦ !isExportedLabel exported l
    patches := s.annotations.patches.filter fun p ↦ !isExportedPatch exported p }

/-! ## Adding -/

/-- Add a label whose baseline starts at a point of the current page. -/
def addText (s : Store) (place : Point Scalar) (text : String) (style : TextStyle) :
    Option AnnotationRef × Store :=
  if text.isEmpty || s.state.totalPages == 0 then (none, s)
  else
    let size := s.measure text style
    let label : Label := {
      id := s.nextId
      page := s.state.currentPage
      x := place.x
      y := place.y
      text
      style
      width := size.width
      height := size.height }
    let s := s.snapshot
    (some label.ref, { s with
      annotations := { s.annotations with labels := s.annotations.labels ++ [label] }
      nextId := s.nextId + 1 }.bump)

/-- Add a patch to the current page, unless one of its edges is too short. -/
def addRect (s : Store) (box : Box Scalar) (color : Color) : Option AnnotationRef × Store :=
  if !box.meetsMinimum || s.state.totalPages == 0 then (none, s)
  else
    let patch : Patch := {
      id := s.nextId
      page := s.state.currentPage
      x := box.x
      y := box.y
      width := box.width
      height := box.height
      color }
    let s := s.snapshot
    (some patch.ref, { s with
      annotations := { s.annotations with patches := s.annotations.patches ++ [patch] }
      nextId := s.nextId + 1 }.bump)

end Store

end Marginalia
