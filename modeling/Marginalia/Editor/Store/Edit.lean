import Marginalia.Editor.Store.Basic

/-!
# Editing the selection

Changes of the view and of the selected annotation. Each answers whether anything changed, and
each change of an annotation can be undone; a drag is recorded once, when it begins.
-/

namespace Marginalia.Store

/-! ## The view -/

/-- Select an annotation that is in the set; the answer says whether it is. -/
def select (s : Store) (r : AnnotationRef) : Bool × Store :=
  if !s.annotations.contains r then (false, s)
  else if s.state.selected = some r then (true, s)
  else (true, { s with state := { s.state with selected := some r } }.bump)

def deselect (s : Store) : Bool × Store :=
  if s.state.selected.isNone then (false, s)
  else (true, { s with state := { s.state with selected := none } }.bump)

/-- Note which annotation is under the pointer; one that is not in the set counts as none. -/
def setHovered (s : Store) (r : Option AnnotationRef) : Bool × Store :=
  let r := r.filter s.annotations.contains
  if s.state.hovered = r then (false, s)
  else (true, { s with state := { s.state with hovered := r } }.bump)

def setMode (s : Store) (mode : EditMode) : Bool × Store :=
  if s.state.mode = mode then (false, s)
  else (true, { s with state := { s.state with mode } }.bump)

/-- Go to the nearest page of the document; selection and hover are forgotten. -/
def setPage (s : Store) (page : Nat) : Bool × Store :=
  let page := s.state.clampPage page
  if page = s.state.currentPage then (false, s)
  else
    (true, { s with
      state := { s.state with currentPage := page, selected := none, hovered := none } }.bump)

/-- Change the zoom to the nearest one that is allowed, which is the answer. -/
def setZoom (s : Store) (zoom : Scalar) : Scalar × Store :=
  let zoom := clampZoom zoom
  if zoom == s.state.zoom then (zoom, s)
  else (zoom, { s with state := { s.state with zoom } }.bump)

/-! ## The selected annotation -/

/-- Change the first element with a number. -/
def modifyFirst {α : Type} (id : α → Nat) (f : α → α) (n : Nat) : List α → List α
  | [] => []
  | a :: rest => if id a = n then f a :: rest else a :: modifyFirst id f n rest

def modified (set : AnnotationSet) (r : AnnotationRef) (label : Label → Label)
    (patch : Patch → Patch) : AnnotationSet :=
  match r.kind with
  | .label => { set with labels := modifyFirst Label.id label r.id set.labels }
  | .patch => { set with patches := modifyFirst Patch.id patch r.id set.patches }

def selectedLabel? (s : Store) : Option Label := do
  let r ← s.state.selected
  guard (r.kind = .label)
  s.annotations.label? r.id

/-- Change the selected label in a way that may turn out to be none; its size follows. -/
def editLabel (s : Store) (edit : Label → Option Label) : Bool × Store :=
  match s.selectedLabel?.bind edit with
  | none => (false, s)
  | some label =>
    let size := s.measure label.text label.style
    let label := { label with width := size.width, height := size.height }
    let s := s.snapshot
    (true, { s with
      annotations := { s.annotations with
        labels := modifyFirst Label.id (fun _ ↦ label) label.id s.annotations.labels } }.bump)

def updateText (s : Store) (text : String) : Bool × Store :=
  s.editLabel fun l ↦ if l.text = text then none else some { l with text }

/-- Change the font size of the selected label to a positive one. -/
def updateFontSize (s : Store) (fontSize : Scalar) : Bool × Store :=
  if fontSize.isFinite && 0 < fontSize then
    s.editLabel fun l ↦
      if l.style.fontSize == fontSize then none
      else some { l with style := { l.style with fontSize } }
  else (false, s)

/-- Change the font family of the selected label. -/
def updateFamily (s : Store) (family : FontFamily) : Bool × Store :=
  s.editLabel fun l ↦
    if l.style.family = family then none else some { l with style := { l.style with family } }

def color? (set : AnnotationSet) (r : AnnotationRef) : Option Color :=
  match r.kind with
  | .label => (set.label? r.id).map fun l ↦ l.style.color
  | .patch => (set.patch? r.id).map Patch.color

def updateColor (s : Store) (color : Color) : Bool × Store :=
  match s.state.selected with
  | none => (false, s)
  | some r =>
    match color? s.annotations r with
    | none => (false, s)
    | some current =>
      if current = color then (false, s)
      else
        let s := s.snapshot
        (true, { s with
          annotations := modified s.annotations r
            (fun l ↦ { l with style := { l.style with color } })
            (fun p ↦ { p with color }) }.bump)

/-- The annotation that is selected, if it is in the set. -/
def validSelection? (s : Store) : Option AnnotationRef :=
  s.state.selected.filter s.annotations.contains

def without (set : AnnotationSet) (r : AnnotationRef) : AnnotationSet :=
  match r.kind with
  | .label => { set with labels := set.labels.filter fun l ↦ l.id != r.id }
  | .patch => { set with patches := set.patches.filter fun p ↦ p.id != r.id }

def delete (s : Store) : Bool × Store :=
  match s.validSelection? with
  | none => (false, s)
  | some r =>
    let s := s.snapshot
    let annotations := without s.annotations r
    (true, { s with annotations, state := s.state.retainValidRefs annotations }.bump)

def moved (set : AnnotationSet) (r : AnnotationRef) (dx dy : Scalar) : AnnotationSet :=
  modified set r (fun l ↦ { l with x := l.x + dx, y := l.y + dy })
    (fun p ↦ { p with x := p.x + dx, y := p.y + dy })

/-- Move the selected annotation as a change of its own. -/
def nudge (s : Store) (dx dy : Scalar) : Bool × Store :=
  match s.validSelection? with
  | none => (false, s)
  | some r =>
    if dx == 0 && dy == 0 then (false, s)
    else
      let s := s.snapshot
      (true, { s with annotations := moved s.annotations r dx dy }.bump)

def beginDrag (s : Store) : Bool × Store :=
  if s.validSelection?.isNone then (false, s) else (true, s.snapshot)

/-- Move the selected annotation during a drag. -/
def drag (s : Store) (dx dy : Scalar) : Bool × Store :=
  match s.validSelection? with
  | none => (false, s)
  | some r => (true, { s with annotations := moved s.annotations r dx dy }.bump)

/-- Go back to the annotations before the last change. -/
def undo (s : Store) : Bool × Store :=
  match s.history.pop? with
  | none => (false, s)
  | some (annotations, history) =>
    (true, { s with annotations, history, state := s.state.retainValidRefs annotations }.bump)

end Marginalia.Store
