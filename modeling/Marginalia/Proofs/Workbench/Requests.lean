import Marginalia.Editor.Store.Operation
import Marginalia.Workbench.Input

/-!
# What inputs ask of the store

An input reaches the store as a short list of operations, which the controller chooses by the
gesture under way and by what it sees of the store. What holds of every operation therefore holds of
every input.
-/

namespace Marginalia

namespace Controller

/-- What a press in the selection mode asks of the store. -/
def selectRequests (s : Store) (place : Point Scalar) : List Store.Operation :=
  if (s.state.selected.filter fun _ ↦ s.selectionContains place).isSome then []
  else
    match s.hit? place with
    | some hit => if s.state.selected = some hit then [] else [.select hit]
    | none => [.deselect]

theorem pressSelect_store (c : Controller) (s : Store) (place point : Point Scalar) :
    (c.pressSelect s place point).store = s.run (selectRequests s place) := by
  unfold pressSelect selectRequests
  cases s.state.selected.filter fun _ ↦ s.selectionContains place with
  | some target => rfl
  | none =>
    simp only [Option.isSome_none, Bool.false_eq_true, if_false]
    cases s.hit? place with
    | none => rfl
    | some hit =>
      dsimp only
      split
      · rfl
      · rfl

/-- What a press asks of the store where no gesture is under way. -/
def pressRequests (c : Controller) (s : Store) (place : Point Scalar) : List Store.Operation :=
  match s.state.mode with
  | .addText =>
    if (Text.trim c.pendingText.toList).isEmpty then []
    else [.addText (place.toDocument s.state.zoom) c.pendingText c.textStyle]
  | .addRect => []
  | .select => selectRequests s place

theorem press_store (c : Controller) (s : Store) (place : Point Scalar) :
    (c.press s place).store = s.run (c.pressRequests s place) := by
  unfold press pressRequests
  cases s.state.mode with
  | addText =>
    simp only [placeText]
    split
    · rfl
    · rfl
  | addRect => rfl
  | select => exact c.pressSelect_store s place _

/-- What a pointer that goes down asks of the store. -/
def pointerDownRequests (c : Controller) (s : Store) (e : PointerEvent) : List Store.Operation :=
  let c := c.track e fun touches finger ↦ touches.press finger e.place
  if e.finger.isSome && 2 ≤ c.touches.length then []
  else if e.button = .secondary then []
  else if c.gesture = .idle then c.pressRequests s e.place
  else []

theorem pointerDown_store (c : Controller) (s : Store) (e : PointerEvent) :
    (c.pointerDown s e).store = s.run (c.pointerDownRequests s e) := by
  unfold pointerDown pointerDownRequests
  dsimp only
  split
  · rfl
  · split
    · rfl
    · split
      · exact press_store _ s e.place
      · rfl

/-- Whether a pointer at a point is away from where it was last. -/
def hasDelta (last point : Point Scalar) : Bool :=
  !(point.x - last.x == 0 && point.y - last.y == 0)

/-- What a drag asks of the store; the annotations are recorded before the first move. -/
def dragRequests (last : Point Scalar) (moved : Bool) (point : Point Scalar) :
    List Store.Operation :=
  if hasDelta last point then
    (if moved then [] else [.beginDrag]) ++ [.drag (point.x - last.x) (point.y - last.y)]
  else []

theorem moveDrag_store (c : Controller) (s : Store) (target : AnnotationRef) (last : Point Scalar)
    (moved : Bool) (point : Point Scalar) :
    (c.moveDrag s target last moved point).store = s.run (dragRequests last moved point) := by
  unfold moveDrag dragRequests hasDelta
  dsimp only
  cases point.x - last.x == 0 && point.y - last.y == 0 with
  | true => rfl
  | false =>
    cases moved with
    | true => rfl
    | false => rfl

/-- What a pointer that moves asks of the store. -/
def pointerMoveRequests (c : Controller) (s : Store) (e : PointerEvent) : List Store.Operation :=
  let c := c.track e fun touches finger ↦ touches.move finger e.place
  match c.gesture with
  | .idle => if s.state.mode = .select then [.setHovered (s.hit? e.place)] else []
  | .dragging _ last moved => dragRequests last moved (e.place.toDocument s.state.zoom)
  | .pinching initialDistance initialZoom =>
    match c.touches.distance? with
    | some distance => [.setZoom (initialZoom * distance / initialDistance)]
    | none => []
  | _ => []

theorem pointerMove_store (c : Controller) (s : Store) (e : PointerEvent) :
    (c.pointerMove s e).store = s.run (c.pointerMoveRequests s e) := by
  unfold pointerMove pointerMoveRequests
  dsimp only
  generalize c.track e (fun touches finger ↦ touches.move finger e.place) = c
  cases c.gesture with
  | idle =>
    dsimp only
    split
    · rfl
    · rfl
  | drawing origin current => rfl
  | dragging target last moved => exact moveDrag_store c s target last moved _
  | panning origin initialScroll =>
    simp only [movePan]
    split
    · rfl
    · rfl
  | pinching initialDistance initialZoom =>
    simp only [movePinch]
    cases c.touches.distance? with
    | none => rfl
    | some distance => rfl

/-- What a pointer that goes up asks of the store. -/
def pointerUpRequests (c : Controller) (s : Store) (e : PointerEvent) : List Store.Operation :=
  let c := c.track e Touches.lift
  match c.gesture with
  | .drawing origin _ =>
    [.addRect (Box.ofCorners origin (e.place.toDocument s.state.zoom)) c.rectColor]
  | _ => []

theorem pointerUp_store (c : Controller) (s : Store) (e : PointerEvent) :
    (c.pointerUp s e).store = s.run (c.pointerUpRequests s e) := by
  unfold pointerUp pointerUpRequests
  dsimp only
  generalize c.track e Touches.lift = c
  cases hgesture : c.gesture with
  | idle => simp [isPinching, release, hgesture, Store.run]
  | drawing origin current => simp [isPinching, release, hgesture, Store.run, Store.apply]
  | dragging target last moved =>
    cases moved with
    | true => simp [isPinching, release, hgesture, Store.run]
    | false => simp [isPinching, release, hgesture, Store.run]
  | panning origin initialScroll => simp [isPinching, release, hgesture, Store.run]
  | pinching initialDistance initialZoom =>
    simp only [isPinching, release, hgesture, Store.run, List.foldl_nil]
    split
    · split
      · rfl
      · rfl
    · rfl

/-- What a key asks of the store. -/
def keyRequests (key : Key) (shift : Bool) : List Store.Operation :=
  let step : Scalar := if shift then 10 else 1
  match key with
  | .delete => [.delete]
  | .backspace => [.delete]
  | .escape => [.deselect]
  | .left => [.nudge (-step) 0]
  | .right => [.nudge step 0]
  | .up => [.nudge 0 (-step)]
  | .down => [.nudge 0 step]
  | .undo => [.undo]

theorem keyDown_store (c : Controller) (s : Store) (key : Key) (shift : Bool) :
    (c.keyDown s key shift).store = s.run (keyRequests key shift) := by
  cases key with
  | delete => rfl
  | backspace => rfl
  | escape => rfl
  | left => rfl
  | right => rfl
  | up => rfl
  | down => rfl
  | undo => rfl

end Controller

namespace Workbench

/-- What an input asks of the store. -/
def inputRequests (c : Controller) (s : Store) : Input → List Store.Operation
  | .pointerDown e => c.pointerDownRequests s e
  | .pointerMove e => c.pointerMoveRequests s e
  | .pointerUp e => c.pointerUpRequests s e
  | .keyDown key shift => Controller.keyRequests key shift
  | .setMode mode => [.setMode mode]
  | .setPage page => [.setPage page]
  | .setZoom zoom => [.setZoom zoom]
  | .updateText text => [.updateText text]
  | .updateFontSize fontSize => [.updateFontSize fontSize]
  | .updateFamily family => [.updateFamily family]
  | .updateColor color => [.updateColor color]

/-- An input does to the store what it asks for, and nothing else. -/
theorem react_store (c : Controller) (s : Store) (input : Input) :
    (react c s input).store = s.run (inputRequests c s input) := by
  cases input with
  | pointerDown e => exact c.pointerDown_store s e
  | pointerMove e => exact c.pointerMove_store s e
  | pointerUp e => exact c.pointerUp_store s e
  | keyDown key shift => exact c.keyDown_store s key shift
  | setMode mode => rfl
  | setPage page => rfl
  | setZoom zoom => rfl
  | updateText text => rfl
  | updateFontSize fontSize => rfl
  | updateFamily family => rfl
  | updateColor color => rfl

end Workbench

end Marginalia
