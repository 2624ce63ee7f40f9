import Marginalia.Editor.Effects
import Marginalia.Editor.Gesture
import Marginalia.Editor.Store.Edit
import Marginalia.Editor.Store.Hit
import Marginalia.Text.Blank

/-!
# The controller

Turns what the pointer, the fingers and the keys do into changes of the store. There is one gesture
at a time. A drag is recorded for undo when it first moves something.
-/

namespace Marginalia

/-- The gesture under way, and what the next label or patch will look like. -/
structure Controller where
  gesture : Gesture
  pendingText : String
  textStyle : TextStyle
  rectColor : Color
  scroll : Point Scalar
  touches : Touches
  deriving DecidableEq, Repr

/-- A controller, a store, and what has to be done after an event. -/
structure Handled where
  controller : Controller
  store : Store
  effects : Effects

namespace Controller

def new (textStyle : TextStyle) (rectColor : Color) : Controller where
  gesture := .idle
  pendingText := ""
  textStyle
  rectColor
  scroll := ⟨0, 0⟩
  touches := []

def liveRect (c : Controller) : Option (Box Scalar) :=
  match c.gesture with
  | .drawing origin current => some (Box.ofCorners origin current)
  | _ => none

/-- What the end of a gesture by something else than its natural end means. -/
def cancelEffects : Gesture → Effects
  | .idle => .none
  | .drawing _ _ => .overlay
  | .dragging _ _ true => .mutation
  | .dragging _ _ false => .overlay
  | .panning _ _ => .none
  | .pinching _ _ => { Effects.none with persist := true }

/-- Give up the gesture: a rectangle is dropped, and a drag stays where it is. -/
def cancel (c : Controller) : Controller × Effects :=
  ({ c with gesture := .idle }, cancelEffects c.gesture)

def when (changed : Bool) (effects : Effects) : Effects :=
  if changed then effects else .none

/-- Change the mode; the gesture is given up. -/
def setMode (c : Controller) (s : Store) (mode : EditMode) : Handled :=
  let (c, effects) := c.cancel
  let (changed, s) := s.setMode mode
  ⟨c, s, effects.merge (when changed .overlay)⟩

/-- Note what the finger of an event does, if it is one that does it. -/
def track (c : Controller) (e : PointerEvent) (change : Touches → Nat → Touches) : Controller :=
  match e.finger with
  | some finger => { c with touches := change c.touches finger }
  | none => c

/-! ## Pressing -/

/-- Begin to zoom with two fingers; fingers at one point begin nothing. -/
def startPinch (c : Controller) (s : Store) : Handled :=
  let (c, effects) := c.cancel
  let gesture := match c.touches.distance? with
    | some distance => if 0 < distance then .pinching distance s.state.zoom else .idle
    | none => .idle
  ⟨{ c with gesture }, s, effects⟩

def startPan (c : Controller) (s : Store) (place : Point Scalar) : Handled :=
  let (c, effects) := c.cancel
  ⟨{ c with gesture := .panning place c.scroll }, s, effects⟩

def placeText (c : Controller) (s : Store) (point : Point Scalar) : Handled :=
  if (Text.trim c.pendingText.toList).isEmpty then ⟨c, s, .none⟩
  else
    let (added, s) := s.addText point c.pendingText c.textStyle
    ⟨c, s, when added.isSome .mutation⟩

/-- Press on the selection to drag it, or on something else to select it. -/
def pressSelect (c : Controller) (s : Store) (place point : Point Scalar) : Handled :=
  match s.state.selected.filter fun _ ↦ s.selectionContains place with
  | some target => ⟨{ c with gesture := .dragging target point false }, s, .none⟩
  | none =>
    match s.hit? place with
    | some hit =>
      if s.state.selected = some hit then ⟨c, s, .none⟩
      else
        let (changed, s) := s.select hit
        ⟨c, s, when changed .overlay⟩
    | none =>
      let (changed, s) := s.deselect
      ⟨c, s, when changed .overlay⟩

def press (c : Controller) (s : Store) (place : Point Scalar) : Handled :=
  let point := place.toDocument s.state.zoom
  match s.state.mode with
  | .addText => c.placeText s point
  | .addRect => ⟨{ c with gesture := .drawing point point }, s, .overlay⟩
  | .select => c.pressSelect s place point

/-- The pointer or a finger goes down. A second finger begins to zoom, and the secondary button
moves the page. -/
def pointerDown (c : Controller) (s : Store) (e : PointerEvent) : Handled :=
  let c := c.track e fun touches finger ↦ touches.press finger e.place
  if e.finger.isSome && 2 ≤ c.touches.length then c.startPinch s
  else if e.button = .secondary then c.startPan s e.place
  else if c.gesture = .idle then c.press s e.place
  else ⟨c, s, .none⟩

/-! ## Moving -/

def moveDrag (c : Controller) (s : Store) (target : AnnotationRef) (last : Point Scalar)
    (moved : Bool) (point : Point Scalar) : Handled :=
  let dx := point.x - last.x
  let dy := point.y - last.y
  if dx == 0 && dy == 0 then ⟨{ c with gesture := .dragging target point moved }, s, .none⟩
  else
    let (moved, s) := if moved then (true, s) else s.beginDrag
    let (changed, s) := s.drag dx dy
    ⟨{ c with gesture := .dragging target point moved }, s, when changed .overlay⟩

/-- Move the page under the pointer, never beyond its upper left corner. -/
def movePan (c : Controller) (s : Store) (origin initialScroll place : Point Scalar) : Handled :=
  let scroll : Point Scalar := ⟨Scalar.greater (initialScroll.x - (place.x - origin.x)) 0,
    Scalar.greater (initialScroll.y - (place.y - origin.y)) 0⟩
  if scroll.x == c.scroll.x && scroll.y == c.scroll.y then ⟨c, s, .none⟩
  else ⟨{ c with scroll }, s, { Effects.none with scrollTo := some scroll }⟩

def movePinch (c : Controller) (s : Store) (initialDistance initialZoom : Scalar) : Handled :=
  match c.touches.distance? with
  | none => ⟨c, s, .none⟩
  | some distance =>
    let (zoom, next) := s.setZoom (initialZoom * distance / initialDistance)
    ⟨c, next, when (zoom != s.state.zoom)
      { Effects.none with redrawOverlay := true, rerenderBase := true }⟩

def pointerMove (c : Controller) (s : Store) (e : PointerEvent) : Handled :=
  let c := c.track e fun touches finger ↦ touches.move finger e.place
  let point := e.place.toDocument s.state.zoom
  match c.gesture with
  | .idle =>
    if s.state.mode = .select then
      let (changed, s) := s.setHovered (s.hit? e.place)
      ⟨c, s, when changed .overlay⟩
    else ⟨c, s, .none⟩
  | .drawing origin _ => ⟨{ c with gesture := .drawing origin point }, s, .overlay⟩
  | .dragging target last moved => c.moveDrag s target last moved point
  | .panning origin initialScroll => c.movePan s origin initialScroll e.place
  | .pinching initialDistance initialZoom => c.movePinch s initialDistance initialZoom

/-! ## Releasing -/

/-- The gesture comes to its natural end at a point. Zooming ends only when a finger is lifted. -/
def release (c : Controller) (s : Store) (point : Point Scalar) : Handled :=
  let atRest : Controller := { c with gesture := .idle }
  match c.gesture with
  | .drawing origin _ =>
    let (added, s) := s.addRect (Box.ofCorners origin point) c.rectColor
    ⟨atRest, s, if added.isSome then .mutation else .overlay⟩
  | .dragging _ _ true => ⟨atRest, s, .mutation⟩
  | .pinching _ _ => ⟨c, s, .none⟩
  | _ => ⟨atRest, s, .none⟩

/-- Whether two fingers are zooming. -/
def isPinching (c : Controller) : Bool :=
  match c.gesture with
  | .pinching _ _ => true
  | _ => false

/-- The pointer is released, or a finger is lifted. -/
def pointerUp (c : Controller) (s : Store) (e : PointerEvent) : Handled :=
  let c := c.track e Touches.lift
  if e.finger.isSome && c.isPinching then
    if c.touches.length < 2 then
      let (c, effects) := c.cancel
      ⟨c, s, effects⟩
    else ⟨c, s, .none⟩
  else c.release s (e.place.toDocument s.state.zoom)

/-! ## Keys -/

/-- Give up the gesture and then change the store. -/
def cancelThen (c : Controller) (change : Bool × Store) (effects : Effects) : Handled :=
  let (c, given) := c.cancel
  ⟨c, change.2, given.merge (when change.1 effects)⟩

def nudge (c : Controller) (s : Store) (dx dy : Scalar) : Handled :=
  let (changed, s) := s.nudge dx dy
  ⟨c, s, when changed .mutation⟩

/-- A key goes down; the shift key makes steps ten times as long. -/
def keyDown (c : Controller) (s : Store) (key : Key) (shift : Bool) : Handled :=
  let step : Scalar := if shift then 10 else 1
  match key with
  | .delete => c.cancelThen s.delete .mutation
  | .backspace => c.cancelThen s.delete .mutation
  | .escape => c.cancelThen s.deselect .overlay
  | .left => c.nudge s (-step) 0
  | .right => c.nudge s step 0
  | .up => c.nudge s 0 (-step)
  | .down => c.nudge s 0 step
  | .undo => c.cancelThen s.undo .mutation

end Controller

end Marginalia
