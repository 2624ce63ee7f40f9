import Marginalia.Annotation.Basic
import Marginalia.Ascending
import Marginalia.EditorState

/-!
# Gestures

What the pointer or the fingers are in the middle of. Points of a drawing or a drag are in document
units, those of a pan are screen pixels.
-/

namespace Marginalia

/-- The gesture that is under way. A drag remembers the last pointer position and whether anything
has been moved yet. -/
inductive Gesture where
  | idle
  | drawing (origin current : Point Scalar)
  | dragging (target : AnnotationRef) (last : Point Scalar) (moved : Bool)
  | panning (origin initialScroll : Point Scalar)
  | pinching (initialDistance initialZoom : Scalar)
  deriving DecidableEq, Repr

/-- The buttons of a pointer. -/
inductive PointerButton where
  | primary
  | secondary
  deriving DecidableEq, Repr

/-- A pointer at a place of the screen; fingers have numbers. -/
structure PointerEvent where
  place : Point Scalar
  button : PointerButton
  finger : Option Nat
  deriving DecidableEq, Repr

/-- The keys that mean something. -/
inductive Key where
  | delete
  | backspace
  | escape
  | left
  | right
  | up
  | down
  | undo
  deriving DecidableEq, Repr

/-- The fingers on the screen with their positions, by ascending number. -/
abbrev Touches := List (Nat × Point Scalar)

namespace Touches

def press (t : Touches) (finger : Nat) (place : Point Scalar) : Touches :=
  Ascending.insert Prod.fst (finger, place) t

def move (t : Touches) (finger : Nat) (place : Point Scalar) : Touches :=
  t.map fun (f, p) ↦ if f = finger then (f, place) else (f, p)

def lift (t : Touches) (finger : Nat) : Touches :=
  t.filter fun (f, _) ↦ f != finger

/-- The distance between two points. -/
def between (a b : Point Scalar) : Scalar :=
  ((a.x - b.x) * (a.x - b.x) + (a.y - b.y) * (a.y - b.y)).sqrt

/-- The distance of the two fingers with the least numbers. -/
def distance? : Touches → Option Scalar
  | (_, a) :: (_, b) :: _ => some (between a b)
  | _ => none

end Touches

end Marginalia
