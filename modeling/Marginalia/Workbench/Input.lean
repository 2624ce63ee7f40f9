import Marginalia.Workbench.Basic

/-!
# Input to the workbench

What the user does, and what the host has to do after it. Whenever something has changed that
belongs to the session, the session is saved.
-/

namespace Marginalia

/-- Something the user does. -/
inductive Input where
  | pointerDown (event : PointerEvent)
  | pointerMove (event : PointerEvent)
  | pointerUp (event : PointerEvent)
  | keyDown (key : Key) (shift : Bool)
  | setMode (mode : EditMode)
  | setPage (page : Nat)
  | setZoom (zoom : Scalar)
  | updateText (text : String)
  | updateFontSize (fontSize : Scalar)
  | updateFamily (family : FontFamily)
  | updateColor (color : Color)
  deriving DecidableEq, Repr

namespace Workbench

def react (c : Controller) (s : Store) : Input → Handled
  | .pointerDown e => c.pointerDown s e
  | .pointerMove e => c.pointerMove s e
  | .pointerUp e => c.pointerUp s e
  | .keyDown key shift => c.keyDown s key shift
  | .setMode mode => c.setMode s mode
  | .setPage page => c.cancelThen (s.setPage page) .viewChange
  | .setZoom zoom =>
    let (reached, next) := s.setZoom zoom
    ⟨c, next, Controller.when (reached != s.state.zoom) .viewChange⟩
  | .updateText text => mutate (s.updateText text)
  | .updateFontSize fontSize => mutate (s.updateFontSize fontSize)
  | .updateFamily family => mutate (s.updateFamily family)
  | .updateColor color => mutate (s.updateColor color)
where
  /-- A change of the selected annotation. -/
  mutate (change : Bool × Store) : Handled :=
    ⟨c, change.2, Controller.when change.1 .mutation⟩

/-- Take an input. -/
def handle (w : Workbench) (now : Instant) (input : Input) : Effects × Workbench :=
  let handled := react w.controller w.store input
  let w := { w with controller := handled.controller, store := handled.store }
  (handled.effects, if handled.effects.persist then w.persist now else w)

def setPendingText (w : Workbench) (text : String) : Workbench :=
  { w with controller := { w.controller with pendingText := text } }

def setTextStyle (w : Workbench) (style : TextStyle) : Workbench :=
  { w with controller := { w.controller with textStyle := style } }

def setRectColor (w : Workbench) (color : Color) : Workbench :=
  { w with controller := { w.controller with rectColor := color } }

end Workbench

end Marginalia
