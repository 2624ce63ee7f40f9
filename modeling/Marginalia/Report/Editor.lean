import Marginalia.Editor.Controller
import Marginalia.Editor.Store.Operation
import Marginalia.Report.Annotations

/-!
# Reports on editing

Descriptions of the store, of what it answers, and of the controller.
-/

namespace Marginalia.Report

open Json (Value)

def effects (e : Effects) : Value := object [
  ("overlay", flag e.redrawOverlay),
  ("base", flag e.rerenderBase),
  ("persist", flag e.persist),
  ("scroll", optional point e.scrollTo)]

def answer : Store.Answer → Value
  | .nothing => .null
  | .flag b => flag b
  | .ref r => ref r
  | .zoom z => number z

/-- The view, the history and the annotations of a store. -/
def store (s : Store) : List (String × Value) := [
  ("sel", ref s.state.selected),
  ("hov", ref s.state.hovered),
  ("page", count s.state.currentPage),
  ("pages", count s.state.totalPages),
  ("zoom", number s.state.zoom),
  ("mode", text s.state.mode.name),
  ("ver", count s.version),
  ("hist", count s.history.size),
  ("undo", flag !s.history.isEmpty),
  ("ann", annotations s.annotations)]

def gesture : Gesture → Value
  | .idle => text "Idle"
  | .drawing origin current => object [("DrawingRect", list point [origin, current])]
  | .dragging target last moved =>
    object [("Dragging", .array [text target.text, point last, flag moved])]
  | .panning origin scroll => object [("Panning", list point [origin, scroll])]
  | .pinching distance zoom => object [("Pinching", list number [distance, zoom])]

/-- The gesture of a controller and what the next annotation will look like. -/
def controller (c : Controller) : Value := object [
  ("gesture", gesture c.gesture),
  ("live", optional box c.liveRect),
  ("scroll", point c.scroll),
  ("pending", text c.pendingText),
  ("style", style c.textStyle),
  ("rect_color", text c.rectColor.hex)]

end Marginalia.Report
