import Marginalia.Editor.Store.Edit
import Marginalia.Editor.Store.Hit

/-!
# Operations on a store

Everything that can be asked of a store, as a value, and what it answers. A run of a store is a list
of operations.
-/

namespace Marginalia.Store

/-- A request to a store. -/
inductive Operation where
  | loadDocument (pages : Nat)
  | clear
  | restore (set : AnnotationSet)
  | retireExported (exported : AnnotationSet)
  | addText (place : Point Scalar) (text : String) (style : TextStyle)
  | addRect (box : Box Scalar) (color : Color)
  | hit (screen : Point Scalar)
  | selectionContains (screen : Point Scalar)
  | select (ref : AnnotationRef)
  | deselect
  | setHovered (ref : Option AnnotationRef)
  | setMode (mode : EditMode)
  | setPage (page : Nat)
  | setZoom (zoom : Scalar)
  | updateText (text : String)
  | updateFontSize (fontSize : Scalar)
  | updateFamily (family : FontFamily)
  | updateColor (color : Color)
  | delete
  | nudge (dx dy : Scalar)
  | beginDrag
  | drag (dx dy : Scalar)
  | undo
  deriving DecidableEq, Repr

/-- What a store answers. -/
inductive Answer where
  | nothing
  | flag (value : Bool)
  | ref (value : Option AnnotationRef)
  | zoom (value : Scalar)
  deriving Repr

def apply (s : Store) : Operation → Answer × Store
  | .loadDocument pages => (.nothing, s.loadDocument pages)
  | .clear => (.nothing, s.clear)
  | .restore set => (.nothing, s.restore set)
  | .retireExported exported => (.nothing, s.retireExported exported)
  | .addText place text style => (s.addText place text style).map .ref id
  | .addRect box color => (s.addRect box color).map .ref id
  | .hit screen => (.ref (s.hit? screen), s)
  | .selectionContains screen => (.flag (s.selectionContains screen), s)
  | .select r => (s.select r).map .flag id
  | .deselect => s.deselect.map .flag id
  | .setHovered r => (s.setHovered r).map .flag id
  | .setMode mode => (s.setMode mode).map .flag id
  | .setPage page => (s.setPage page).map .flag id
  | .setZoom zoom => (s.setZoom zoom).map .zoom id
  | .updateText text => (s.updateText text).map .flag id
  | .updateFontSize fontSize => (s.updateFontSize fontSize).map .flag id
  | .updateFamily family => (s.updateFamily family).map .flag id
  | .updateColor color => (s.updateColor color).map .flag id
  | .delete => s.delete.map .flag id
  | .nudge dx dy => (s.nudge dx dy).map .flag id
  | .beginDrag => s.beginDrag.map .flag id
  | .drag dx dy => (s.drag dx dy).map .flag id
  | .undo => s.undo.map .flag id

def run (s : Store) (operations : List Operation) : Store :=
  operations.foldl (fun s operation ↦ (s.apply operation).2) s

end Marginalia.Store
