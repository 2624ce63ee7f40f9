import Marginalia.Annotation.Stored
import Marginalia.Editor.Store.Operation
import Marginalia.Request.Field
import Marginalia.Workbench.Input

/-!
# Editing requests

Requests to a store and to the workbench. A step names what is to be done under `do` and has one
field for each argument.
-/

namespace Marginalia.Request

open Json (Value)

/-! ## Values -/

def ref? (v : Value) : Option AnnotationRef := v.string?.bind AnnotationRef.ofText?

def family? (v : Value) : Option FontFamily := v.string?.bind FontFamily.ofName?

def mode? (v : Value) : Option EditMode := v.string?.bind EditMode.ofName?

/-- A style; a missing part is that of the standard style. -/
def style (r : Value) : Decoded TextStyle := do
  let standard := TextStyle.standard
  return ⟨← withDefault r "size" scalar? standard.fontSize,
    ← withDefault r "family" family? standard.family,
    ← withDefault r "color" color? standard.color⟩

def annotations (r : Value) (name : String) : Decoded AnnotationSet := do
  match Stored.set? (← given name (field? r name)) with
  | some set => return set
  | none => .error .annotations

/-! ## Steps -/

/-- An operation on a store. Some of them take a set of annotations that was set aside. -/
def operation (aside : String → AnnotationSet) (r : Value) (action : String) :
    Decoded Store.Operation := do
  match action with
  | "load_document" => return .loadDocument (← required r "pages" wrapped?)
  | "clear" => return .clear
  | "restore" => return .restore (← annotations r "set")
  | "restore_saved" => return .restore (aside (← text r "from"))
  | "retire" =>
    match ← optional r "from" Value.string? with
    | some name => return .retireExported (aside name)
    | none => return .retireExported (← annotations r "set")
  | "add_text" => return .addText (← pair r "x" "y") (← text r "text") (← style r)
  | "add_rect" =>
    let origin ← pair r "x" "y"
    let extent ← pair r "w" "h"
    return .addRect ⟨origin.x, origin.y, extent.x, extent.y⟩ (← withDefault r "color" color? .white)
  | "hit" => return .hit (← pair r "x" "y")
  | "sel_contains" => return .selectionContains (← pair r "x" "y")
  | "select" => return .select (← required r "ref" ref?)
  | "deselect" => return .deselect
  | "hover" => return .setHovered (← optional r "ref" ref?)
  | "mode" => return .setMode (← required r "mode" mode?)
  | "page" => return .setPage (← required r "page" wrapped?)
  | "zoom" => return .setZoom (← required r "zoom" scalar?)
  | "set_text" => return .updateText (← text r "text")
  | "set_size" => return .updateFontSize (← required r "size" scalar?)
  | "set_family" => return .updateFamily (← required r "family" family?)
  | "set_color" => return .updateColor (← required r "color" color?)
  | "delete" => return .delete
  | "nudge" => return .nudge (← required r "dx" scalar?) (← required r "dy" scalar?)
  | "begin_drag" => return .beginDrag
  | "drag" => return .drag (← required r "dx" scalar?) (← required r "dy" scalar?)
  | "undo" => return .undo
  | _ => .error (.field "do")

/-- What a pointer does: the mouse, or a finger with a number. -/
def pointer (r : Value) : Decoded PointerEvent := do
  let button := if ← flag r "secondary" then .secondary else .primary
  return ⟨← pair r "x" "y", button, ← optional r "touch" Value.nat64?⟩

def key? (v : Value) : Option Key := do
  match ← v.string? with
  | "Delete" => some .delete
  | "Backspace" => some .backspace
  | "Escape" => some .escape
  | "ArrowLeft" => some .left
  | "ArrowRight" => some .right
  | "ArrowUp" => some .up
  | "ArrowDown" => some .down
  | "Undo" => some .undo
  | _ => none

/-- The pointer, the keys and the mode, if the step is about them. -/
def gesture? (r : Value) (action : String) : Decoded (Option Input) := do
  match action with
  | "down" => return some (.pointerDown (← pointer r))
  | "move" => return some (.pointerMove (← pointer r))
  | "up" => return some (.pointerUp (← pointer r))
  | "key" => return some (.keyDown (← required r "key" key?) (← flag r "shift"))
  | "set_mode" => return some (.setMode (← required r "mode" mode?))
  | _ => return none

/-- Any input, if the step is one. -/
def input? (r : Value) (action : String) : Decoded (Option Input) := do
  match action with
  | "page" => return some (.setPage (← required r "page" wrapped?))
  | "zoom" => return some (.setZoom (← required r "zoom" scalar?))
  | "set_text" => return some (.updateText (← text r "text"))
  | "set_size" => return some (.updateFontSize (← required r "size" scalar?))
  | "set_family" => return some (.updateFamily (← required r "family" family?))
  | "set_color" => return some (.updateColor (← required r "color" color?))
  | _ => gesture? r action

end Marginalia.Request
