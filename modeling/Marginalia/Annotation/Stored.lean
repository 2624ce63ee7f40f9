import Marginalia.EditorState
import Marginalia.Geometry.Rotation
import Marginalia.Json.Decode
import Marginalia.Json.Printer

/-!
# Stored annotations

The JSON form of annotation sets and editor states in session files.
-/

namespace Marginalia

open Json (Value Record)

def FontFamily.ofName? (name : String) : Option FontFamily :=
  FontFamily.all.find? fun family ↦ family.name == name

def EditMode.ofName? (name : String) : Option EditMode :=
  [EditMode.addText, .addRect, .select].find? fun mode ↦ mode.name == name

def AnnotationKind.name : AnnotationKind → String
  | .label => "text"
  | .patch => "rect"

def AnnotationKind.ofName? (name : String) : Option AnnotationKind :=
  [AnnotationKind.label, .patch].find? fun kind ↦ kind.name == name

namespace Stored

def color? (value : Value) : Option Color := do
  match Color.parse (← value.string?) with
  | .ok color => some color
  | .error _ => none

def family? (value : Value) : Option FontFamily := do
  FontFamily.ofName? (← value.choice?)

/-- A style; a missing part is that of the given one. -/
def style? (standard : TextStyle) (value : Value) : Option TextStyle := do
  let r ← Record.ofValue? ["font_size", "font_family", "color"] value
  return {
    fontSize := ← r.withDefault? "font_size" Value.single? standard.fontSize
    family := ← r.withDefault? "font_family" family? standard.family
    color := ← r.withDefault? "color" color? standard.color }

def ofStyle (s : TextStyle) : Value :=
  .object [("font_size", Json.ofSingle s.fontSize), ("font_family", .string s.family.name),
    ("color", .string s.color.hex)]

def rotation? (value : Value) : Option Rotation := do
  match Rotation.ofDegrees (← value.int64?) with
  | .ok rotation => some rotation
  | .error _ => none

def ofRotation (r : Rotation) : Value := Json.ofInt r.degrees

def label? (value : Value) : Option Label := do
  let r ← Record.ofValue? ["id", "page_index", "x", "y", "text", "style", "width", "height"] value
  return {
    id := ← r.required? "id" Value.nat64?
    page := ← r.required? "page_index" Value.nat32?
    x := ← r.required? "x" Value.single?
    y := ← r.required? "y" Value.single?
    text := ← r.required? "text" Value.string?
    style := ← r.withDefault? "style" (style? .standard) .standard
    width := ← r.withDefault? "width" Value.single? 0
    height := ← r.withDefault? "height" Value.single? 0 }

def ofLabel (l : Label) : Value :=
  .object [("id", Json.ofNat l.id), ("page_index", Json.ofNat l.page), ("x", Json.ofSingle l.x),
    ("y", Json.ofSingle l.y), ("text", .string l.text), ("style", ofStyle l.style),
    ("width", Json.ofSingle l.width), ("height", Json.ofSingle l.height)]

def patch? (value : Value) : Option Patch := do
  let r ← Record.ofValue? ["id", "page_index", "x", "y", "width", "height", "color"] value
  return {
    id := ← r.required? "id" Value.nat64?
    page := ← r.required? "page_index" Value.nat32?
    x := ← r.required? "x" Value.single?
    y := ← r.required? "y" Value.single?
    width := ← r.required? "width" Value.single?
    height := ← r.required? "height" Value.single?
    color := ← r.required? "color" color? }

def ofPatch (p : Patch) : Value :=
  .object [("id", Json.ofNat p.id), ("page_index", Json.ofNat p.page), ("x", Json.ofSingle p.x),
    ("y", Json.ofSingle p.y), ("width", Json.ofSingle p.width), ("height", Json.ofSingle p.height),
    ("color", .string p.color.hex)]

/-- An annotation set; a missing list is empty. -/
def set? (value : Value) : Option AnnotationSet := do
  let r ← Record.ofValue? ["texts", "rects"] value
  return {
    labels := ← r.withDefault? "texts" (Value.list? label?) []
    patches := ← r.withDefault? "rects" (Value.list? patch?) [] }

def ofSet (s : AnnotationSet) : Value :=
  .object [("texts", .array (s.labels.map ofLabel)), ("rects", .array (s.patches.map ofPatch))]

def ref? (value : Value) : Option AnnotationRef := do
  let r ← Record.ofValue? ["kind", "id"] value
  return {
    kind := ← r.required? "kind" fun value ↦ do AnnotationKind.ofName? (← value.choice?)
    id := ← r.required? "id" Value.nat64? }

def ofRef (r : AnnotationRef) : Value :=
  .object [("kind", .string r.kind.name), ("id", Json.ofNat r.id)]

def state? (value : Value) : Option EditorState := do
  let r ← Record.ofValue?
    ["current_page", "total_pages", "zoom", "edit_mode", "selected", "hovered"] value
  return {
    currentPage := ← r.required? "current_page" Value.nat32?
    totalPages := ← r.required? "total_pages" Value.nat32?
    zoom := ← r.required? "zoom" Value.single?
    mode := ← r.required? "edit_mode" fun value ↦ do EditMode.ofName? (← value.choice?)
    selected := ← r.optional? "selected" ref?
    hovered := ← r.optional? "hovered" ref? }

def ofState (s : EditorState) : Value :=
  .object [("current_page", Json.ofNat s.currentPage), ("total_pages", Json.ofNat s.totalPages),
    ("zoom", Json.ofSingle s.zoom), ("edit_mode", .string s.mode.name),
    ("selected", Json.ofOption ofRef s.selected), ("hovered", Json.ofOption ofRef s.hovered)]

end Stored

end Marginalia
