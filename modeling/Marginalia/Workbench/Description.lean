import Marginalia.Decimal.Print
import Marginalia.Workbench.Basic

/-!
# Descriptions for developers

One line that says which document is open, how it is viewed, and which gesture is under way.
-/

namespace Marginalia.Describe

/-- A value with named fields. -/
def record (name : String) (fields : List (String × String)) : String :=
  name ++ " \x7b " ++ ", ".intercalate (fields.map fun (key, value) ↦ key ++ ": " ++ value) ++
    " \x7d"

def option {α : Type} (describe : α → String) : Option α → String
  | none => "None"
  | some a => "Some(" ++ describe a ++ ")"

def scalar (x : Scalar) : String :=
  Decimal.FloatValue.text .description (.ofSingle x)

def point (p : Point Scalar) : String := "(" ++ scalar p.x ++ ", " ++ scalar p.y ++ ")"

def flag (b : Bool) : String := if b then "true" else "false"

def ref (r : AnnotationRef) : String :=
  record "AnnotationRef" [
    ("kind", match r.kind with
      | .label => "Text"
      | .patch => "Rect"),
    ("id", "AnnotationId(" ++ Decimal.text r.id ++ ")")]

def state (s : EditorState) : String := record "EditorState" [
  ("current_page", Decimal.text s.currentPage),
  ("total_pages", Decimal.text s.totalPages),
  ("zoom", scalar s.zoom),
  ("edit_mode", s.mode.name),
  ("selected", option ref s.selected),
  ("hovered", option ref s.hovered)]

def gesture : Gesture → String
  | .idle => "Idle"
  | .drawing origin current =>
    record "DrawingRect" [("origin", point origin), ("current", point current)]
  | .dragging target last moved =>
    record "DraggingAnnotation" [("target", ref target), ("last", point last),
      ("moved", flag moved)]
  | .panning origin initialScroll =>
    record "Panning" [("origin", point origin), ("initial_scroll", point initialScroll)]
  | .pinching initialDistance initialZoom =>
    record "Pinching" [("initial_distance", scalar initialDistance),
      ("initial_zoom", scalar initialZoom)]

def documentId (id : DocumentId) : String := "DocumentId(" ++ Text.quoted id.text ++ ")"

end Marginalia.Describe

namespace Marginalia

def Workbench.description (w : Workbench) : String :=
  "Editor \x7b " ++ "document: " ++ Describe.option Describe.documentId w.documentId ++
    ", state: " ++ Describe.state w.store.state ++
    ", gesture: " ++ Describe.gesture w.controller.gesture ++ ", .. \x7d"

end Marginalia
