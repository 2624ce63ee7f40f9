import Marginalia.Annotation.Stored
import Marginalia.Font.Asset
import Marginalia.Report.Value

/-!
# Reports on annotations

Descriptions of colours, of annotations one by one and of whole sets, and of the state of an editor.
-/

namespace Marginalia.Report

open Json (Value)

/-- A colour by its channels, by its digits and as a part of full intensity. -/
def color (c : Color) : Value := object [
  ("rgb", list (fun x : UInt8 ↦ count x.toNat) [c.red, c.green, c.blue]),
  ("hex", text c.hex),
  ("norm", list (fun x ↦ number (Color.unit x)) [c.red, c.green, c.blue])]

/-- The short text of a reference, if there is one. -/
def ref (r : Option AnnotationRef) : Value := optional (fun r ↦ text r.text) r

/-- The size, the family and the colour of a style. -/
def style (s : TextStyle) : Value :=
  .array [number s.fontSize, text s.family.name, text s.color.hex]

/-- A label with its place, its style and its size. -/
def label (l : Label) : Value := object [
  ("ref", text l.ref.text),
  ("page", count l.page),
  ("at", point ⟨l.x, l.y⟩),
  ("text", text l.text),
  ("style", style l.style),
  ("size", size ⟨l.width, l.height⟩)]

def patch (p : Patch) : Value := object [
  ("ref", text p.ref.text),
  ("page", count p.page),
  ("box", box p.bounds),
  ("color", text p.color.hex)]

/-- The labels and the patches of a set, in their order. -/
def annotations (s : AnnotationSet) : Value :=
  object [("texts", list label s.labels), ("rects", list patch s.patches)]

/-- Whether an annotation is in a set, and its box. -/
def membership (s : AnnotationSet) (r : AnnotationRef) : Value :=
  object [("in", flag (s.contains r)), ("bounds", optional box (s.bounds? r))]

/-- A set with all that follows from it: what it says about some references, what is on a page, the
characters that each family needs, and the stored form. -/
def overview (s : AnnotationSet) (refs : List AnnotationRef) (page : Nat) : Value := object [
  ("set", annotations s),
  ("len", count s.size),
  ("empty", flag s.isEmpty),
  ("max_id", optional count s.maxId?),
  ("pages", list count s.pages),
  ("refs", object (refs.map fun r ↦ (r.text, membership s r))),
  ("on_page", .array [list (fun l ↦ count l.id) (s.labelsOn page),
    list (fun p ↦ count p.id) (s.patchesOn page)]),
  ("codepoints", object ((Font.usage s).toList.map fun (family, characters) ↦
    (family.name, text (String.ofList characters)))),
  ("json", text (Stored.ofSet s).compact)]

/-- The stored form of a state, and where it takes some page numbers. -/
def state (s : EditorState) (pages : List Nat) : Value := object [
  ("json", text (Stored.ofState s).compact),
  ("clamp", list (fun p ↦ count (s.clampPage p)) pages)]

end Marginalia.Report
