import Marginalia.Color
import Marginalia.Decimal.Digits
import Marginalia.Geometry.Basic

/-!
# Annotations

A document is annotated with text labels and filled patches. Each annotation has a number that no
other annotation of the document has, of either kind, and lies on one page; pages count from one.
-/

namespace Marginalia

/-- The two type families a label can be set in. -/
inductive FontFamily where
  | serif
  | sans
  deriving DecidableEq, Repr, Inhabited

namespace FontFamily

/-- All families, in their order. -/
def all : List FontFamily := [serif, sans]

def name : FontFamily → String
  | serif => "serif"
  | sans => "sans"

end FontFamily

/-- The two kinds of annotations. -/
inductive AnnotationKind where
  | label
  | patch
  deriving DecidableEq, Repr

/-- What identifies an annotation. -/
structure AnnotationRef where
  kind : AnnotationKind
  id : Nat
  deriving DecidableEq, Repr

namespace AnnotationRef

def text (r : AnnotationRef) : String :=
  match r.kind with
  | .label => "t-" ++ Decimal.text r.id
  | .patch => "r-" ++ Decimal.text r.id

def ofText? (text : String) : Option AnnotationRef := do
  let id ← Decimal.ofDigits? (text.toList.drop 2)
  match text.toList.take 2 with
  | ['t', '-'] => some ⟨.label, id⟩
  | ['r', '-'] => some ⟨.patch, id⟩
  | _ => none

end AnnotationRef

/-- How a label is set. -/
structure TextStyle where
  fontSize : Scalar
  family : FontFamily
  color : Color
  deriving DecidableEq, Repr

/-- Black sans at sixteen units. -/
def TextStyle.standard : TextStyle := ⟨16, .sans, .black⟩

/-- A line of text. Its position is the left end of the baseline, and its box stands on it. Width
and height follow from the text and the style. -/
structure Label where
  id : Nat
  page : Nat
  x : Scalar
  y : Scalar
  text : String
  style : TextStyle
  width : Scalar
  height : Scalar
  deriving DecidableEq, Repr

/-- A filled rectangle. -/
structure Patch where
  id : Nat
  page : Nat
  x : Scalar
  y : Scalar
  width : Scalar
  height : Scalar
  color : Color
  deriving DecidableEq, Repr

/-- The styles have the same values, where numbers are compared as numbers. -/
def TextStyle.agrees (a b : TextStyle) : Bool :=
  a.fontSize == b.fontSize && a.family == b.family && a.color == b.color

namespace Label

def ref (l : Label) : AnnotationRef := ⟨.label, l.id⟩

/-- The box of a label lies above its baseline. -/
def bounds (l : Label) : Box Scalar := ⟨l.x, l.y - l.height, l.width, l.height⟩

/-- The labels have the same values, where numbers are compared as numbers. -/
def agrees (a b : Label) : Bool :=
  a.id == b.id && a.page == b.page && a.x == b.x && a.y == b.y && a.text == b.text &&
    a.style.agrees b.style && a.width == b.width && a.height == b.height

end Label

namespace Patch

def ref (p : Patch) : AnnotationRef := ⟨.patch, p.id⟩

/-- The box that a patch covers. -/
def bounds (p : Patch) : Box Scalar := ⟨p.x, p.y, p.width, p.height⟩

/-- The patches have the same values, where numbers are compared as numbers. -/
def agrees (a b : Patch) : Bool :=
  a.id == b.id && a.page == b.page && a.x == b.x && a.y == b.y && a.width == b.width &&
    a.height == b.height && a.color == b.color

end Patch

end Marginalia
