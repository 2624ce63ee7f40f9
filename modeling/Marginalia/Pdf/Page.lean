import Marginalia.Decimal.FloatValue
import Marginalia.Geometry.Rotation
import Marginalia.Pdf.Document
import Marginalia.Pdf.Filter

/-!
# Pages

The pages of a document are the leaves of a tree. Some attributes of a page may stand at one of its
ancestors instead; the nearest one that has the key decides, even with a useless value.
-/

namespace Marginalia.Pdf

/-- The media box and the native rotation of a page. The rotation is in degrees from zero to 359 and
need not be a multiple of ninety. -/
structure PageGeometry where
  origin : Point Scalar
  size : Size Scalar
  rotation : Int
  deriving DecidableEq, Repr

namespace PageGeometry

def letter : PageGeometry := ⟨⟨0, 0⟩, ⟨612, 792⟩, 0⟩

def turn (g : PageGeometry) : Except InvalidRotation Rotation :=
  Rotation.ofDegrees g.rotation

def displayed (g : PageGeometry) : Except InvalidRotation (Size Scalar) := do
  return (← g.turn).displayed g.size

end PageGeometry

namespace Document

/-! ## The page tree -/

/-- How deep the page tree is descended. -/
def treeDepthLimit : Nat := 256

def kids (doc : Document) (node : ObjectId) : List Object :=
  ((doc.dictionary? node).bind fun d ↦ (d.get? "Kids").bind Object.array?).getD []

def nodeType? (doc : Document) (id : ObjectId) : Option String := do
  typeName? (← doc.dictionary? id)

/-- The next node to visit among some siblings and those waiting further up, and what is left of
both. -/
def nextKid : List Object → List (List Object) →
    Option (Object × List Object × List (List Object))
  | kid :: siblings, waiting => some (kid, siblings, waiting)
  | [], siblings :: waiting => nextKid siblings waiting
  | [], [] => none

/-- The pages among some siblings and below them, and then those waiting further up, visiting a
number of nodes at most. -/
def pagesAmong (doc : Document) : Nat → List Object → List (List Object) → List ObjectId
  | 0, _, _ => []
  | steps + 1, siblings, waiting =>
    match nextKid siblings waiting with
    | none => []
    | some (kid, siblings, waiting) =>
      match kid.reference? with
      | none => doc.pagesAmong steps siblings waiting
      | some id =>
        match doc.nodeType? id with
        | some "Page" => id :: doc.pagesAmong steps siblings waiting
        | some "Pages" =>
          if waiting.length < treeDepthLimit then
            doc.pagesAmong steps (doc.kids id)
              (if siblings.isEmpty then waiting else siblings :: waiting)
          else doc.pagesAmong steps siblings waiting
        | _ => doc.pagesAmong steps siblings waiting

/-- The pages of the document in order. -/
def pages (doc : Document) : List ObjectId :=
  match doc.catalog?.bind fun d ↦ (d.get? "Pages").bind Object.reference? with
  | none => []
  | some root => doc.pagesAmong doc.objects.length (doc.kids root) []

/-- The id of a page by its number, from one. -/
def page? (doc : Document) (page : Nat) : Option ObjectId :=
  if page = 0 then none else doc.pages[page - 1]?

/-! ## Attributes -/

/-- How many nodes are searched for an attribute. -/
def ancestorLimit : Nat := 32

/-- The value of an attribute as it is found at the nearest of a number of nodes that has it. -/
def attributeFrom? (doc : Document) (key : String) : Nat → Dictionary → Option Object
  | 0, _ => none
  | limit + 1, node =>
    match node.get? key with
    | some value => some value
    | none => do
      let parent ← (← node.get? "Parent").reference?
      doc.attributeFrom? key limit (← doc.dictionary? parent)

/-- The value of an attribute at the nearest of a number of nodes that has it. -/
def inheritedFrom? (doc : Document) (key : String) (limit : Nat) (node : Dictionary) :
    Option Object :=
  (doc.attributeFrom? key limit node).map doc.resolve

/-- The value of an attribute of a page or of its nearest ancestor that has it. -/
def inherited? (doc : Document) (page : ObjectId) (key : String) : Option Object := do
  doc.inheritedFrom? key ancestorLimit (← doc.dictionary? page)

def number? (doc : Document) (object : Object) : Option Scalar :=
  match doc.resolve object with
  | .integer n => some (Float32.ofInt n)
  | .real x => some x
  | _ => none

/-- The four numbers of the media box of a page. -/
def mediaBox? (doc : Document) (page : ObjectId) :
    Option (Scalar × Scalar × Scalar × Scalar) := do
  match ← (← doc.inherited? page "MediaBox").array? with
  | [a, b, c, d] => return (← doc.number? a, ← doc.number? b, ← doc.number? c, ← doc.number? d)
  | _ => none

/-- A number of degrees as a whole number from zero to 359. -/
def normalizedDegrees (degrees : Scalar) : Int :=
  ((Decimal.FloatValue.ofSingle degrees).roundWithin (-0x8000000000000000)
    0x7fffffffffffffff).emod 360

/-- The geometry of a page; without a usable media box it has letter size. -/
def geometry (doc : Document) (page : ObjectId) : PageGeometry :=
  let upright : PageGeometry := match doc.mediaBox? page with
    | some (x₀, y₀, x₁, y₁) =>
      { origin := ⟨Scalar.lesser x₀ x₁, Scalar.lesser y₀ y₁⟩
        size := ⟨(x₁ - x₀).abs, (y₁ - y₀).abs⟩
        rotation := 0 }
    | none => .letter
  { upright with
    rotation := (((doc.inherited? page "Rotate").bind doc.number?).map normalizedDegrees).getD 0 }

def pageResources (doc : Document) (page : ObjectId) : Dictionary :=
  ((doc.inherited? page "Resources").bind Object.dictionary?).getD []

/-- The items of the contents of a page, whether they are listed in place, listed in an array
object, or are a single stream. -/
def pageContents (doc : Document) (page : ObjectId) : List Object :=
  match (doc.dictionary? page).bind fun d ↦ d.get? "Contents" with
  | some (.reference id) =>
    match doc.object? id with
    | some (.array items) => items
    | _ => [.reference id]
  | some (.array items) => items
  | _ => []

/-! ## Content -/

/-- The ids of the content streams that an object stands for. -/
def contentIds (doc : Document) : Nat → Object → List ObjectId
  | limit, .reference id =>
    match doc.objects.get? id with
    | none => [id]
    | some (.stream _ _) => [id]
    | some object =>
      match limit with
      | 0 => []
      | limit + 1 => doc.contentIds limit object
  | _, .array items => items.filterMap Object.reference?
  | _, _ => []

/-- The content of a page: what its streams stand for, one after another. A stream that cannot be
decoded stands for its own bytes. -/
def pageContent (doc : Document) (page : ObjectId) : Bytes :=
  match (doc.dictionary? page).bind fun d ↦ d.get? "Contents" with
  | none => []
  | some contents =>
    (doc.contentIds (referenceLimit - 1) contents).flatMap fun id ↦
      match doc.object? id with
      | some (.stream entries content) => (Filter.decode? entries content).getD content
      | _ => []

end Document

end Marginalia.Pdf
