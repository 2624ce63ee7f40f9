import Marginalia.Pdf.Writer

/-!
# Sample documents

Small documents that are made from the sizes of their pages.
-/

namespace Marginalia.Pdf.Sample

/-- A page of a sample: its box and its rotation. -/
structure PageSpec where
  width : Int
  height : Int
  rotation : Int
  x : Int
  y : Int

def mediaBox (x₀ y₀ x₁ y₁ : Int) : Object :=
  .array [.integer x₀, .integer y₀, .integer x₁, .integer y₁]

/-- The content of every page of a sample. -/
def greeting : Bytes := Bytes.ofText "BT /F1 12 Tf 72 720 Td (Hi) Tj ET\n"

/-- The file of a document whose page tree has the given root and whose objects have been added. -/
def finish (doc : Document) (root : ObjectId) : Bytes :=
  let (catalog, doc) := doc.add <|
    .dictionary [("Type", .name "Catalog"), ("Pages", .reference root)]
  Writer.write { doc with trailer := doc.trailer.set "Root" (.reference catalog) }

/-- A new document in which the first number is kept for the page tree. -/
def start : ObjectId × Document :=
  (⟨1, 0⟩, ⟨"1.5", [], [], 1, .stream⟩)

/-- Add a page with its content, and its reference to those of the pages before it. -/
def addPage (root font : ObjectId) (state : Document × List Object) (spec : PageSpec) :
    Document × List Object :=
  let (doc, kids) := state
  let (content, doc) := doc.add (.contentStream greeting)
  let page : Dictionary := [("Type", .name "Page"), ("Parent", .reference root),
    ("MediaBox", mediaBox spec.x spec.y (spec.x + spec.width) (spec.y + spec.height)),
    ("Contents", .reference content),
    ("Resources", .dictionary [("Font", .dictionary [("F1", .reference font)])])]
  let page := if spec.rotation = 0 then page else page.set "Rotate" (.integer spec.rotation)
  let (id, doc) := doc.add (.dictionary page)
  (doc, kids ++ [.reference id])

/-- A document whose pages each show a greeting. -/
def document (specs : List PageSpec) : Bytes :=
  let (root, doc) := start
  let (font, doc) := doc.add (.dictionary [("Type", .name "Font"), ("Subtype", .name "Type1"),
    ("BaseFont", .name "Helvetica")])
  let (doc, kids) := specs.foldl (addPage root font) (doc, [])
  let doc := doc.put root (.dictionary [("Type", .name "Pages"), ("Kids", .array kids),
    ("Count", .integer kids.length)])
  finish doc root

/-- A document of one page that takes its box, its rotation and its resources from the page tree. -/
def inheriting (width height rotation : Int) : Bytes :=
  let (root, doc) := start
  let (content, doc) := doc.add (.contentStream (Bytes.ofText "0 0 1 rg 10 10 20 20 re f\n"))
  let (page, doc) := doc.add (.dictionary [("Type", .name "Page"), ("Parent", .reference root),
    ("Contents", .reference content)])
  let doc := doc.put root (.dictionary [("Type", .name "Pages"),
    ("Kids", .array [.reference page]), ("Count", .integer 1),
    ("MediaBox", mediaBox 0 0 width height), ("Rotate", .integer rotation),
    ("Resources", .dictionary [])])
  finish doc root

end Marginalia.Pdf.Sample
