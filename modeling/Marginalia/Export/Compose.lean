import Marginalia.Export.FontObjects
import Marginalia.Export.Markup
import Marginalia.Pdf.Open

/-!
# Exports

An export is a copy of a document with annotations painted into its pages. Only the pages that
carry annotations change, and of them only the contents and the resources.
-/

namespace Marginalia.Export

open Font (Payload SubsetBuilder)
open Pdf (Dictionary Document EngineError Object ObjectId PageGeometry)

/-- Why annotations cannot be painted into a document. -/
inductive ExportError where
  | engine (cause : EngineError)
  | missingFont (family : FontFamily)
  | invalidRotation (page : Nat) (cause : InvalidRotation)
  | pageOutOfRange (page pageCount : Nat)
  deriving DecidableEq, Repr

def ExportError.message : ExportError → String
  | engine cause => cause.message
  | missingFont family => "no embedded font available for family " ++ family.name
  | invalidRotation page cause => "page " ++ Decimal.text page ++ ": " ++ cause.message
  | pageOutOfRange page pageCount =>
    "annotation on page " ++ Decimal.text page ++ " but document has " ++
      Decimal.text pageCount ++ " pages"

def visibleLabels (annotations : AnnotationSet) : List Label :=
  annotations.labels.filter fun l ↦ !l.text.isEmpty

/-- The families of the labels that show a text, in order. -/
def usedFamilies (annotations : AnnotationSet) : List FontFamily :=
  FontFamily.all.filter fun family ↦
    (visibleLabels annotations).any fun l ↦ l.style.family == family

/-- The first family that a label needs and that has no font. -/
def missingFamily? (annotations : AnnotationSet) (fonts : FamilyTable Payload) :
    Option FontFamily :=
  ((visibleLabels annotations).map fun l ↦ l.style.family).find? fun family ↦
    (fonts.get? family).isNone

/-! ## Pages -/

/-- A page that carries annotations. -/
structure Target where
  page : Nat
  id : ObjectId
  frame : PageFrame Scalar

def target (doc : Document) (page : Nat) : Except ExportError Target :=
  match doc.page? page with
  | none => .error (.pageOutOfRange page doc.pages.length)
  | some id =>
    let geometry := doc.geometry id
    match geometry.turn with
    | .error cause => .error (.invalidRotation page cause)
    | .ok rotation => .ok ⟨page, id, .ofBox geometry.origin geometry.size rotation⟩

/-- The pages to paint on, in ascending order. -/
def targets (doc : Document) (annotations : AnnotationSet) : Except ExportError (List Target) :=
  annotations.pages.mapM (target doc)

/-! ## Resources -/

/-- The name under which the fonts of a family are put among the resources of a page. -/
def resourceBase : FontFamily → String
  | .serif => "MkSerif"
  | .sans => "MkSans"

/-- A name, and the same name with numbers from two on. -/
def candidateNames (base : String) (count : Nat) : List String :=
  base :: (List.range' 2 count).map fun n ↦ base ++ Decimal.text n

/-- The first candidate that no font has as its name. There are more candidates than fonts. -/
def unusedName (base : String) (fonts : Dictionary) : String :=
  ((candidateNames base fonts.length).find? fun name ↦ !fonts.has name).getD base

def fontsOf (doc : Document) (resources : Dictionary) : Dictionary :=
  ((resources.get? "Font").bind fun object ↦ (doc.resolve object).dictionary?).getD []

/-- Put an embedded font of a family among the fonts of a page, and note its name. -/
def nameFont (state : Dictionary × FamilyTable String) (font : FontFamily × ObjectId) :
    Dictionary × FamilyTable String :=
  let name := unusedName (resourceBase font.1) state.1
  (state.1.set name (.reference font.2), state.2.set font.1 name)

/-- The fonts of a page with the embedded ones among them, and the names of those. -/
def nameFonts (fonts : Dictionary) (embedded : List (FontFamily × ObjectId)) :
    Dictionary × FamilyTable String :=
  embedded.foldl nameFont (fonts, .empty)

/-! ## Painting -/

def operatorStream (operators : List Operator) : Object :=
  .contentStream (Bytes.ofText (Operator.lines operators))

def paintPage (annotations : AnnotationSet) (fonts : FamilyTable Payload)
    (embedded : List (FontFamily × ObjectId)) (doc : Document) (t : Target) :
    Except ExportError Document := do
  let resources := doc.pageResources t.id
  let (named, names) := nameFonts (fontsOf doc resources) embedded
  let contents := doc.pageContents t.id
  let (opening, doc) := doc.add (operatorStream openingOperators)
  let (painted, doc) :=
    doc.add (operatorStream (markup annotations t.page t.frame fonts names))
  match doc.storedId? t.id, doc.dictionary? t.id with
  | some id, some page =>
    let contents := Object.reference opening :: contents ++ [.reference painted]
    let page := page.set "Contents" (.array contents)
    return doc.put id
      (.dictionary (page.set "Resources" (.dictionary (resources.set "Font" (.dictionary named)))))
  | _, _ => throw (.engine .parse)

/-- Add the font of a family to a document, and note it among those embedded before. -/
def embedFamily (fonts : FamilyTable Payload)
    (state : List (FontFamily × ObjectId) × Document) (family : FontFamily) :
    List (FontFamily × ObjectId) × Document :=
  match fonts.get? family with
  | none => state
  | some payload =>
    let (id, doc) := embed state.2 payload
    (state.1 ++ [(family, id)], doc)

def paint (doc : Document) (annotations : AnnotationSet) (fonts : FamilyTable Payload) :
    Except ExportError Document := do
  let targets ← targets doc annotations
  let (embedded, doc) := (usedFamilies annotations).foldl (embedFamily fonts) ([], doc)
  targets.foldlM (paintPage annotations fonts embedded) doc

/-- The file of a document with annotations painted into it, both in the same format. Every family
that a label needs must have a font; that comes before all other errors. -/
def exportDocument (format : Pdf.FileFormat) (source : Bytes) (annotations : AnnotationSet)
    (fonts : FamilyTable Payload) : Except ExportError Bytes :=
  match missingFamily? annotations fonts with
  | some family => .error (.missingFont family)
  | none =>
    match format.read? source with
    | none => .error (.engine .parse)
    | some doc => (paint doc annotations fonts).map format.write

/-- An exported file with the fonts that went into it. -/
structure Composed where
  bytes : Bytes
  fonts : FamilyTable Payload
  deriving Repr

/-- Take what is needed of the fonts at hand and export with it. -/
def compose (source : Bytes) (annotations : AnnotationSet) (library : Font.Library)
    (builder : SubsetBuilder) : Except ExportError Composed × SubsetBuilder :=
  let (fonts, builder) := builder.buildAll library (Font.usage annotations)
  ((exportDocument .standard source annotations fonts).map fun bytes ↦ ⟨bytes, fonts⟩, builder)

end Marginalia.Export
