import Marginalia.Export.Compose
import Marginalia.Report.Value

/-!
# Reports on documents and fonts

Descriptions of pages, of fonts, and of the whole graph of objects of a document. Objects are
numbered by their distance from the root, so that two documents with the same graph have the same
description, however their files are laid out.
-/

namespace Marginalia.Report

open Json (Value)

/-! ## Failures -/

def invalidRotation (e : InvalidRotation) : Value := failureWith "InvalidRotation" e.message

/-- The kind of an error; some are described by their wording as well. -/
def engineError (e : Pdf.EngineError) : Value :=
  let (kind, worded) := match e with
    | .io => ("Io", false)
    | .parse => ("Parse", false)
    | .invalidDocument _ => ("InvalidDocument", true)
    | .pageOutOfRange _ _ => ("PageOutOfRange", true)
    | .encrypted => ("EncryptedUnsupported", true)
    | .backend _ => ("Backend", true)
  object ([("error", text kind), ("invalid_document", flag e.isInvalidDocument)] ++
    if worded then [("message", text e.message)] else [])

/-- Why annotations cannot be painted into a document. -/
def exportError (e : Export.ExportError) : Value :=
  match e with
  | .engine cause => engineError cause
  | .missingFont _ => failureWith "MissingEmbeddedFont" e.message
  | .invalidRotation _ _ => failureWith "InvalidRotation" e.message
  | .pageOutOfRange _ _ => failureWith "ExportPageOutOfRange" e.message

/-! ## Pages -/

/-- A rotation in degrees, and whether it swaps width and height. -/
def rotation (r : Rotation) : Value := object [
  ("degrees", integer r.degrees),
  ("text", text (Decimal.integerText r.degrees)),
  ("swaps", flag r.swapsAxes),
  ("into", integer r.degrees)]

def textMatrix (r : Rotation) : Value :=
  let axes : Rotation.Axes Scalar := r.textAxes
  list number [axes.right.x, axes.right.y, axes.up.x, axes.up.y]

def geometry (g : Pdf.PageGeometry) : Value := object [
  ("origin", point g.origin),
  ("size", size g.size),
  ("rotation", integer g.rotation),
  ("displayed", match g.displayed with
    | .ok s => size s
    | .error e => invalidRotation e)]

def layout (info : Pdf.DocumentInfo) : List (String × Value) :=
  [("page_count", count info.pageCount), ("pages", list geometry info.pages)]

/-- The layout of a document, or why it has none. -/
def probe (b : Bytes) : Value :=
  match Pdf.probe b with
  | .ok info => object (layout info)
  | .error e => engineError e

/-- The size of a page, or why there is none. -/
def pageSize (info : Pdf.DocumentInfo) (page : Nat) : Value :=
  result (fun g ↦ size g.size) engineError (info.page page)

def content? (b : Bytes) (page : Nat) : Option Value := do
  let doc ← Pdf.File.read? b
  return text (Text.Utf8.decodeRepaired (doc.pageContent (← doc.page? page)))

/-! ## Fonts -/

def fontError : Value := failure "FontError::Parse"

def metrics (m : Font.Metrics) : Value := object [
  ("upem", count m.unitsPerEm),
  ("ascender", integer m.extent.ascender),
  ("descender", integer m.extent.descender),
  ("cap_height", integer m.capHeight),
  ("bbox", list integer [m.box.left, m.box.bottom, m.box.right, m.box.top])]

def face (b : Bytes) : Value :=
  match Font.Face.ofBytes? b with
  | none => fontError
  | some f => object [
    ("upem", count f.header.unitsPerEm),
    ("cmap", flag (f.directory.table? "cmap").isSome),
    ("glyphs", list (fun g ↦ .array [optional count (f.advance? g),
      text (String.join ((f.path g).map Font.PathStep.text))]) (List.range f.glyphCount))]

/-- A font to be embedded, with the codes of its characters. -/
def payload (p : Font.Payload) : Value := object [
  ("family", text p.family.name),
  ("base_font", text p.baseFont),
  ("subset", flag (p.kind == .subset)),
  ("kind", text (if p.kind == .subset then "Subset" else "Full")),
  ("cids", list (fun (c, code) ↦ .array [text c.toString, count code]) p.codes),
  ("widths", list (fun (code, w) ↦ .array [count code, integer w]) p.widths),
  ("face", face p.bytes),
  ("metrics", metrics p.metrics)]

/-! ## Objects -/

/-- The content of a stream: as text when it is printable, and in hexadecimal digits otherwise. -/
def streamContent (b : Bytes) : Value :=
  if b.all fun c ↦ c == 9 || c == 10 || c == 13 || (32 ≤ c && c ≤ 126) then bytes b
  else object [("hex", text (String.ofList (b.flatMap fun c ↦ Decimal.hexDigits 2 c.toNat)))]

/-- Whether an entry is the number of bytes of a content. -/
def isLengthOf (content : Bytes) : Option Pdf.Object → Bool
  | some (.integer n) => n == (content.length : Int)
  | _ => false

mutual

/-- An object, with the numbers of the objects it refers to. -/
def describe (mark : Pdf.ObjectId → String) : Pdf.Object → Value
  | .null => .null
  | .boolean b => flag b
  | .integer n => integer n
  | .real x => object [("real", number x)]
  | .name n => text ("/" ++ n)
  | .string b _ => object [("str", bytes b)]
  | .array items => .array (describeItems mark items)
  | .dictionary entries => object [("dict", object (describeEntries mark entries))]
  | .stream entries content =>
    let members := (describeEntries mark entries).filter fun (k, _) ↦ k != "Length"
    if Pdf.Dictionary.has entries "Length1" then object [
      ("dict", object (members.filter fun (k, _) ↦ k != "Length1")),
      ("font", face content),
      ("lengths_ok", flag (isLengthOf content (Pdf.Dictionary.get? entries "Length") &&
        isLengthOf content (Pdf.Dictionary.get? entries "Length1")))]
    else object [("dict", object members), ("stream", streamContent content)]
  | .reference id => text (mark id)

def describeItems (mark : Pdf.ObjectId → String) : List Pdf.Object → List Value
  | [] => []
  | o :: rest => describe mark o :: describeItems mark rest

def describeEntries (mark : Pdf.ObjectId → String) :
    List (String × Pdf.Object) → List (String × Value)
  | [] => []
  | (k, o) :: rest => (k, describe mark o) :: describeEntries mark rest

end

/-- All objects that can be reached from the root of a document. -/
def graph (b : Bytes) : Value :=
  match Pdf.File.read? b with
  | none => failure "Parse"
  | some doc =>
    match (doc.trailer.get? "Root").bind Pdf.Object.reference? with
    | none => failure "NoRoot"
    | some root =>
      let ids := doc.reachable root
      let mark (id : Pdf.ObjectId) : String :=
        "#" ++ Decimal.text ((ids.idxOf? id).getD ids.length)
      object [
        ("version", text doc.version),
        ("objects", list (fun id ↦ optional (describe mark) (doc.objects.get? id)) ids)]

end Marginalia.Report
