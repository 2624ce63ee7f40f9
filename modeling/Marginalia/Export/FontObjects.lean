import Marginalia.Font.Payload
import Marginalia.Export.Operator
import Marginalia.Pdf.Document

/-!
# Embedded fonts

The objects by which a document holds a font: its file, its measures, the widths of its codes, and
the table that leads from the codes back to the characters.
-/

namespace Marginalia.Export

open Pdf (Document Dictionary Object ObjectId)

/-! ## Widths -/

/-- The widths of consecutive codes. -/
structure WidthRun where
  first : Nat
  widths : List Int
  deriving DecidableEq, Repr

namespace WidthRun

/-- Put the width of a code before runs of greater codes. -/
def add (entry : Nat × Int) : List WidthRun → List WidthRun
  | [] => [⟨entry.1, [entry.2]⟩]
  | run :: runs =>
    if entry.1 + 1 = run.first then ⟨entry.1, entry.2 :: run.widths⟩ :: runs
    else ⟨entry.1, [entry.2]⟩ :: run :: runs

/-- The runs of ascending codes. -/
def ofWidths (widths : List (Nat × Int)) : List WidthRun :=
  widths.foldr add []

/-- The codes of a run with their widths. -/
def expand (run : WidthRun) : List (Nat × Int) :=
  (List.range' run.first run.widths.length).zip run.widths

def object (runs : List WidthRun) : Object :=
  .array (runs.flatMap fun run ↦
    [.integer run.first, .array (run.widths.map Object.integer)])

def ofItems? : List Object → Option (List WidthRun)
  | [] => some []
  | .integer first :: .array widths :: rest => do
    guard (0 ≤ first)
    let run : WidthRun := ⟨first.toNat, ← widths.mapM Object.integer?⟩
    return run :: (← ofItems? rest)
  | _ => none

end WidthRun

/-! ## From codes to characters -/

namespace UnicodeMap

/-- The 16-bit units of a character. -/
def units (c : Char) : List Nat :=
  if c.toNat < 0x10000 then [c.toNat]
  else [0xD800 + (c.toNat - 0x10000) / 0x400, 0xDC00 + (c.toNat - 0x10000) % 0x400]

def character? : List Nat → Option Char
  | [n] => if h : n.isValidChar then some ⟨n.toUInt32, by
      simpa [UInt32.isValidChar, Nat.toUInt32, Nat.mod_eq_of_lt (show n < 4294967296 by
        rcases h with h | h <;> omega)] using h⟩ else none
  | [high, low] =>
    if 0xD800 ≤ high ∧ high < 0xDC00 ∧ 0xDC00 ≤ low ∧ low < 0xE000 then
      some (Char.ofNat (0x10000 + (high - 0xD800) * 0x400 + (low - 0xDC00)))
    else none
  | _ => none

/-- The codes with their characters, by code and then by character. -/
def entries (codes : List (Char × Nat)) : List (Nat × Char) :=
  (codes.map fun (c, code) ↦ (code, c)).mergeSort fun a b ↦
    a.1 < b.1 || (a.1 == b.1 && a.2.toNat ≤ b.2.toNat)

/-- How many entries a block has at most. -/
def blockLimit : Nat := 100

def blocks (list : List (Nat × Char)) : List (List (Nat × Char)) :=
  match list with
  | [] => []
  | entry :: rest =>
    (entry :: rest.take (blockLimit - 1)) :: blocks (rest.drop (blockLimit - 1))
termination_by list.length
decreasing_by simp only [List.length_cons, List.length_drop]; omega

def entryLine (entry : Nat × Char) : String :=
  "<" ++ Operator.codesText [entry.1] ++ "> <" ++ Operator.codesText (units entry.2) ++ ">\n"

/-- The lines of a block: its number of entries, the entries and a closing mark. -/
def blockText (block : List (Nat × Char)) : String :=
  Decimal.text block.length ++ " beginbfchar\n" ++ String.join (block.map entryLine) ++
    "endbfchar\n"

/-- The lines before the blocks. -/
def opening : String :=
  "/CIDInit /ProcSet findresource begin\n12 dict begin\nbegincmap\n" ++
  "/CIDSystemInfo << /Registry (Adobe) /Ordering (UCS) /Supplement 0 >> def\n" ++
  "/CMapName /Adobe-Identity-UCS def\n/CMapType 2 def\n" ++
  "1 begincodespacerange\n<0000> <FFFF>\nendcodespacerange\n"

/-- The lines after the blocks. -/
def closing : String :=
  "endcmap\nCMapName currentdict /CMap defineresource pop\nend\nend\n"

/-- The text of the table that leads from codes to characters. -/
def text (codes : List (Char × Nat)) : String :=
  opening ++ String.join ((blocks (entries codes)).map blockText) ++ closing

end UnicodeMap

/-! ## Font dictionaries -/

open Font (Payload)

def fontFile (p : Payload) : Object :=
  .streamOf [("Length1", .integer p.bytes.length)] p.bytes

/-- The measures of a font, with a reference to its file. -/
def fontDescriptor (p : Payload) (file : ObjectId) : Object :=
  let scaled (units : Int) : Object := .integer (p.metrics.toThousandths units)
  let box := p.metrics.box
  .dictionary [
    ("Type", .name "FontDescriptor"),
    ("FontName", .name p.baseFont),
    ("Flags", .integer 32),
    ("FontBBox", .array ([box.left, box.bottom, box.right, box.top].map scaled)),
    ("ItalicAngle", .integer 0),
    ("Ascent", scaled p.metrics.extent.ascender),
    ("Descent", scaled p.metrics.extent.descender),
    ("CapHeight", scaled p.metrics.capHeight),
    ("StemV", .integer 80),
    ("FontFile2", .reference file)]

/-- The font by codes. -/
def codedFont (p : Payload) (descriptor : ObjectId) : Object :=
  .dictionary [
    ("Type", .name "Font"),
    ("Subtype", .name "CIDFontType2"),
    ("BaseFont", .name p.baseFont),
    ("CIDSystemInfo", .dictionary [
      ("Registry", .string (Bytes.ofText "Adobe") .literal),
      ("Ordering", .string (Bytes.ofText "Identity") .literal),
      ("Supplement", .integer 0)]),
    ("FontDescriptor", .reference descriptor),
    ("DW", .integer 1000),
    ("W", WidthRun.object (WidthRun.ofWidths p.widths)),
    ("CIDToGIDMap", .name "Identity")]

/-- The font that text is set in. -/
def compositeFont (p : Payload) (descendant toUnicode : ObjectId) : Object :=
  .dictionary [
    ("Type", .name "Font"),
    ("Subtype", .name "Type0"),
    ("BaseFont", .name p.baseFont),
    ("Encoding", .name "Identity-H"),
    ("DescendantFonts", .array [.reference descendant]),
    ("ToUnicode", .reference toUnicode)]

def embed (doc : Document) (p : Payload) : ObjectId × Document :=
  let (file, doc) := doc.add (fontFile p)
  let (descriptor, doc) := doc.add (fontDescriptor p file)
  let (descendant, doc) := doc.add (codedFont p descriptor)
  let (toUnicode, doc) := doc.add (.contentStream (Bytes.ofText (UnicodeMap.text p.codes)))
  doc.add (compositeFont p descendant toUnicode)

end Marginalia.Export
