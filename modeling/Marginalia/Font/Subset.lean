import Marginalia.Font.Face

/-!
# Font subsets

A subset keeps some glyphs of a font and numbers them afresh: the glyph for missing characters
stays first, the others follow in the order in which they are asked for, and after them the
components of composite glyphs, those of the last glyph first.
-/

namespace Marginalia.Font

/-- The glyphs of a subset in the order of their new numbers. -/
structure GlyphNumbering where
  glyphs : List Nat
  deriving DecidableEq, Repr

namespace GlyphNumbering

/-- Only the glyph for missing characters is kept. -/
def initial : GlyphNumbering := ⟨[0]⟩

/-- Keep a glyph, under the next number if it is new. -/
def add (n : GlyphNumbering) (glyph : Nat) : GlyphNumbering :=
  if glyph ∈ n.glyphs then n else ⟨n.glyphs ++ [glyph]⟩

def number? (n : GlyphNumbering) (glyph : Nat) : Option Nat :=
  n.glyphs.idxOf? glyph

/-- Keep some glyphs, in order. -/
def ofGlyphs (glyphs : List Nat) : GlyphNumbering :=
  glyphs.foldl add initial

end GlyphNumbering

namespace Subset

/-- The bytes of a glyph, empty for one without outline; `none` when the font is broken there. -/
def glyphBytes? (f : Face) (outlines : Outlines) (glyph : Nat) : Option Bytes := do
  let table := (f.directory.table? "loca").getD []
  let location? (i : Nat) : Option Nat :=
    if f.header.wideLocations then doubleWord? table (4 * i)
    else (word? table (2 * i)).map (2 * ·)
  let first ← location? glyph
  let last ← location? (glyph + 1)
  guard (first ≤ last)
  slice? outlines.bytes first (last - first)

def components (bytes : Bytes) : List Component :=
  match GlyphShape.ofBytes bytes with
  | .composite components => components
  | _ => []

/-- Keep the glyphs on a stack, whose top is the head of the list, and the components of each of
them. A component is put on the stack unless it is kept already, and is kept once it is taken
off. -/
def close? (bytes? : Nat → Option Bytes) :
    (steps : Nat) → GlyphNumbering → (stack : List Nat) → Option GlyphNumbering
  | _, numbering, [] => some numbering
  | 0, _, _ => none
  | steps + 1, numbering, glyph :: stack => do
    let needed := (components (← bytes? glyph)).map Component.glyph
    let numbering := numbering.add glyph
    let fresh := needed.filter fun g ↦ g ∉ numbering.glyphs
    close? bytes? steps numbering (fresh.reverse ++ stack)

/-- Enough steps for any font: a glyph puts its components on the stack when it is first taken off,
and it has fewer of them than bytes. -/
def closeSteps (outlines : Outlines) : Nat :=
  65536 * (outlines.bytes.length + 2)

def patch (position : Nat) (change bytes : Bytes) : Bytes :=
  bytes.take position ++ change ++ bytes.drop (position + change.length)

/-- Put the new numbers of its components into a composite glyph. -/
def renumber (numbering : GlyphNumbering) (bytes : Bytes) : Bytes :=
  (components bytes).foldl (fun bytes component ↦
    patch component.place (putWord ((numbering.number? component.glyph).getD 0)) bytes) bytes

/-- The places of pieces that are put one after another, and the place after the last. -/
def offsets (pieces : List Bytes) : List Nat :=
  pieces.foldl (fun places piece ↦ places ++ [places.getLast?.getD 0 + piece.length]) [0]

/-- The left side bearing of a glyph, which stands with its advance or behind all advances. -/
def sideBearing (metricCount : Nat) (table : Bytes) (glyph : Nat) : Nat :=
  let position := if glyph < metricCount then 4 * glyph + 2 else 2 * metricCount + 2 * glyph
  (word? table position).getD 0

/-- The tables of the advances, for every glyph of the subset. -/
def metricTables? (f : Face) (numbering : GlyphNumbering) : Option (List (String × Bytes)) :=
  match f.directory.table? "hmtx", f.directory.table? "hhea" with
  | some table, some header => do
    let last ← f.advances.back?
    let entries := numbering.glyphs.flatMap fun glyph ↦
      putWord ((f.advances[glyph]?).getD last) ++ putWord (sideBearing f.metricCount table glyph)
    return [("hhea", patch 34 (putWord numbering.glyphs.length) header), ("hmtx", entries)]
  | _, _ => some []

/-- The tables that are kept as they are. -/
def keptTables : List String := ["cvt ", "fpgm", "prep"]

/-- The font that has only the glyphs of a numbering and what they are made of; `none` when the
font has no outlines of this kind or is broken. -/
def build? (bytes : Bytes) (numbering : GlyphNumbering) : Option Bytes := do
  let f ← Face.ofBytes? bytes
  let outlines ← f.outlines?
  let numbering ← close? (glyphBytes? f outlines) (closeSteps outlines) numbering
    numbering.glyphs.reverse
  let pieces ← numbering.glyphs.mapM fun glyph ↦ do
    return padded (renumber numbering (← glyphBytes? f outlines glyph))
  let metrics ← metricTables? f numbering
  let head := patch 8 [0, 0, 0, 0] (patch 50 (putWord 1) ((f.directory.table? "head").getD []))
  let maxp := patch 4 (putWord numbering.glyphs.length) ((f.directory.table? "maxp").getD [])
  let kept := keptTables.filterMap fun tag ↦ (f.directory.table? tag).map fun table ↦ (tag, table)
  let tables := kept ++
    [("glyf", pieces.flatten), ("head", head),
      ("loca", (offsets pieces).flatMap putDoubleWord), ("maxp", maxp)] ++ metrics
  return Directory.toBytes ⟨tables.mergeSort fun a b ↦ a.1 ≤ b.1⟩

end Subset

end Marginalia.Font
