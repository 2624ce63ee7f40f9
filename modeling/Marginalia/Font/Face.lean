import Marginalia.Font.Charmap
import Marginalia.Font.Directory
import Marginalia.Font.Outline

/-!
# Font faces

What a font says about itself: its scale, its vertical metrics, and for each glyph an advance and
an outline. The tables `head`, `hhea` and `maxp` are required; whatever else is missing or too
short is left out.
-/

namespace Marginalia.Font

/-- The box that holds all glyphs, in font units. -/
structure FontBox where
  left : Int
  bottom : Int
  right : Int
  top : Int
  deriving DecidableEq, Repr

/-- What the table `head` says. -/
structure Header where
  unitsPerEm : Nat
  box : FontBox
  wideLocations : Bool
  deriving Repr

/-- Read the table `head`. -/
def Header.ofBytes? (table : Bytes) : Option Header := do
  let _ ← slice? table 0 54
  let unitsPerEm ← word? table 18
  guard (16 ≤ unitsPerEm ∧ unitsPerEm ≤ 16384)
  let locations ← word? table 50
  guard (locations ≤ 1)
  let left ← signedWord? table 36
  let bottom ← signedWord? table 38
  let right ← signedWord? table 40
  let top ← signedWord? table 42
  return ⟨unitsPerEm, ⟨left, bottom, right, top⟩, locations = 1⟩

/-- A height above and a depth below the baseline; the depth is negative. -/
structure Extent where
  ascender : Int
  descender : Int
  deriving DecidableEq, Repr

/-- What the table `hhea` says. -/
structure HorizontalHeader where
  extent : Extent
  metricCount : Nat
  deriving Repr

/-- Read the table `hhea`. -/
def HorizontalHeader.ofBytes? (table : Bytes) : Option HorizontalHeader := do
  let _ ← slice? table 0 36
  return ⟨⟨← signedWord? table 4, ← signedWord? table 6⟩, ← word? table 34⟩

/-- The number of glyphs that the table `maxp` gives. -/
def glyphCount? (table : Bytes) : Option Nat := do
  let version ← doubleWord? table 0
  guard (version = 0x5000 ∨ version = 0x10000)
  let count ← word? table 4
  guard (count ≠ 0)
  return count

/-- What the table `OS/2` says. -/
structure StyleMetrics where
  typographic : Extent
  windows : Extent
  prefersTypographic : Bool
  capHeight? : Option Int
  deriving Repr

/-- The least length of the table `OS/2` in each of its versions. -/
def styleTableLengths : List Nat := [78, 86, 96, 96, 96, 100]

/-- Read the table `OS/2`. -/
def StyleMetrics.ofBytes? (table : Bytes) : Option StyleMetrics := do
  let version ← word? table 0
  let _ ← slice? table 0 (← styleTableLengths[version]?)
  let selection ← word? table 62
  return {
    typographic := ⟨← signedWord? table 68, ← signedWord? table 70⟩
    windows := ⟨← signedWord? table 74, -(← signedWord? table 76)⟩
    prefersTypographic := 4 ≤ version && selection.testBit 7
    capHeight? := if version < 2 then none else signedWord? table 88 }

/-- A measure of a font: the typographic one where the font prefers it; else the one of `hhea`; and
where that is zero the typographic and at last the one for windows. -/
def verticalMeasure (measure : Extent → Int) (header : Extent) (style? : Option StyleMetrics) :
    Int :=
  match style? with
  | none => measure header
  | some style =>
    if style.prefersTypographic then measure style.typographic
    else if measure header ≠ 0 then measure header
    else if measure style.typographic ≠ 0 then measure style.typographic
    else measure style.windows

/-- The advances of the glyphs from the table `hmtx`; none when the table is too short. -/
def advances (metricCount : Nat) (table : Bytes) : List Nat :=
  match wordsAt? table 0 (2 * metricCount) with
  | none => []
  | some entries => (List.range metricCount).filterMap fun i ↦ entries[2 * i]?

/-- Where the outlines of the glyphs begin, and where the last one ends. -/
def locations (wide : Bool) (table : Bytes) : List Nat :=
  if wide then doubleWords table else (words table).map (2 * ·)

/-- The outlines of the glyphs. -/
structure Outlines where
  locations : Array Nat
  bytes : Bytes
  deriving Repr

/-- A font that has been read. -/
structure Face where
  directory : Directory
  header : Header
  metricCount : Nat
  extent : Extent
  capHeight : Int
  glyphCount : Nat
  advances : Array Nat
  charmap? : Option Charmap
  outlines? : Option Outlines
  deriving Repr

namespace Face

def ofBytes? (bytes : Bytes) : Option Face := do
  let directory ← Directory.ofBytes? bytes
  let header ← Header.ofBytes? (← directory.table? "head")
  let horizontal ← HorizontalHeader.ofBytes? (← directory.table? "hhea")
  let count ← glyphCount? (← directory.table? "maxp")
  let style? := (directory.table? "OS/2").bind StyleMetrics.ofBytes?
  let ascender := verticalMeasure Extent.ascender horizontal.extent style?
  let outlines? : Option Outlines := do
    let table ← directory.table? "loca"
    let bytes ← directory.table? "glyf"
    return ⟨((locations header.wideLocations table).take (count + 1)).toArray, bytes⟩
  return {
    directory
    header
    metricCount := horizontal.metricCount
    extent := ⟨ascender, verticalMeasure Extent.descender horizontal.extent style?⟩
    capHeight := (style?.bind StyleMetrics.capHeight?).getD ascender
    glyphCount := count
    advances := (Font.advances horizontal.metricCount
      ((directory.table? "hmtx").getD [])).toArray
    charmap? := (directory.table? "cmap").bind Charmap.ofBytes?
    outlines? }

def glyph? (f : Face) (c : Char) : Option Nat :=
  f.charmap?.bind fun m ↦ m.glyph? c

/-- The advance of a glyph. Glyphs past the last advance share it. -/
def advance? (f : Face) (glyph : Nat) : Option Nat :=
  if max f.metricCount f.glyphCount ≤ glyph then none
  else (f.advances[glyph]?).or f.advances.back?

/-- The bytes of the outline of a glyph, or `none` when it has no outline. -/
def outline? (f : Face) (glyph : Nat) : Option Bytes := do
  let outlines ← f.outlines?
  let first ← outlines.locations[glyph]?
  let last ← outlines.locations[glyph + 1]?
  guard (first < last)
  slice? outlines.bytes first (last - first)

def path (f : Face) (glyph : Nat) : List PathStep :=
  glyphPath f.outline? glyph

end Face

end Marginalia.Font
