import Marginalia.Font.Directory

/-!
# A sample font

A small and complete font with square glyphs, for trying out whatever deals with fonts.
-/

namespace Marginalia.Font.Sample

/-- A glyph drawn as a filled box, or as nothing. -/
structure SquareGlyph where
  character? : Option Char
  advance : Nat
  box? : Option (Int × Int × Int × Int)

/-- The glyphs of the sample font: the one for missing characters, then by ascending character. -/
def glyphs : List SquareGlyph := [
  ⟨none, 500, some (50, 0, 450, 700)⟩,
  ⟨some ' ', 250, none⟩,
  ⟨some 'A', 600, some (40, 0, 560, 700)⟩,
  ⟨some 'B', 620, some (60, 0, 580, 700)⟩,
  ⟨some 'H', 700, some (60, 0, 640, 700)⟩,
  ⟨some 'e', 540, some (40, 0, 500, 500)⟩,
  ⟨some 'l', 260, some (60, 0, 200, 720)⟩,
  ⟨some 'o', 560, some (40, 0, 520, 500)⟩,
  ⟨some 'x', 520, some (20, 0, 500, 500)⟩,
  ⟨some 'ä', 560, some (40, 0, 520, 680)⟩]

/-- How many units the side of the em square has. -/
def unitsPerEm : Nat := 1000

/-- How far the font reaches above the baseline. -/
def ascender : Int := 800

/-- How far the font reaches below the baseline. -/
def descender : Int := -200

/-- The outline of a box: one contour of four points on the curve. -/
def outline : Int × Int × Int × Int → Bytes
  | (x₀, y₀, x₁, y₁) =>
    [1, x₀, y₀, x₁, y₁].flatMap putSigned ++ putWord 3 ++ putWord 0 ++ [1, 1, 1, 1] ++
      [x₀, 0, x₁ - x₀, 0, y₀, y₁ - y₀, 0, y₀ - y₁].flatMap putSigned

def outlines : List Bytes :=
  glyphs.map fun g ↦ (g.box?.map outline).getD []

/-- The table of the places of the outlines, in units of two bytes. -/
def locations : Bytes :=
  let places := outlines.foldl (fun places piece ↦
    places ++ [places.getLast?.getD 0 + piece.length]) [0]
  places.flatMap fun place ↦ putWord (place / 2)

/-- The table of advances and left side bearings. -/
def metrics : Bytes :=
  glyphs.flatMap fun g ↦ putWord g.advance ++ putSigned ((g.box?.map Prod.fst).getD 0)

def header : Bytes :=
  putWord 1 ++ putWord 0 ++ putDoubleWord 0x00010000 ++ putDoubleWord 0 ++
    putDoubleWord 0x5F0F3CF5 ++ putWord 0 ++ putWord unitsPerEm ++ List.replicate 16 0 ++
    [0, descender, 700, ascender].flatMap putSigned ++ putWord 0 ++ putWord 8 ++ putSigned 2 ++
    putWord 0 ++ putWord 0

/-- The table that opens the horizontal measures. -/
def horizontalHeader : Bytes :=
  putDoubleWord 0x00010000 ++
    [ascender, descender, 0, 700, 0, 0, 640, 1, 0, 0].flatMap putSigned ++ List.replicate 8 0 ++
    putWord 0 ++ putWord glyphs.length

/-- The table that says how many glyphs there are. -/
def profile : Bytes :=
  putDoubleWord 0x00010000 ++ putWord glyphs.length ++
    [4, 1, 0, 0, 2, 0, 0, 0, 0, 0, 0, 0, 0].flatMap putWord

/-- The characters with their glyphs, ascending. -/
def characters : List (Nat × Nat) :=
  (glyphs.zip (List.range glyphs.length)).filterMap fun (g, i) ↦
    g.character?.map fun c ↦ (c.toNat, i)

/-- The character map: a segment for each character and a last one without glyphs. -/
def charmap : Bytes :=
  let count := characters.length + 1
  let selector := Nat.log2 count
  let range := 2 * Nat.pow 2 selector
  [0, 1, 3, 1].flatMap putWord ++ putDoubleWord 12 ++
    [4, 16 + 8 * count, 0, 2 * count, range, selector, 2 * count - range].flatMap putWord ++
    characters.flatMap (fun (code, _) ↦ putWord code) ++ putWord 0xFFFF ++ putWord 0 ++
    characters.flatMap (fun (code, _) ↦ putWord code) ++ putWord 0xFFFF ++
    characters.flatMap (fun (code, glyph) ↦ putSigned (glyph - code)) ++ putWord 1 ++
    List.replicate (2 * count) 0

/-- The table of weight, width and line measures. -/
def styleMetrics : Bytes :=
  putWord 4 ++ putWord 500 ++ putWord 400 ++ putWord 5 ++ List.replicate 54 0 ++ putWord 0x40 ++
    putWord 0x20 ++ putWord 0xE4 ++ [ascender, descender, 0, ascender, -descender].flatMap putSigned
    ++ List.replicate 8 0 ++ putWord 500 ++ putWord 700 ++ List.replicate 6 0

def font : Bytes :=
  Directory.toBytes ⟨[
    ("OS/2", styleMetrics),
    ("cmap", charmap),
    ("glyf", outlines.flatten),
    ("head", header),
    ("hhea", horizontalHeader),
    ("hmtx", metrics),
    ("loca", locations),
    ("maxp", profile),
    ("name", [0, 0, 0, 0, 0, 6]),
    ("post", putDoubleWord 0x00030000 ++ List.replicate 28 0)]⟩

end Marginalia.Font.Sample
