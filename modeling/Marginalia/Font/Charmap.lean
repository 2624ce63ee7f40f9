import Marginalia.Font.Words

/-!
# Character maps

A character map gives the glyphs of characters. A font may hold several maps for different
encodings; the ones for Unicode are asked one after another.
-/

namespace Marginalia.Font

/-- Where a segment has its glyphs: at the codes shifted by its delta, in a list that starts at a
place of the map, or nowhere. -/
inductive SegmentGlyphs where
  | shifted
  | listed (place : Nat)
  | absent
  deriving Repr

/-- A run of characters of a map for the first 65536 code points. -/
structure Segment where
  first : Nat
  last : Nat
  delta : Nat
  glyphs : SegmentGlyphs
  deriving Repr

/-- A run of characters with a run of glyphs. -/
structure GlyphRun where
  first : Nat
  last : Nat
  glyph : Nat
  deriving Repr

/-- The characters whose codes have the same high byte, by their low bytes. The glyphs are listed at
an offset from the place where it is noted. -/
structure LowBytes where
  first : Nat
  count : Nat
  delta : Int
  offset : Nat
  deriving Repr

/-- The ways in which a map can be stored. A list of glyphs starts at a code point, and may have
gaps. The characters of a run have glyphs of their own, or all the same one. By its high byte a code
point belongs to one of several blocks of low bytes. A map for sequences holds no single
character. -/
inductive Coverage where
  | listed (first : Nat) (glyphs : List (Option UInt16))
  | highBytes (bytes : Bytes) (keys : List Nat) (blocks : List LowBytes)
  | segments (bytes : Bytes) (parts : List Segment)
  | runs (parts : List GlyphRun)
  | shared (parts : List GlyphRun)
  | sequences
  deriving Repr

namespace Coverage

/-- The glyphs of a segment from the offset that stands at a place; a list is found relative to the
place where its offset is noted. -/
def segmentGlyphs (offset place : Nat) : SegmentGlyphs :=
  if offset = 0 then .shifted
  else if offset = 0xFFFF then .absent
  else .listed (offset + place)

def segments? (bytes : Bytes) : Option Coverage := do
  let count := (← word? bytes 6) / 2
  guard (0 < count)
  let lasts ← wordsAt? bytes 14 count
  let firsts ← wordsAt? bytes (16 + 2 * count) count
  let deltas ← wordsAt? bytes (16 + 4 * count) count
  let offsets ← wordsAt? bytes (16 + 6 * count) count
  let places := (List.range count).map fun i ↦ 16 + 6 * count + 2 * i
  let glyphs := List.zipWith segmentGlyphs offsets places
  return .segments bytes <|
    (((firsts.zip lasts).zip deltas).zip glyphs).map fun (((first, last), delta), glyphs) ↦
      ⟨first, last, delta, glyphs⟩

/-- The runs that four-byte numbers describe, three for each. -/
def runsOf : List Nat → List GlyphRun
  | first :: last :: glyph :: rest => ⟨first, last, glyph⟩ :: runsOf rest
  | _ => []

def runs? (bytes : Bytes) : Option (List GlyphRun) := do
  let count ← doubleWord? bytes 12
  return runsOf (doubleWords (← slice? bytes 16 (12 * count)))

/-- The glyphs of the first 256 code points; zero stands for a gap. -/
def singleBytes? (bytes : Bytes) : Option Coverage := do
  let glyphs ← slice? bytes 6 256
  return .listed 0 (glyphs.map fun b ↦ if b = 0 then none else some (UInt16.ofNat b.toNat))

/-- The blocks that two-byte numbers describe, four for each. -/
def blocksOf : List Nat → List LowBytes
  | first :: count :: delta :: offset :: rest =>
    ⟨first, count, signed delta, offset⟩ :: blocksOf rest
  | _ => []

/-- A map by high bytes. Eight times its block stands for each of them. -/
def highBytes? (bytes : Bytes) : Option Coverage := do
  let keys ← wordsAt? bytes 6 256
  let count := (keys.map (· / 8)).foldl max 0 + 1
  return .highBytes bytes keys (blocksOf (← wordsAt? bytes 518 (4 * count)))

/-- A list of glyphs for some of the first 65536 code points. -/
def trimmedList? (bytes : Bytes) : Option Coverage := do
  let first ← word? bytes 6
  let glyphs ← wordsAt? bytes 10 (← word? bytes 8)
  return .listed first ((glyphs.take (65536 - first)).map fun glyph ↦ some (UInt16.ofNat glyph))

def wideList? (bytes : Bytes) : Option Coverage := do
  let first ← doubleWord? bytes 12
  let glyphs ← wordsAt? bytes 20 (← doubleWord? bytes 16)
  return .listed first (glyphs.map fun glyph ↦ some (UInt16.ofNat glyph))

/-- Read a stored map. Of the known forms only the one that mixes code points of two and of four
bytes is not used. -/
def ofBytes? (bytes : Bytes) : Option Coverage := do
  match ← word? bytes 0 with
  | 0 => singleBytes? bytes
  | 2 => highBytes? bytes
  | 4 => segments? bytes
  | 6 => trimmedList? bytes
  | 8 => return .sequences
  | 10 => wideList? bytes
  | 12 => return .runs (← runs? bytes)
  | 13 => return .shared (← runs? bytes)
  | 14 =>
    let _ ← slice? bytes 10 (11 * (← doubleWord? bytes 6))
    return .sequences
  | _ => none

/-- The glyph of a code point in a segment that contains it. -/
def segmentGlyph? (bytes : Bytes) (s : Segment) (code : Nat) : Option Nat :=
  match s.glyphs with
  | .shifted => some ((code + s.delta) % 65536)
  | .absent => none
  | .listed place => do
    let distance := 2 * (code - s.first)
    guard (distance < 65536)
    let value ← word? bytes ((place + distance) % 65536)
    guard (value ≠ 0)
    let glyph := signed ((value + s.delta) % 65536)
    guard (0 ≤ glyph)
    return glyph.toNat

/-- The glyph of a code point by its high byte. The first block is that of single bytes. -/
def highByteGlyph? (bytes : Bytes) (keys : List Nat) (blocks : List LowBytes) (code : Nat) :
    Option Nat := do
  guard (code < 65536)
  let index ← (if code < 255 then some 0 else keys[code / 256]?.map (· / 8))
  let block ← blocks[index]?
  let low := code % 256
  guard (block.first + block.count < 65536 ∧ block.first ≤ low ∧ low < block.first + block.count)
  let place := 518 + 8 * (index + 1) - 2
  let glyph ← word? bytes (place + block.offset + 2 * (low - block.first))
  let shifted := (glyph : Int) + block.delta
  guard (glyph ≠ 0 ∧ 0 ≤ shifted)
  return shifted.toNat % 65536

def glyph? (c : Coverage) (code : Nat) : Option Nat :=
  match c with
  | .listed first glyphs =>
    if first ≤ code then glyphs[code - first]?.join.map UInt16.toNat else none
  | .highBytes bytes keys blocks => highByteGlyph? bytes keys blocks code
  | .segments bytes parts => do
    let s ← parts.find? fun s ↦ code ≤ s.last
    if s.first ≤ code then segmentGlyph? bytes s code else none
  | .runs parts => do
    let run ← parts.find? fun r ↦ r.first ≤ code && code ≤ r.last
    let glyph := run.glyph + code - run.first
    if glyph < 65536 then return glyph else none
  | .shared parts => do
    let run ← parts.find? fun r ↦ r.first ≤ code && code ≤ r.last
    if run.glyph < 65536 then return run.glyph else none
  | .sequences => none

end Coverage

/-- A map with the platform and the encoding it is meant for. -/
structure EncodedMap where
  platform : Nat
  encoding : Nat
  coverage : Coverage
  deriving Repr

namespace EncodedMap

/-- Whether a map is about Unicode characters. -/
def isUnicode (m : EncodedMap) : Bool :=
  match m.platform, m.encoding, m.coverage with
  | 0, _, _ => true
  | 3, 1, _ => true
  | 3, 10, .runs _ => true
  | 3, 10, .shared _ => true
  | _, _, _ => false

/-- Read a map by its place in the list of maps. -/
def at? (table : Bytes) (index : Nat) : Option EncodedMap := do
  let platform ← word? table (4 + 8 * index)
  guard (platform ≤ 4)
  let encoding ← word? table (6 + 8 * index)
  let offset ← doubleWord? table (8 + 8 * index)
  return ⟨platform, encoding, ← Coverage.ofBytes? (table.drop offset)⟩

/-- A number of maps from a place in the list on; the list ends before the first broken map. -/
def listFrom (table : Bytes) : (count index : Nat) → List EncodedMap
  | 0, _ => []
  | count + 1, index =>
    match at? table index with
    | some m => m :: listFrom table count (index + 1)
    | none => []

end EncodedMap

/-- The character maps of a font. -/
structure Charmap where
  maps : List EncodedMap
  deriving Repr

namespace Charmap

def ofBytes? (table : Bytes) : Option Charmap := do
  let count ← word? table 2
  let _ ← slice? table 4 (8 * count)
  return ⟨EncodedMap.listFrom table count 0⟩

/-- The glyph of a character: the first that a map for Unicode has. -/
def glyph? (m : Charmap) (c : Char) : Option Nat :=
  (m.maps.filter EncodedMap.isUnicode).findSome? fun encoded ↦ encoded.coverage.glyph? c.toNat

end Charmap

end Marginalia.Font
