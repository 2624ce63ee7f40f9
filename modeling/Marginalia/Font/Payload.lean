import Marginalia.Font.Asset
import Marginalia.Font.Subset

/-!
# Font payloads

What a document gets of a font: a subset with the glyphs of the characters in use, the codes by
which its text calls for them, and the widths of these codes. A font that cannot be cut down is
taken as a whole, under its own glyph numbers.
-/

namespace Marginalia.Font

/-- How much of a font is taken. -/
inductive PayloadKind where
  | subset
  | full
  deriving DecidableEq, Repr

/-- The part of a font that goes into a document. Codes are listed by ascending character, widths in
thousandths of the font size by ascending code. -/
structure Payload where
  family : FontFamily
  baseFont : String
  bytes : Bytes
  kind : PayloadKind
  codes : List (Char × Nat)
  widths : List (Nat × Int)
  metrics : Metrics
  deriving DecidableEq, Repr

namespace Payload

/-- The code of a character, if it has one. -/
def code? (p : Payload) (c : Char) : Option Nat :=
  p.codes.lookup c

/-- The codes of a text; a character without a code gets the one for missing characters. -/
def encode (p : Payload) (text : String) : List Nat :=
  text.toList.map fun c ↦ (p.code? c).getD 0

end Payload

/-- The name under which fonts of a family are put into documents. -/
def baseName : FontFamily → String
  | .serif => "MarkupSerif"
  | .sans => "MarkupSans"

/-- A number of capital letters drawn from a number, the lowest first. -/
def letters : (count : Nat) → UInt64 → List Char
  | 0, _ => []
  | count + 1, n => Char.ofNat (65 + (n % 26).toNat) :: letters count (n / 26)

/-- The four bytes of a character, the least significant first. -/
def characterBytes (c : Char) : Bytes :=
  [UInt8.ofNat c.toNat, UInt8.ofNat (c.toNat / 256), UInt8.ofNat (c.toNat / 65536), 0]

/-- The six letters that tell subsets of a family apart. -/
def subsetTag (family : FontFamily) (characters : List Char) : String :=
  String.ofList (letters 6 (hash (Bytes.ofText family.name ++ characters.flatMap characterBytes)))

/-- The characters that a face has, with their glyphs. -/
def mapped (f : Face) (characters : List Char) : List (Char × Nat) :=
  characters.filterMap fun c ↦ (f.glyph? c).map fun glyph ↦ (c, glyph)

/-- The widths of the codes of some glyphs, and of the glyph for missing characters. -/
def widthTable (advance : Nat → Int) (glyphs codes : List (Char × Nat)) : List (Nat × Int) :=
  glyphs.foldl (fun widths (c, glyph) ↦
    match codes.lookup c with
    | some code => Ascending.insert Prod.fst (code, advance glyph) widths
    | none => widths) [(0, advance 0)]

/-- The payload of some characters, in ascending order, of a font; `none` when the font cannot be
read. -/
def Payload.build? (asset : Asset) (characters : List Char) : Option Payload := do
  let f ← Face.ofBytes? asset.bytes
  let glyphs := mapped f characters
  let numbering := GlyphNumbering.ofGlyphs (glyphs.map Prod.snd)
  let advance (glyph : Nat) : Int := asset.metrics.toThousandths ((f.advance? glyph).getD 0)
  let (bytes, kind, codes) := match Subset.build? asset.bytes numbering with
    | some bytes => (bytes, PayloadKind.subset, glyphs.filterMap fun (c, glyph) ↦
        (numbering.number? glyph).map fun code ↦ (c, code))
    | none => (asset.bytes, PayloadKind.full, glyphs)
  return {
    family := asset.family
    baseFont := subsetTag asset.family characters ++ "+" ++ baseName asset.family
    bytes, kind, codes
    widths := widthTable advance glyphs codes
    metrics := asset.metrics }

/-! ## The memory of payloads -/

/-- What a payload is made of. -/
structure PayloadKey where
  family : FontFamily
  fingerprint : UInt64
  characters : List Char
  deriving DecidableEq, Repr

/-- The key of the payload of some characters of a font. -/
def payloadKey (asset : Asset) (characters : List Char) : PayloadKey :=
  ⟨asset.family, asset.fingerprint, characters⟩

/-- The payloads that have been built. -/
structure SubsetBuilder where
  memory : List (PayloadKey × Payload)
  deriving Repr

namespace SubsetBuilder

def empty : SubsetBuilder := ⟨[]⟩

def size (b : SubsetBuilder) : Nat := b.memory.length

/-- The payload of some characters of a font, from memory if it has been built before. Without
characters there is nothing to put into a document. -/
def build (b : SubsetBuilder) (asset : Asset) (characters : List Char) :
    Option Payload × SubsetBuilder :=
  if characters.isEmpty then (none, b)
  else
    let key := payloadKey asset characters
    match b.memory.lookup key with
    | some payload => (some payload, b)
    | none =>
      match Payload.build? asset characters with
      | some payload => (some payload, ⟨b.memory ++ [(key, payload)]⟩)
      | none => (none, b)

/-- The payload of a family, if it is used and there is a font for it. -/
def buildFamily (b : SubsetBuilder) (library : Library) (usage : FamilyTable (List Char))
    (family : FontFamily) : Option Payload × SubsetBuilder :=
  match usage.get? family, library.get? family with
  | some characters, some asset => b.build asset characters
  | _, _ => (none, b)

def buildAll (b : SubsetBuilder) (library : Library) (usage : FamilyTable (List Char)) :
    FamilyTable Payload × SubsetBuilder :=
  let (serif?, b) := b.buildFamily library usage .serif
  let (sans?, b) := b.buildFamily library usage .sans
  (⟨serif?, sans?⟩, b)

end SubsetBuilder

end Marginalia.Font
