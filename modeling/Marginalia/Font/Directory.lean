import Marginalia.Font.Words

/-!
# Table directories

A font is a collection of tables. A directory at its start gives the place of each table; a file
may hold several fonts, of which the first one is used.
-/

namespace Marginalia.Font

/-- The tables of a font in the order of its directory. -/
structure Directory where
  tables : List (String × Bytes)
  deriving Repr

namespace Directory

/-- The table under a tag; of several the last one counts. -/
def table? (d : Directory) (tag : String) : Option Bytes :=
  (d.tables.reverse.find? fun (t, _) ↦ t == tag).map Prod.snd

def collectionMark : Nat := 0x74746366

def fontMarks : List Nat := [0x00010000, 0x74727565, 0x4F54544F]

/-- The position of the first font of a file. -/
def start? (bytes : Bytes) : Option Nat := do
  if (← doubleWord? bytes 0) ≠ collectionMark then return 0
  let count ← doubleWord? bytes 8
  let offsets := doubleWords (← slice? bytes 12 (4 * count))
  let first ← offsets.head?
  if 12 + 4 * count ≤ first then return first else none

/-- The entry of a directory with the bytes it points to, if they are there. -/
def located? (bytes record : Bytes) : Option (String × Bytes) := do
  let offset ← doubleWord? record 8
  let length ← doubleWord? record 12
  return (Bytes.toText (record.take 4), ← slice? bytes offset length)

def records : Nat → Bytes → List Bytes
  | 0, _ => []
  | count + 1, bytes => bytes.take 16 :: records count (bytes.drop 16)

/-- The tables of the first font of a file. -/
def ofBytes? (bytes : Bytes) : Option Directory := do
  let start ← start? bytes
  guard (fontMarks.contains (← doubleWord? bytes start))
  let count ← word? bytes (start + 4)
  let listing ← slice? bytes (start + 12) (16 * count)
  return ⟨(records count listing).filterMap (located? bytes)⟩

/-- The sum of the four-byte numbers of a table. -/
def checksum (table : Bytes) : Nat :=
  (doubleWords (padded table)).foldl (· + ·) 0 % 0x100000000

/-- The records of a directory and the tables behind it, from a position on. -/
def layout : Nat → List (String × Bytes) → Bytes × Bytes
  | _, [] => ([], [])
  | position, (tag, table) :: rest =>
    let record := Bytes.ofText tag ++ putDoubleWord (checksum table) ++ putDoubleWord position ++
      putDoubleWord table.length
    let body := padded table
    let (records, bodies) := layout (position + body.length) rest
    (record ++ records, body ++ bodies)

def toBytes (d : Directory) : Bytes :=
  let count := d.tables.length
  let selector := Nat.log2 count
  let (records, bodies) := layout (12 + 16 * count) d.tables
  putDoubleWord 0x00010000 ++ putWord count ++ putWord (16 * Nat.pow 2 selector) ++
    putWord selector ++ putWord (16 * count - 16 * Nat.pow 2 selector) ++ records ++ bodies

end Directory

end Marginalia.Font
