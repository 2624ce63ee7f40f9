import Marginalia.Cache.Entry
import Marginalia.Folder
import Marginalia.Font.Asset

/-!
# The document cache

Documents are kept on disk for a while, one file each, named by a hash of the id. An entry that is
too old, or cannot be read, or belongs to another document with the same hash is removed when it is
come across. What the clock shows is given to every operation that looks at the age of entries.
-/

namespace Marginalia

/-- Counts of what has happened to a cache. -/
structure CacheStats where
  hits : Nat
  misses : Nat
  expired : Nat
  corrupt : Nat
  writes : Nat
  deriving DecidableEq, Repr

namespace CacheStats

/-- Nothing has happened. -/
def zero : CacheStats := ⟨0, 0, 0, 0, 0⟩

/-- The part of the lookups that found something. -/
def hitRate (s : CacheStats) : Float :=
  if s.hits + s.misses = 0 then 0 else Float.ofNat s.hits / Float.ofNat (s.hits + s.misses)

end CacheStats

/-- A cache in a folder; the lifetime of its entries is in nanoseconds. -/
structure Cache where
  folder : Folder
  lifetime : Nat
  stats : CacheStats
  deriving DecidableEq, Repr

namespace Cache

def openIn (folder : Folder) (lifetime : Nat) : Except FileError Cache := do
  return ⟨← folder.create, lifetime, .zero⟩

/-- The part of the file names that stands for a document. -/
def stem (id : DocumentId) : String :=
  String.ofList (Decimal.hexDigits 16 (Font.hash (Text.Utf8.encode id.text)).toNat)

def fileName (id : DocumentId) : String := stem id ++ ".entry"

/-- The name of the file that a document is first written to. -/
def temporaryName (id : DocumentId) : String := stem id ++ ".tmp"

def isEntryName (name : String) : Bool :=
  ".entry".toList.isSuffixOf name.toList && 6 < name.length

/-- The age of an entry in nanoseconds; one from the future is brand new. -/
def age (now : Instant) (e : Entry) : Nat := (now.since e.capturedAt).toNat

def isExpired (c : Cache) (now : Instant) (e : Entry) : Bool :=
  c.lifetime ≤ age now e

/-- Count one more entry that was too old. -/
def countExpired (c : Cache) : Cache :=
  { c with stats := { c.stats with expired := c.stats.expired + 1 } }

/-- Count one more entry that could not be read. -/
def countCorrupt (c : Cache) : Cache :=
  { c with stats := { c.stats with corrupt := c.stats.corrupt + 1 } }

def removeFile (c : Cache) (name : String) : Except FileError Bool × Cache :=
  let (answer, folder) := c.folder.remove name
  (answer, { c with folder })

def discard (c : Cache) (name : String) : Except FileError (Option Entry) × Cache :=
  let (answer, c) := c.removeFile name
  (answer.map fun _ ↦ none, c)

/-- The entry of a document, unless it has to be removed. -/
def readFresh (c : Cache) (now : Instant) (id : DocumentId) :
    Except FileError (Option Entry) × Cache :=
  match c.folder.read (fileName id) with
  | .error .missing => (.ok none, c)
  | .error e => (.error e, c)
  | .ok bytes =>
    match (decode? bytes).filter fun e ↦ e.id = id with
    | none => c.countCorrupt.discard (fileName id)
    | some e =>
      if c.isExpired now e then c.countExpired.discard (fileName id) else (.ok (some e), c)

def get (c : Cache) (now : Instant) (id : DocumentId) : Except FileError (Option Entry) × Cache :=
  match c.readFresh now id with
  | (.error e, c) => (.error e, c)
  | (.ok none, c) => (.ok none, { c with stats := { c.stats with misses := c.stats.misses + 1 } })
  | (.ok (some e), c) =>
    (.ok (some e), { c with stats := { c.stats with hits := c.stats.hits + 1 } })

/-- Keep a document; when renaming fails the temporary file is removed. -/
def put (c : Cache) (now : Instant) (id : DocumentId) (payload : Bytes)
    (modifiedAt : Option Instant) : Except FileError Unit × Cache :=
  let bytes := encode ⟨id, now, modifiedAt, payload.length⟩ payload
  match c.folder.applyAll (Folder.replacing (fileName id) (temporaryName id) bytes) with
  | (none, folder) =>
    (.ok (), { c with folder, stats := { c.stats with writes := c.stats.writes + 1 } })
  | (some e, folder) => (.error e, { c with folder := (folder.remove (temporaryName id)).2 })

/-- Whether the cached document is at least as new as its source. -/
def isValid (c : Cache) (now : Instant) (id : DocumentId) (modifiedAt : Instant) :
    Except FileError Bool × Cache :=
  match c.readFresh now id with
  | (.error e, c) => (.error e, c)
  | (.ok entry, c) => (.ok (entry.any fun e ↦ modifiedAt.le e.effectiveTime), c)

/-- Remove the cached document if its source is newer; the answer says whether it was removed. -/
def invalidateIfStale (c : Cache) (now : Instant) (id : DocumentId) (modifiedAt : Instant) :
    Except FileError Bool × Cache :=
  match c.readFresh now id with
  | (.error e, c) => (.error e, c)
  | (.ok none, c) => (.ok false, c)
  | (.ok (some e), c) =>
    if e.effectiveTime.lt modifiedAt then c.removeFile (fileName id) else (.ok false, c)

def remove (c : Cache) (id : DocumentId) : Except FileError Bool × Cache :=
  c.removeFile (fileName id)

def entryNames (c : Cache) : Except FileError (List String) :=
  match c.folder.names with
  | .error .missing => .ok []
  | .error e => .error e
  | .ok names => .ok (names.filter isEntryName)

/-- Go through files and count those removed, up to the first that cannot be dealt with. -/
def sweep (step : Cache → String → Except FileError Bool × Cache) :
    Cache → Nat → List String → Except FileError Nat × Cache
  | c, removed, [] => (.ok removed, c)
  | c, removed, name :: rest =>
    match step c name with
    | (.error e, c) => (.error e, c)
    | (.ok gone, c) => sweep step c (if gone then removed + 1 else removed) rest

def sweepEntries (c : Cache) (step : Cache → String → Except FileError Bool × Cache) :
    Except FileError Nat × Cache :=
  match c.entryNames with
  | .error e => (.error e, c)
  | .ok names => sweep step c 0 names

def clear (c : Cache) : Except FileError Nat × Cache :=
  c.sweepEntries removeFile

/-- Remove an entry that is too old or cannot be read. -/
def purgeFile (now : Instant) (c : Cache) (name : String) : Except FileError Bool × Cache :=
  match c.folder.read name with
  | .error .missing => (.ok false, c)
  | .error e => (.error e, c)
  | .ok bytes =>
    match decode? bytes with
    | none => c.countCorrupt.removeFile name
    | some e => if c.isExpired now e then c.countExpired.removeFile name else (.ok false, c)

/-- Remove all entries that are too old or cannot be read. -/
def purgeExpired (c : Cache) (now : Instant) : Except FileError Nat × Cache :=
  c.sweepEntries (purgeFile now)

end Cache

end Marginalia
