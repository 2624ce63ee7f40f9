import Marginalia.Bytes
import Marginalia.DocumentId
import Marginalia.Json.Decode
import Marginalia.Json.Printer
import Marginalia.Text.Utf8

/-!
# Cache entries

A cached document is a file of a tag, the length of a header, the header, and the bytes of the
document. The header says which document it is, when it was captured, when it had last been modified
at its source, and how long it is.
-/

namespace Marginalia.Cache

open Json (Value Record)

/-- What a cache file says about its document. -/
structure Header where
  id : DocumentId
  capturedAt : Instant
  modifiedAt : Option Instant
  payloadLength : Nat
  deriving DecidableEq, Repr

/-- A cached document. -/
structure Entry where
  id : DocumentId
  payload : Bytes
  capturedAt : Instant
  modifiedAt : Option Instant
  deriving DecidableEq, Repr

/-- The time by which a cached document is as new as its source: that of the capture if the source
never gave one. -/
def Entry.effectiveTime (e : Entry) : Instant :=
  e.modifiedAt.getD e.capturedAt

/-! ## Headers -/

def Header.encode (h : Header) : Bytes :=
  Text.Utf8.encode (Value.compact (.object [
    ("id", .string h.id.text),
    ("captured_at", Json.ofTime h.capturedAt),
    ("upstream_modified_at", Json.ofOption Json.ofTime h.modifiedAt),
    ("payload_len", Json.ofNat h.payloadLength)]))

def Header.decode? (bytes : Bytes) : Option Header := do
  let r ← Record.ofValue? ["id", "captured_at", "upstream_modified_at", "payload_len"]
    (← Json.parse? (← Text.Utf8.decode? bytes))
  return {
    id := ⟨← r.required? "id" Value.string?⟩
    capturedAt := ← r.required? "captured_at" Value.time?
    modifiedAt := ← r.optional? "upstream_modified_at" Value.time?
    payloadLength := ← r.required? "payload_len" Value.nat64? }

/-! ## Files -/

/-- What every cache file begins with. -/
def tag : Bytes := Bytes.ofText "PMKCACHE"

/-- A number in four bytes, the lowest first. -/
def littleEndian (n : Nat) : Bytes :=
  [UInt8.ofNat n, UInt8.ofNat (n / 0x100), UInt8.ofNat (n / 0x10000),
    UInt8.ofNat (n / 0x1000000)]

/-- The number in four bytes, and the bytes after them. -/
def ofLittleEndian? : Bytes → Option (Nat × Bytes)
  | a :: b :: c :: d :: rest =>
    some (a.toNat + b.toNat * 0x100 + c.toNat * 0x10000 + d.toNat * 0x1000000, rest)
  | _ => none

def encode (h : Header) (payload : Bytes) : Bytes :=
  tag ++ littleEndian h.encode.length ++ h.encode ++ payload

def decode? (bytes : Bytes) : Option Entry := do
  let (length, rest) ← ofLittleEndian? (← Bytes.dropPrefix? tag bytes)
  if rest.length < length then none
  let h ← Header.decode? (rest.take length)
  let payload := rest.drop length
  if payload.length = h.payloadLength then
    return ⟨h.id, payload, h.capturedAt, h.modifiedAt⟩
  else none

end Marginalia.Cache
