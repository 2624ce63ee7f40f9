import Marginalia.Cache.Basic
import Marginalia.Proofs.Cache.Layout
import Marginalia.Proofs.Instant.Reading
import Marginalia.Proofs.Json.Decoding
import Marginalia.Proofs.Text.Utf8

/-!
# Headers read back

The header of a cache file is read as it was written, but for times in leap seconds, which are read
as no earlier ones. So an entry that is read again is not older than the one that was written, as
long as its header is not too long for the four bytes that hold the length.
-/

namespace Marginalia.Cache

open Json (Value Record Readable)

/-- The header that is read from the bytes of another one. -/
def Header.asRead (h : Header) : Header :=
  { h with capturedAt := h.capturedAt.asRead, modifiedAt := h.modifiedAt.map Instant.asRead }

theorem time?_ofTime (t : Instant) : (Json.ofTime t).time? = some t.asRead :=
  t.parseRelaxed?_text

theorem optional?_ofTime (t : Option Instant) :
    (Json.ofOption Json.ofTime t).optional? Value.time? = some (t.map Instant.asRead) := by
  cases t with
  | none => rfl
  | some t => simp only [Json.ofOption, Json.ofTime, Value.optional?, Value.time?,
      Instant.parseRelaxed?_text, Option.map_some]

/-- A header is read whatever the document is called and whenever it was captured. -/
theorem Header.decode?_encode (h : Header) (hlength : h.payloadLength < 0x10000000000000000) :
    decode? h.encode = some h.asRead := by
  have hmodifiedAt : Readable 0 (Json.ofOption Json.ofTime h.modifiedAt) := by
    cases h.modifiedAt with
    | none => exact .null
    | some t => exact .string _
  have hreadable : Readable 1 (.object [
      ("id", .string h.id.text),
      ("captured_at", Json.ofTime h.capturedAt),
      ("upstream_modified_at", Json.ofOption Json.ofTime h.modifiedAt),
      ("payload_len", Json.ofNat h.payloadLength)]) :=
    .object (by simp [Readable.string, hmodifiedAt, Json.readable_ofNat, Json.ofTime])
  rw [decode?, encode, Text.Utf8.decode?_encode]
  simp [Json.parse?_compact hreadable, Record.ofValue?, Record.required?, Record.optional?,
    Record.value?, Value.string?, time?_ofTime, optional?_ofTime, Json.nat64?_ofNat hlength, asRead]

/-- A header has room for its lengths, and its times are those of a clock. -/
structure Header.Fits (h : Header) : Prop where
  encoded : h.encode.length < 0x100000000
  payload : h.payloadLength < 0x10000000000000000
  capturedAt : h.capturedAt.IsProper
  modifiedAt : ∀ t, h.modifiedAt = some t → t.IsProper

/-- The entry that is read from the file of a header that fits. -/
theorem decode?_encode_of_fits {h : Header} (hfits : h.Fits) {payload : Bytes}
    (hlength : payload.length = h.payloadLength) :
    decode? (encode h payload) =
      some ⟨h.id, payload, h.capturedAt.asRead, h.modifiedAt.map Instant.asRead⟩ :=
  decode?_encode_of_header hfits.encoded (h.decode?_encode hfits.payload) hlength

/-- A header whose times are not within leap seconds is read back. -/
theorem Header.readsBack_of_asRead {h : Header} (hfits : h.encode.length < 0x100000000)
    (hlength : h.payloadLength < 0x10000000000000000) (hread : h.asRead = h) : h.ReadsBack :=
  ⟨hfits, (h.decode?_encode hlength).trans (congrArg some hread)⟩

/-- An entry that is read at once is brand new. -/
theorem age_asRead {now : Instant} (hnow : now.IsProper) (id : DocumentId) (payload : Bytes)
    (modifiedAt : Option Instant) : age now ⟨id, payload, now.asRead, modifiedAt⟩ = 0 :=
  Instant.toNat_since_asRead hnow

/-- What is written is read back, whatever bytes the document has; cut short or followed by anything
it is refused. A file is read as an entry exactly if it is laid out as one, and no file makes the
reader look outside of it. -/
theorem files_read_exactly :
    (∀ (h : Header) (payload : Bytes), h.ReadsBack → payload.length = h.payloadLength →
      decode? (encode h payload) = some ⟨h.id, payload, h.capturedAt, h.modifiedAt⟩ ∧
        (∀ cut, cut <+: encode h payload → cut ≠ encode h payload → decode? cut = none) ∧
        ∀ more, more ≠ [] → decode? (encode h payload ++ more) = none) ∧
      (∀ bytes e, decode? bytes = some e ↔ ∃ header h, IsLaidOut bytes header h e.payload ∧
        e = ⟨h.id, e.payload, h.capturedAt, h.modifiedAt⟩) ∧
      ∀ bytes, decodeLooking bytes = some (decode? bytes) := by
  refine ⟨?_, fun bytes e ↦ decode?_eq_some_iff, decodeLooking_eq⟩
  intro h payload hreads hlength
  have hread := decode?_encode hreads hlength
  have hwhole : (decode? (encode h payload)).isSome := by
    rw [hread]
    rfl
  refine ⟨hread, ?_, ?_⟩
  · intro cut hprefix hstrict
    apply Option.not_isSome_iff_eq_none.mp
    intro hcut
    exact hstrict (eq_of_prefix_of_decode? hprefix hcut hwhole)
  · intro more hmore
    apply Option.not_isSome_iff_eq_none.mp
    intro hlonger
    have hsame := eq_of_prefix_of_decode? (List.prefix_append _ more) hwhole hlonger
    exact hmore (List.self_eq_append_right.mp hsame)

/-- A document whose bytes are those of the tag. -/
theorem files_read_exactly_tag :
    let h : Header := ⟨⟨"a"⟩, ⟨0, 0⟩, some ⟨5, 0⟩, 8⟩
    h.ReadsBack ∧ tag.length = h.payloadLength ∧
      decode? (encode h tag) = some ⟨⟨"a"⟩, tag, ⟨0, 0⟩, some ⟨5, 0⟩⟩ ∧
      decode? (encode h (tag.take 7)) = none ∧ decode? (encode h (tag ++ tag)) = none := by
  intro h
  have hreads : h.ReadsBack :=
    Header.readsBack_of_asRead (by decide +kernel) (by decide) (by decide +kernel)
  have hlength : tag.length = h.payloadLength := by decide +kernel
  obtain ⟨hread, hcut, hlonger⟩ := files_read_exactly.1 h tag hreads hlength
  refine ⟨hreads, hlength, hread, hcut _ ?_ ?_, ?_⟩
  · exact (List.prefix_append_right_inj _).mpr (List.take_prefix 7 tag)
  · intro hsame
    exact absurd (List.append_cancel_left hsame) (by decide +kernel)
  · rw [show encode h (tag ++ tag) = encode h tag ++ tag from (List.append_assoc _ _ _).symm]
    exact hlonger tag (by decide +kernel)

end Marginalia.Cache
