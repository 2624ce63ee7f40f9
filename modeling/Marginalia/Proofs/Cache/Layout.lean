import Mathlib.Data.List.Infix
import Marginalia.Cache.Entry

/-!
# The layout of cache files

A file is taken for an entry exactly if it has the parts that the writer puts together: the tag, the
length of a header, the header, and as many bytes as the header says. Both lengths are fixed by what
stands before the bytes that they count, so no such file is the beginning of another one: whatever
is cut short or goes on is refused. The lengths are compared with what is there before they are
used, so nothing outside of the file is ever looked at.
-/

namespace Marginalia.Cache

/-! ## Reading what was written -/

/-- A header is read back as it was written. -/
structure Header.ReadsBack (h : Header) : Prop where
  fits : h.encode.length < 0x100000000
  decodes : Header.decode? h.encode = some h

theorem dropPrefix?_append (pattern bytes : Bytes) :
    Bytes.dropPrefix? pattern (pattern ++ bytes) = some bytes := by
  induction pattern with
  | nil => rfl
  | cons b pattern ih => simpa [Bytes.dropPrefix?] using ih

theorem eq_append_of_dropPrefix? {pattern bytes rest : Bytes}
    (h : Bytes.dropPrefix? pattern bytes = some rest) : bytes = pattern ++ rest := by
  induction pattern generalizing bytes with
  | nil => exact Option.some.inj h
  | cons p pattern ih =>
    cases bytes with
    | nil => cases h
    | cons b bytes =>
      rw [Bytes.dropPrefix?] at h
      split at h
      · next hsame => rw [hsame, ih h, List.cons_append]
      · cases h

@[simp]
theorem length_littleEndian (n : Nat) : (littleEndian n).length = 4 := rfl

theorem ofLittleEndian?_append {n : Nat} (h : n < 0x100000000) (rest : Bytes) :
    ofLittleEndian? (littleEndian n ++ rest) = some (n, rest) := by
  have hdigits : n % 256 + n / 256 % 256 * 256 + n / 65536 % 256 * 65536 +
      n / 16777216 % 256 * 16777216 = n := by omega
  simp [littleEndian, ofLittleEndian?, hdigits]

/-- Any four bytes are a number. -/
theorem eq_append_of_ofLittleEndian? {bytes rest : Bytes} {n : Nat}
    (h : ofLittleEndian? bytes = some (n, rest)) :
    n < 0x100000000 ∧ bytes = littleEndian n ++ rest := by
  match bytes with
  | a :: b :: c :: d :: rest' =>
    obtain ⟨rfl, rfl⟩ := Prod.mk.inj (Option.some.inj h)
    have ha := a.toNat_lt
    have hb := b.toNat_lt
    have hc := c.toNat_lt
    have hd := d.toNat_lt
    refine ⟨by omega, ?_⟩
    have hdigit (n : Nat) (byte : UInt8) (hn : n % 256 = byte.toNat) : UInt8.ofNat n = byte :=
      UInt8.toNat_inj.mp (by rw [UInt8.toNat_ofNat', ← hn])
    simp only [littleEndian, List.cons_append, List.nil_append]
    rw [hdigit _ a (by omega), hdigit _ b (by omega), hdigit _ c (by omega), hdigit _ d (by omega)]

theorem littleEndian_injective {m n : Nat} (hm : m < 0x100000000) (hn : n < 0x100000000)
    (h : littleEndian m = littleEndian n) : m = n := by
  have hread := ofLittleEndian?_append hm []
  rw [h, ofLittleEndian?_append hn] at hread
  exact (Prod.mk.inj (Option.some.inj hread)).1.symm

/-! ## Files that are accepted -/

/-- The parts of a cache file, with what the header is read as. -/
structure IsLaidOut (bytes header : Bytes) (h : Header) (payload : Bytes) : Prop where
  parts : bytes = tag ++ (littleEndian header.length ++ (header ++ payload))
  fits : header.length < 0x100000000
  decodes : Header.decode? header = some h
  length_eq : payload.length = h.payloadLength

variable {bytes header : Bytes} {h : Header} {payload : Bytes}

theorem decode?_of_isLaidOut (hfile : IsLaidOut bytes header h payload) :
    decode? bytes = some ⟨h.id, payload, h.capturedAt, h.modifiedAt⟩ := by
  have hlong : ¬(header ++ payload).length < header.length := by
    rw [List.length_append]
    omega
  unfold decode?
  rw [hfile.parts, dropPrefix?_append]
  simp only [Option.bind_eq_bind]
  rw [Option.bind_some, ofLittleEndian?_append hfile.fits, Option.bind_some]
  simp only [if_neg hlong, List.take_left, List.drop_left, hfile.decodes, Option.bind_some,
    if_pos hfile.length_eq]
  rfl

theorem exists_isLaidOut {e : Entry} (hread : decode? bytes = some e) :
    ∃ header h, IsLaidOut bytes header h e.payload ∧
      e = ⟨h.id, e.payload, h.capturedAt, h.modifiedAt⟩ := by
  unfold decode? at hread
  simp only [Option.bind_eq_bind, Option.bind_eq_some_iff] at hread
  obtain ⟨rest, hrest, ⟨length, body⟩, hlength, hread⟩ := hread
  obtain ⟨hfits, hbody⟩ := eq_append_of_ofLittleEndian? hlength
  dsimp only at hread
  split at hread
  · cases hread
  · next hlong =>
    simp only [Option.pure_def, Option.bind_eq_some_iff] at hread
    obtain ⟨h, hdecodes, hread⟩ := hread
    split at hread
    · next hpayload =>
      obtain rfl := Option.some.inj hread
      have htake : (body.take length).length = length := by
        rw [List.length_take]
        omega
      refine ⟨body.take length, h, ⟨?_, htake.symm ▸ hfits, hdecodes, hpayload⟩, rfl⟩
      rw [htake, List.take_append_drop, ← hbody]
      exact eq_append_of_dropPrefix? hrest
    · cases hread

/-- A file is read as an entry if and only if it is laid out like one. -/
theorem decode?_eq_some_iff {e : Entry} :
    decode? bytes = some e ↔ ∃ header h, IsLaidOut bytes header h e.payload ∧
      e = ⟨h.id, e.payload, h.capturedAt, h.modifiedAt⟩ := by
  refine ⟨exists_isLaidOut, ?_⟩
  rintro ⟨header, h, hfile, he⟩
  rw [decode?_of_isLaidOut hfile]
  exact congrArg some he.symm

/-- What the writer puts together is laid out like an entry. -/
theorem isLaidOut_encode {h read : Header} (hfits : h.encode.length < 0x100000000)
    (hdecodes : Header.decode? h.encode = some read) {payload : Bytes}
    (hlength : payload.length = read.payloadLength) :
    IsLaidOut (encode h payload) h.encode read payload := by
  refine ⟨?_, hfits, hdecodes, hlength⟩
  simp only [encode, List.append_assoc]

/-- The file of an entry is read as what its header is read as. -/
theorem decode?_encode_of_header {h read : Header} (hfits : h.encode.length < 0x100000000)
    (hdecodes : Header.decode? h.encode = some read) {payload : Bytes}
    (hlength : payload.length = read.payloadLength) :
    decode? (encode h payload) =
      some ⟨read.id, payload, read.capturedAt, read.modifiedAt⟩ :=
  decode?_of_isLaidOut (isLaidOut_encode hfits hdecodes hlength)

/-- The file of an entry is read back as that entry. -/
theorem decode?_encode {h : Header} (hreads : h.ReadsBack) {payload : Bytes}
    (hlength : payload.length = h.payloadLength) :
    decode? (encode h payload) = some ⟨h.id, payload, h.capturedAt, h.modifiedAt⟩ :=
  decode?_encode_of_header hreads.fits hreads.decodes hlength

/-! ## Files that are cut short or go on -/

theorem prefix_of_append_prefix {a b c d : Bytes} (hlength : a.length = b.length)
    (h : a ++ c <+: b ++ d) : a = b ∧ c <+: d := by
  obtain ⟨more, hmore⟩ := h
  rw [List.append_assoc] at hmore
  obtain ⟨hsame, hrest⟩ := List.append_inj hmore hlength
  exact ⟨hsame, more, hrest⟩

/-- Of two files that are laid out like entries, none is the beginning of the other. -/
theorem IsLaidOut.eq_of_prefix {other header' : Bytes} {h' : Header} {payload' : Bytes}
    (hfile : IsLaidOut bytes header h payload) (hother : IsLaidOut other header' h' payload')
    (hlead : bytes <+: other) : bytes = other := by
  rw [hfile.parts, hother.parts] at hlead
  -- Each part has the length that is given before it, so the parts are the same one after another.
  obtain ⟨-, hafterTag⟩ := prefix_of_append_prefix rfl hlead
  obtain ⟨hlengths, hafterLength⟩ :=
    prefix_of_append_prefix (by simp only [length_littleEndian]) hafterTag
  have hlength := littleEndian_injective hfile.fits hother.fits hlengths
  obtain ⟨hheaders, hpayloads⟩ := prefix_of_append_prefix hlength hafterLength
  subst hheaders
  obtain rfl : h = h' := Option.some.inj (hfile.decodes.symm.trans hother.decodes)
  obtain rfl : payload = payload' :=
    hpayloads.eq_of_length (hfile.length_eq.trans hother.length_eq.symm)
  exact hfile.parts.trans hother.parts.symm

/-- Two entries can be read from a file and its beginning only if these are the same file. -/
theorem eq_of_prefix_of_decode? {first second : Bytes} (hlead : first <+: second)
    (hfirst : (decode? first).isSome) (hsecond : (decode? second).isSome) : first = second := by
  obtain ⟨e, he⟩ := Option.isSome_iff_exists.mp hfirst
  obtain ⟨e', he'⟩ := Option.isSome_iff_exists.mp hsecond
  obtain ⟨_, _, hfile, -⟩ := exists_isLaidOut he
  obtain ⟨_, _, hother, -⟩ := exists_isLaidOut he'
  exact hfile.eq_of_prefix hother hlead

/-! ## Looking at bytes -/

/-- The first `n` bytes and those after them, if there are so many. -/
def splitAt? (n : Nat) (bytes : Bytes) : Option (Bytes × Bytes) :=
  if n ≤ bytes.length then some (bytes.take n, bytes.drop n) else none

/-- The number in the first four bytes, if there are so many. -/
def number? (bytes : Bytes) : Option Nat := do
  return (← bytes[0]?).toNat + (← bytes[1]?).toNat * 0x100 + (← bytes[2]?).toNat * 0x10000 +
    (← bytes[3]?).toNat * 0x1000000

/-- The reader of files with each look at the bytes spelled out. A look at bytes that are not there
leaves no outcome; a file that is refused has the outcome `none`. -/
def decodeLooking (bytes : Bytes) : Option (Option Entry) :=
  match Bytes.dropPrefix? tag bytes with
  | none => some none
  | some rest =>
    if rest.length < 4 then some none
    else do
      let (field, rest) ← splitAt? 4 rest
      let length ← number? field
      if rest.length < length then some none
      else do
        let (header, payload) ← splitAt? length rest
        match Header.decode? header with
        | none => some none
        | some h =>
          if payload.length = h.payloadLength then
            some (some ⟨h.id, payload, h.capturedAt, h.modifiedAt⟩)
          else some none

theorem splitAt?_of_not_lt {n : Nat} {bytes : Bytes} (h : ¬bytes.length < n) :
    splitAt? n bytes = some (bytes.take n, bytes.drop n) :=
  if_pos (Nat.le_of_not_lt h)

theorem ofLittleEndian?_of_length_lt {bytes : Bytes} (h : bytes.length < 4) :
    ofLittleEndian? bytes = none := by
  match bytes with
  | [] | [_] | [_, _] | [_, _, _] => rfl
  | _ :: _ :: _ :: _ :: _ =>
    simp only [List.length_cons] at h
    omega

/-- Where there are four bytes, they can be looked at one by one. -/
theorem exists_number?_take {bytes : Bytes} (h : ¬bytes.length < 4) :
    ∃ n, number? (bytes.take 4) = some n ∧ ofLittleEndian? bytes = some (n, bytes.drop 4) := by
  match bytes with
  | [] | [_] | [_, _] | [_, _, _] => exact absurd (by simp) h
  | a :: b :: c :: d :: rest => exact ⟨_, rfl, rfl⟩

/-- No file makes the reader look at bytes that are not there. -/
theorem decodeLooking_eq (bytes : Bytes) : decodeLooking bytes = some (decode? bytes) := by
  unfold decodeLooking decode?
  simp only [Option.bind_eq_bind]
  cases Bytes.dropPrefix? tag bytes with
  | none => rfl
  | some rest =>
    by_cases hshort : rest.length < 4
    · simp only [if_pos hshort, Option.bind_some, ofLittleEndian?_of_length_lt hshort,
        Option.bind_none]
    · obtain ⟨length, hnumber, hread⟩ := exists_number?_take hshort
      simp only [if_neg hshort, Option.bind_some, splitAt?_of_not_lt hshort, hnumber, hread]
      split
      · rfl
      · next hlong =>
        simp only [splitAt?_of_not_lt hlong, Option.bind_some]
        cases Header.decode? ((rest.drop 4).take length) with
        | none => rfl
        | some h =>
          simp only [Option.bind_some]
          split <;> rfl

end Marginalia.Cache
