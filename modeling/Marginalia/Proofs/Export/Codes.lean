import Mathlib.Data.List.Perm.Subperm
import Marginalia.Export.Operator
import Marginalia.Font.Payload

/-!
# Codes of characters

A payload has a code of 16 bits for every character in use that its font can draw. Whether the
glyphs are numbered afresh or keep the numbers of the font, two characters get the same code exactly
where the font draws them with the same glyph. Codes are written with four hexadecimal digits each
and read back from them.
-/

namespace Marginalia

namespace Font

/-! ## Glyphs of characters -/

theorem toNat_signed_lt (n : Nat) : (signed n).toNat < 0x10000 := by
  have hlt : signed n < 0x8000 := Int.bmod_lt (by decide)
  omega

namespace Coverage

theorem lt_of_segmentGlyph? {bytes : Bytes} {s : Segment} {code glyph : Nat}
    (h : segmentGlyph? bytes s code = some glyph) : glyph < 0x10000 := by
  unfold segmentGlyph? at h
  split at h
  · obtain rfl := Option.some.inj h
    exact Nat.mod_lt _ (by decide)
  · cases h
  · obtain ⟨-, -, h⟩ := Option.bind_eq_some_iff.mp h
    obtain ⟨value, -, h⟩ := Option.bind_eq_some_iff.mp h
    obtain ⟨-, -, h⟩ := Option.bind_eq_some_iff.mp h
    obtain ⟨-, -, h⟩ := Option.bind_eq_some_iff.mp h
    obtain rfl := Option.some.inj h
    exact toNat_signed_lt _

theorem lt_of_highByteGlyph? {bytes : Bytes} {keys : List Nat} {blocks : List LowBytes}
    {code glyph : Nat} (h : highByteGlyph? bytes keys blocks code = some glyph) :
    glyph < 0x10000 := by
  obtain ⟨-, -, h⟩ := Option.bind_eq_some_iff.mp h
  obtain ⟨index, -, h⟩ := Option.bind_eq_some_iff.mp h
  obtain ⟨block, -, h⟩ := Option.bind_eq_some_iff.mp h
  obtain ⟨-, -, h⟩ := Option.bind_eq_some_iff.mp h
  obtain ⟨value, -, h⟩ := Option.bind_eq_some_iff.mp h
  obtain ⟨-, -, h⟩ := Option.bind_eq_some_iff.mp h
  obtain rfl := Option.some.inj h
  exact Nat.mod_lt _ (by decide)

/-- Glyphs have 16-bit numbers in every form of map. -/
theorem lt_of_glyph? {c : Coverage} {code glyph : Nat} (h : c.glyph? code = some glyph) :
    glyph < 0x10000 := by
  cases c with
  | listed first glyphs =>
    simp only [glyph?] at h
    split at h
    · obtain ⟨value, -, rfl⟩ := Option.map_eq_some_iff.mp h
      exact value.toNat_lt
    · cases h
  | highBytes bytes keys blocks => exact lt_of_highByteGlyph? h
  | segments bytes parts =>
    obtain ⟨s, -, hs⟩ := Option.bind_eq_some_iff.mp h
    split at hs
    · exact lt_of_segmentGlyph? hs
    · cases hs
  | runs parts =>
    obtain ⟨run, -, hrun⟩ := Option.bind_eq_some_iff.mp h
    dsimp only at hrun
    split at hrun
    · next hlt =>
      obtain rfl := Option.some.inj hrun
      exact hlt
    · cases hrun
  | shared parts =>
    obtain ⟨run, -, hrun⟩ := Option.bind_eq_some_iff.mp h
    split at hrun
    · next hlt =>
      obtain rfl := Option.some.inj hrun
      exact hlt
    · cases hrun
  | sequences => cases h

end Coverage

theorem Face.lt_of_glyph? {f : Face} {c : Char} {glyph : Nat} (h : f.glyph? c = some glyph) :
    glyph < 0x10000 := by
  obtain ⟨m, -, hm⟩ := Option.bind_eq_some_iff.mp h
  obtain ⟨encoded, -, hglyph⟩ := List.exists_of_findSome?_eq_some hm
  exact Coverage.lt_of_glyph? hglyph

theorem mem_mapped {f : Face} {characters : List Char} {c : Char} {glyph : Nat} :
    (c, glyph) ∈ mapped f characters ↔ c ∈ characters ∧ f.glyph? c = some glyph := by
  simp [mapped]

/-- The glyphs that a face has for some characters, in the order of the characters. -/
def Face.glyphs (f : Face) (characters : List Char) : List Nat :=
  characters.filterMap f.glyph?

theorem Face.mem_glyphs {f : Face} {characters : List Char} {glyph : Nat} :
    glyph ∈ f.glyphs characters ↔ ∃ c ∈ characters, f.glyph? c = some glyph :=
  List.mem_filterMap

theorem map_snd_mapped (f : Face) (characters : List Char) :
    (mapped f characters).map Prod.snd = f.glyphs characters := by
  simp [mapped, Face.glyphs, List.map_filterMap, Function.comp_def]

/-! ## Glyphs numbered afresh -/

/-- The numbering of a subset that keeps the glyphs of some characters. -/
def Face.numbering (f : Face) (characters : List Char) : GlyphNumbering :=
  .ofGlyphs (f.glyphs characters)

namespace GlyphNumbering

theorem mem_add {n : GlyphNumbering} {glyph g : Nat} :
    g ∈ (n.add glyph).glyphs ↔ g ∈ n.glyphs ∨ g = glyph := by
  unfold add
  split
  · next hmem => exact ⟨.inl, fun h ↦ h.elim id fun hg ↦ hg ▸ hmem⟩
  · simp

theorem nodup_add {n : GlyphNumbering} (h : n.glyphs.Nodup) (glyph : Nat) :
    (n.add glyph).glyphs.Nodup := by
  unfold add
  split
  · exact h
  · next hmem => exact List.nodup_append.mpr ⟨h, by simp, by
      rintro a ha b hb rfl
      exact hmem (List.mem_singleton.mp hb ▸ ha)⟩

theorem mem_ofGlyphs {glyphs : List Nat} {g : Nat} :
    g ∈ (ofGlyphs glyphs).glyphs ↔ g = 0 ∨ g ∈ glyphs := by
  have general : ∀ n : GlyphNumbering,
      g ∈ (glyphs.foldl add n).glyphs ↔ g ∈ n.glyphs ∨ g ∈ glyphs := by
    induction glyphs with
    | nil => simp
    | cons glyph rest ih =>
      intro n
      rw [List.foldl_cons, ih, mem_add, List.mem_cons, or_assoc]
  exact (general initial).trans (or_congr_left List.mem_singleton)

theorem nodup_ofGlyphs (glyphs : List Nat) : (ofGlyphs glyphs).glyphs.Nodup := by
  have general : ∀ n : GlyphNumbering, n.glyphs.Nodup → (glyphs.foldl add n).glyphs.Nodup := by
    induction glyphs with
    | nil => exact fun _ h ↦ h
    | cons glyph rest ih => exact fun n h ↦ ih _ (nodup_add h glyph)
  exact general initial (by simp [initial])

theorem number?_eq_some {n : GlyphNumbering} {glyph : Nat} (h : glyph ∈ n.glyphs) :
    n.number? glyph = some (n.glyphs.idxOf glyph) := by
  obtain ⟨number, hnumber⟩ := Option.isSome_iff_exists.mp (List.isSome_idxOf?.mpr h)
  rw [number?, List.idxOf_eq_getD_idxOf?, hnumber, Option.getD_some]

/-- There are no more numbers than 16-bit glyphs. -/
theorem idxOf_lt {glyphs : List Nat} (h : ∀ g ∈ glyphs, g < 0x10000) {glyph : Nat}
    (hglyph : glyph ∈ (ofGlyphs glyphs).glyphs) :
    (ofGlyphs glyphs).glyphs.idxOf glyph < 0x10000 := by
  have hsubset : (ofGlyphs glyphs).glyphs ⊆ List.range 0x10000 := by
    intro g hg
    rw [List.mem_range]
    rcases mem_ofGlyphs.mp hg with rfl | hmem
    · decide
    · exact h g hmem
  calc (ofGlyphs glyphs).glyphs.idxOf glyph
    _ < (ofGlyphs glyphs).glyphs.length := List.idxOf_lt_length_of_mem hglyph
    _ ≤ (List.range 0x10000).length :=
      (List.subperm_of_subset (nodup_ofGlyphs glyphs) hsubset).length_le
    _ = 0x10000 := List.length_range

end GlyphNumbering

/-! ## Codes of a payload -/

namespace Payload

/-- The codes of a payload are those of the characters that a face has a glyph for, one for each
glyph. -/
structure IsCodedBy (p : Payload) (f : Face) (characters : List Char) : Prop where
  isSome_iff : ∀ c, (p.code? c).isSome ↔ c ∈ characters ∧ (f.glyph? c).isSome
  mem_codes_iff : ∀ {c code}, (c, code) ∈ p.codes ↔ p.code? c = some code
  eq_iff : ∀ {c d code other}, p.code? c = some code → p.code? d = some other →
    (code = other ↔ f.glyph? c = f.glyph? d)
  lt : ∀ {c code}, p.code? c = some code → code < 0x10000

/-- The code by which a payload calls for a glyph: its number in the subset or in the whole font. -/
def codeOf (kind : PayloadKind) (numbering : GlyphNumbering) (glyph : Nat) : Nat :=
  match kind with
  | .subset => numbering.glyphs.idxOf glyph
  | .full => glyph

/-- A payload holds the subset of a font with the glyphs of the characters, or the whole font where
there is no subset; codes and widths are those of the glyphs. -/
structure IsMadeOf (p : Payload) (asset : Asset) (f : Face) (characters : List Char) : Prop where
  face : Face.ofBytes? asset.bytes = some f
  subset : ∀ bytes, Subset.build? asset.bytes (f.numbering characters) = some bytes →
    p.kind = .subset ∧ p.bytes = bytes
  full : Subset.build? asset.bytes (f.numbering characters) = none →
    p.kind = .full ∧ p.bytes = asset.bytes
  codes : p.codes = (mapped f characters).map fun (c, glyph) ↦
    (c, codeOf p.kind (f.numbering characters) glyph)
  widths : p.widths = widthTable
    (fun glyph ↦ asset.metrics.toThousandths ((f.advance? glyph).getD 0)) (mapped f characters)
    p.codes

theorem isMadeOf_of_build? {asset : Asset} {characters : List Char} {p : Payload}
    (h : build? asset characters = some p) : ∃ f, p.IsMadeOf asset f characters := by
  obtain ⟨f, hf, hp⟩ := Option.bind_eq_some_iff.mp h
  refine ⟨f, ?_⟩
  have hnumbering : .ofGlyphs ((mapped f characters).map Prod.snd) = f.numbering characters :=
    congrArg GlyphNumbering.ofGlyphs (map_snd_mapped f characters)
  cases hsubset : Subset.build? asset.bytes (f.numbering characters) with
  | none =>
    simp only [hnumbering, hsubset] at hp
    obtain rfl := Option.some.inj hp
    exact ⟨hf, fun bytes hbytes ↦ (nomatch hsubset.symm.trans hbytes), fun _ ↦ ⟨rfl, rfl⟩,
      (List.map_id _).symm, rfl⟩
  | some bytes =>
    simp only [hnumbering, hsubset] at hp
    obtain rfl := Option.some.inj hp
    refine ⟨hf, fun bytes' hbytes ↦ ⟨rfl, Option.some.inj (hsubset.symm.trans hbytes)⟩,
      fun hnone ↦ (nomatch hsubset.symm.trans hnone), ?_, rfl⟩
    -- Every glyph in use has a number, so none of the characters is left out.
    rw [← List.filterMap_eq_map]
    refine List.filterMap_congr fun entry hentry ↦ ?_
    have hkept : entry.2 ∈ (f.numbering characters).glyphs := by
      rw [← hnumbering, GlyphNumbering.mem_ofGlyphs]
      exact .inr (List.mem_map_of_mem hentry)
    rw [GlyphNumbering.number?_eq_some hkept]
    rfl

namespace IsMadeOf

variable {p : Payload} {asset : Asset} {f : Face} {characters : List Char}

theorem mem_numbering {glyph : Nat} :
    glyph ∈ (f.numbering characters).glyphs ↔ glyph = 0 ∨ glyph ∈ f.glyphs characters :=
  GlyphNumbering.mem_ofGlyphs

/-- Glyphs in use have codes of their own. -/
theorem codeOf_inj (kind : PayloadKind) {a b : Nat}
    (ha : a ∈ (f.numbering characters).glyphs) :
    codeOf kind (f.numbering characters) a = codeOf kind (f.numbering characters) b ↔ a = b := by
  cases kind with
  | subset => exact List.idxOf_inj ha
  | full => exact Iff.rfl

theorem codeOf_lt (kind : PayloadKind) {glyph : Nat} (h : glyph ∈ f.glyphs characters) :
    codeOf kind (f.numbering characters) glyph < 0x10000 := by
  have hlt : ∀ g ∈ f.glyphs characters, g < 0x10000 := by
    intro g hg
    obtain ⟨c, -, hglyph⟩ := Face.mem_glyphs.mp hg
    exact Face.lt_of_glyph? hglyph
  cases kind with
  | subset => exact GlyphNumbering.idxOf_lt hlt (GlyphNumbering.mem_ofGlyphs.mpr (.inr h))
  | full => exact hlt glyph h

theorem mem_codes (h : p.IsMadeOf asset f characters) {c : Char} {code : Nat} :
    (c, code) ∈ p.codes ↔ c ∈ characters ∧
      ∃ glyph, f.glyph? c = some glyph ∧ codeOf p.kind (f.numbering characters) glyph = code := by
  rw [h.codes]
  simp [mem_mapped, and_assoc]

theorem mem_codes_iff (h : p.IsMadeOf asset f characters) {c : Char} {code : Nat} :
    (c, code) ∈ p.codes ↔ p.code? c = some code := by
  have hlookup : ∀ {other}, p.code? c = some other → (c, other) ∈ p.codes := by
    intro other hother
    obtain ⟨before, after, heq, -⟩ := List.lookup_eq_some_iff.mp hother
    simp [heq]
  refine ⟨fun hcode ↦ ?_, hlookup⟩
  have hlisted : (p.code? c).isSome :=
    List.lookup_isSome_iff.mpr ⟨(c, code), hcode, beq_self_eq_true c⟩
  obtain ⟨other, hother⟩ := Option.isSome_iff_exists.mp hlisted
  obtain ⟨-, glyph, hglyph, rfl⟩ := h.mem_codes.mp hcode
  obtain ⟨-, glyph', hglyph', rfl⟩ := h.mem_codes.mp (hlookup hother)
  rw [hother, Option.some.inj (hglyph.symm.trans hglyph')]

/-- A character has a code if it is in use and has a glyph; the code is that of the glyph. -/
theorem code?_eq_some (h : p.IsMadeOf asset f characters) {c : Char} {code : Nat} :
    p.code? c = some code ↔ c ∈ characters ∧
      ∃ glyph, f.glyph? c = some glyph ∧ codeOf p.kind (f.numbering characters) glyph = code :=
  h.mem_codes_iff.symm.trans h.mem_codes

end IsMadeOf

theorem IsMadeOf.isCodedBy {p : Payload} {asset : Asset} {f : Face} {characters : List Char}
    (h : p.IsMadeOf asset f characters) : p.IsCodedBy f characters where
  isSome_iff := by
    intro c
    rw [Option.isSome_iff_exists, Option.isSome_iff_exists]
    constructor
    · rintro ⟨code, hcode⟩
      obtain ⟨hc, glyph, hglyph, -⟩ := h.code?_eq_some.mp hcode
      exact ⟨hc, glyph, hglyph⟩
    · rintro ⟨hc, glyph, hglyph⟩
      exact ⟨_, h.code?_eq_some.mpr ⟨hc, glyph, hglyph, rfl⟩⟩
  mem_codes_iff := h.mem_codes_iff
  eq_iff := by
    intro c d code other hcode hother
    obtain ⟨hc, a, ha, rfl⟩ := h.code?_eq_some.mp hcode
    obtain ⟨hd, b, hb, rfl⟩ := h.code?_eq_some.mp hother
    have hkept : a ∈ (f.numbering characters).glyphs :=
      IsMadeOf.mem_numbering.mpr (.inr (Face.mem_glyphs.mpr ⟨c, hc, ha⟩))
    rw [IsMadeOf.codeOf_inj _ hkept, ha, hb, Option.some.injEq]
  lt := by
    intro c code hcode
    obtain ⟨hc, glyph, hglyph, rfl⟩ := h.code?_eq_some.mp hcode
    exact IsMadeOf.codeOf_lt _ (Face.mem_glyphs.mpr ⟨c, hc, hglyph⟩)

theorem isCodedBy_of_build? {asset : Asset} {characters : List Char} {p : Payload}
    (h : build? asset characters = some p) :
    ∃ f, Face.ofBytes? asset.bytes = some f ∧ p.IsCodedBy f characters := by
  obtain ⟨f, hmade⟩ := isMadeOf_of_build? h
  exact ⟨f, hmade.face, hmade.isCodedBy⟩

end Payload

end Font

namespace Export

open Font (Payload)

/-! ## Codes in digits -/

theorem length_codeDigits (code : Nat) : (Operator.codeDigits code).length = 4 := by
  simp [Operator.codeDigits]

theorem length_codesText (codes : List Nat) :
    (Operator.codesText codes).length = 4 * codes.length := by
  simp [Operator.codesText, List.length_flatMap, length_codeDigits, Nat.mul_comm]

theorem codes?_codeDigits_append {code : Nat} (h : code < 0x10000) (rest : List Char) :
    Operator.codes? (Operator.codeDigits code ++ rest) =
      (Operator.codes? rest).map (code :: ·) := by
  have hdigit (n : Nat) : Decimal.hexValue? (Decimal.hexChar (n % 16)).toUpper = some (n % 16) :=
    (Decimal.hexValue?_hexChar (Nat.mod_lt n (by decide))).2
  have hcode : ((code / 16 / 16 / 16 % 16 * 16 + code / 16 / 16 % 16) * 16 + code / 16 % 16) * 16 +
      code % 16 = code := by
    omega
  simp only [Operator.codeDigits, Decimal.hexDigits, List.nil_append, List.cons_append, List.map,
    Operator.codes?, hdigit, Option.bind_eq_bind, Option.bind_some, hcode]
  cases Operator.codes? rest <;> rfl

/-- The text of 16-bit codes reads back. -/
theorem codes?_codesText {codes : List Nat} (h : ∀ code ∈ codes, code < 0x10000) :
    Operator.codes? (Operator.codesText codes).toList = some codes := by
  rw [Operator.codesText, String.toList_ofList]
  induction codes with
  | nil => rfl
  | cons code codes ih =>
    obtain ⟨hfirst, hrest⟩ := List.forall_mem_cons.mp h
    rw [List.flatMap_cons, codes?_codeDigits_append hfirst, ih hrest]
    rfl

theorem length_encode (p : Payload) (text : String) : (p.encode text).length = text.length := by
  simp [Font.Payload.encode, String.length_toList]

theorem lt_of_mem_encode {p : Payload} (h : ∀ entry ∈ p.codes, entry.2 < 0x10000) {text : String} :
    ∀ code ∈ p.encode text, code < 0x10000 := by
  intro code hcode
  obtain ⟨c, -, rfl⟩ := List.mem_map.mp hcode
  cases hfound : p.code? c with
  | none => decide
  | some code =>
    obtain ⟨before, after, hcodes, -⟩ := List.lookup_eq_some_iff.mp hfound
    exact h (c, code) (by simp [hcodes])

end Export

end Marginalia
