import Marginalia.Proofs.Export.Refusals
import Marginalia.Proofs.Font.Builder

/-!
# The fonts of an export

An export takes a font along for every family that a label shows a text in, with the characters of
these labels and no others; it fails for want of a font exactly if a font for such a family is not
at hand. So a character that the font has a glyph for is shown by this glyph.
-/

namespace Marginalia

namespace Font

/-! ## Payloads for labels -/

namespace Payload

/-- A payload is built from exactly the characters that the labels of a family use. Wherever its
font has a glyph for a character of a label, the code of this glyph stands for the character, and it
is not the one for missing characters. -/
structure Covers (p : Payload) (asset : Asset) (annotations : AnnotationSet) (family : FontFamily)
    (characters : List Char) : Prop where
  ascending : Ascending.IsAscending Char.toNat characters
  mem_iff : ∀ c, c ∈ characters ↔ annotations.Uses family c
  built : build? asset characters = some p
  shown : ∀ {f}, Face.ofBytes? asset.bytes = some f →
    ∀ l ∈ annotations.labels, l.style.family = family →
      ∀ {i : Nat} {c glyph}, l.text.toList[i]? = some c → f.glyph? c = some glyph → glyph ≠ 0 →
        (p.encode l.text)[i]? = some (codeOf p.kind (f.numbering characters) glyph) ∧
          codeOf p.kind (f.numbering characters) glyph ≠ 0

theorem covers_of_build? {asset : Asset} {annotations : AnnotationSet} {family : FontFamily}
    {characters : List Char} {p : Payload}
    (hcharacters : (usage annotations).get? family = some characters)
    (hbuilt : build? asset characters = some p) :
    p.Covers asset annotations family characters := by
  obtain ⟨-, hascending, huses⟩ := get?_usage.mp hcharacters
  obtain ⟨f, hmade⟩ := isMadeOf_of_build? hbuilt
  refine ⟨hascending, huses, hbuilt, ?_⟩
  intro f' hf' l hl hfamily i c glyph hi hglyph hreal
  obtain rfl := Option.some.inj (hmade.face.symm.trans hf')
  have hused : c ∈ characters := (huses c).mpr ⟨l, hl, hfamily, List.mem_of_getElem? hi⟩
  have hcode := hmade.code?_eq_some.mpr ⟨hused, glyph, hglyph, rfl⟩
  refine ⟨?_, mt (IsMadeOf.codeOf_eq_zero p.kind).mp hreal⟩
  rw [encode, List.getElem?_map, hi, Option.map_some, hcode, Option.getD_some]

end Payload

/-! ## Payloads of all families -/

namespace SubsetBuilder

variable {fonts : Asset → Prop} {b : SubsetBuilder} {own : Asset} {characters : List Char}
  {library : Library} {requests : List Request}

/-- A font of a library, or one that a builder was asked for. -/
def IsKnown (library : Library) (requests : List Request) (asset : Asset) : Prop :=
  (∃ family, library.get? family = some asset) ∨
    ∃ request ∈ requests, ∃ part ∈ request.parts, part.1 = asset

theorem isAmong_isKnown : ∀ request ∈ requests, request.IsAmong (IsKnown library requests) :=
  fun request hrequest part hpart ↦ .inr ⟨request, hrequest, part, hpart, rfl⟩

theorem isAmong_isKnown_buildAll (usage : FamilyTable (List Char)) :
    (Request.buildAll library usage).IsAmong (IsKnown library requests) :=
  fun _ hpart ↦ .inl (exists_get?_of_mem_parts hpart)

/-- For characters of a font that was loaded there is a payload. -/
theorem isSome_build (hown : own.IsLoaded) (hcharacters : characters ≠ []) :
    (b.build own characters).1.isSome := by
  obtain ⟨payload, hpayload⟩ := Payload.exists_build? hown characters
  rw [build_fst, if_neg hcharacters, hpayload, Option.isSome_or]
  exact Bool.or_true _

/-- The payload of each family is built by a builder with the same knowledge. -/
theorem Remembers.get?_buildAll (h : b.Remembers fonts) {usage : FamilyTable (List Char)}
    (hamong : (Request.buildAll library usage).IsAmong fonts) (family : FontFamily) :
    ∃ b' : SubsetBuilder, b'.Remembers fonts ∧
      (b.buildAll library usage).1.get? family = (b'.buildFamily library usage family).1 := by
  cases family with
  | serif => exact ⟨b, h, rfl⟩
  | sans => exact ⟨_, h.buildFamily hamong .serif, rfl⟩

theorem buildFamily_eq_some {usage : FamilyTable (List Char)} {family : FontFamily}
    {payload : Payload} (h : (b.buildFamily library usage family).1 = some payload) :
    ∃ own characters, library.get? family = some own ∧ usage.get? family = some characters ∧
      (b.build own characters).1 = some payload := by
  unfold SubsetBuilder.buildFamily at h
  split at h
  · next characters own hcharacters hown => exact ⟨own, characters, hown, hcharacters, h⟩
  · cases h

section

variable {annotations : AnnotationSet} {family : FontFamily} (h : b.Remembers fonts)
  (hamong : (Request.buildAll library (usage annotations)).IsAmong fonts)
include h hamong

/-- There is a payload for every family that is used and has a font. -/
theorem isSome_get?_buildAll (hloaded : ∀ asset, fonts asset → asset.IsLoaded) :
    ((b.buildAll library (usage annotations)).1.get? family).isSome ↔
      (library.get? family).isSome ∧ ((usage annotations).get? family).isSome := by
  obtain ⟨b', -, hget⟩ := h.get?_buildAll hamong family
  rw [hget]
  cases hcharacters : (usage annotations).get? family with
  | none => simp [SubsetBuilder.buildFamily, hcharacters]
  | some characters =>
    cases hown : library.get? family with
    | none => simp [SubsetBuilder.buildFamily, hown]
    | some own =>
      have hsome := isSome_build (b := b')
        (hloaded own (hamong _ (mem_parts_buildAll hown hcharacters)))
        (get?_usage.mp hcharacters).1
      simpa [SubsetBuilder.buildFamily, hown, hcharacters] using hsome

/-- A payload for a family covers its labels, with its font or with another one that has the same
fingerprint. -/
theorem exists_covers {payload : Payload}
    (hget : (b.buildAll library (usage annotations)).1.get? family = some payload) :
    ∃ own asset characters, library.get? family = some own ∧ fonts own ∧ fonts asset ∧
      payloadKey asset characters = payloadKey own characters ∧
      payload.Covers asset annotations family characters := by
  obtain ⟨b', h', hfamily⟩ := h.get?_buildAll hamong family
  obtain ⟨own, characters, hown, hcharacters, hbuild⟩ :=
    buildFamily_eq_some (hfamily.symm.trans hget)
  have hknown : fonts own := hamong _ (mem_parts_buildAll hown hcharacters)
  obtain ⟨asset, hasset, hkey, hbuilt⟩ := h'.exists_build? hknown hbuild
  exact ⟨own, asset, characters, hown, hknown, hasset, hkey,
    Payload.covers_of_build? hcharacters hbuilt⟩

end

end SubsetBuilder

end Font

namespace Export

open Font (Asset Library Payload SubsetBuilder)
open Font.SubsetBuilder (IsKnown Request)

theorem map_eq_error_iff {α β ε : Type} {f : α → β} {e : ε} {x : Except ε α} :
    x.map f = .error e ↔ x = .error e := by
  cases x <;> simp [Except.map]

theorem map_eq_ok_iff {α β ε : Type} {f : α → β} {b : β} {x : Except ε α} :
    x.map f = .ok b ↔ ∃ a, x = .ok a ∧ f a = b := by
  cases x <;> simp [Except.map]

section

variable {format : Pdf.FileFormat} {source : Bytes} {annotations : AnnotationSet}

theorem exportDocument_ne_missingFont {fonts : FamilyTable Payload}
    (h : HasAllFonts annotations fonts) (family : FontFamily) :
    exportDocument format source annotations fonts ≠ .error (.missingFont family) := by
  intro herror
  rw [exportDocument, missingFamily?_eq_none_iff.mpr h] at herror
  cases hread : format.read? source with
  | none =>
    rw [hread] at herror
    cases herror
  | some doc =>
    rw [hread] at herror
    have hpaint : paint doc annotations fonts = .error (.missingFont family) :=
      map_eq_error_iff.mp herror
    rw [paint] at hpaint
    cases htargets : targets doc annotations with
    | error e =>
      rw [htargets] at hpaint
      cases hpaint
      obtain ⟨page, -, hfault, -⟩ := targets_eq_error_iff.mp htargets
      cases hfault
    | ok ts =>
      rw [htargets] at hpaint
      cases eq_parse_of_paintPages hpaint

/-- An export fails for want of a font exactly if a label that shows a text has none. -/
theorem exportDocument_eq_missingFont_iff {fonts : FamilyTable Payload} :
    (∃ family, exportDocument format source annotations fonts = .error (.missingFont family)) ↔
      ¬HasAllFonts annotations fonts := by
  constructor
  · rintro ⟨family, herror⟩ hall
    exact exportDocument_ne_missingFont hall family herror
  · intro hnot
    rw [← missingFamily?_eq_none_iff] at hnot
    obtain ⟨family, hmissing⟩ := Option.ne_none_iff_exists'.mp hnot
    exact ⟨family, by rw [exportDocument, hmissing]⟩

end

/-- Let all fonts be loaded, those of the library and those that the builder was asked for before.
An export fails for want of a font exactly if a label that shows a text has a family without a font.
When it succeeds, the fonts it took along are for the families of the labels that show a text, and
each of them covers these labels. The font it was built from is the one of the library, as far as
the fingerprints tell the fonts of each family apart. -/
theorem export_takes_fonts_along {library : Library} {requests : List Request}
    (hloaded : ∀ asset, IsKnown library requests asset → asset.IsLoaded) (source : Bytes)
    (annotations : AnnotationSet) :
    let answer := (compose source annotations library (SubsetBuilder.empty.run requests)).1
    ((∃ family, answer = .error (.missingFont family)) ↔
      ∃ l ∈ annotations.labels, l.text ≠ "" ∧ library.get? l.style.family = none) ∧
    ∀ composed, answer = .ok composed →
      (∀ family, (composed.fonts.get? family).isSome ↔
        ∃ l ∈ annotations.labels, l.text ≠ "" ∧ l.style.family = family) ∧
      ∀ family payload, composed.fonts.get? family = some payload →
        ∃ own asset characters, library.get? family = some own ∧
          IsKnown library requests asset ∧ asset.family = own.family ∧
          asset.fingerprint = own.fingerprint ∧
          (Font.SubsetBuilder.AreApart (IsKnown library requests) → asset = own) ∧
          payload.Covers asset annotations family characters := by
  let b := SubsetBuilder.empty.run requests
  let fonts := (b.buildAll library (Font.usage annotations)).1
  have hremembers : b.Remembers (IsKnown library requests) :=
    .run Font.SubsetBuilder.isAmong_isKnown
  have hamong : (Request.buildAll library (Font.usage annotations)).IsAmong
    (IsKnown library requests) := Font.SubsetBuilder.isAmong_isKnown_buildAll _
  have hsome (family : FontFamily) : (fonts.get? family).isSome ↔
      (library.get? family).isSome ∧
        ∃ l ∈ annotations.labels, l.text ≠ "" ∧ l.style.family = family :=
    (Font.SubsetBuilder.isSome_get?_buildAll hremembers hamong hloaded).trans
      (and_congr_right fun _ ↦ Font.isSome_get?_usage)
  have hall : HasAllFonts annotations fonts ↔
      ∀ l ∈ annotations.labels, l.text ≠ "" → (library.get? l.style.family).isSome := by
    refine forall₃_congr fun l hl htext ↦ ?_
    rw [hsome]
    exact and_iff_left ⟨l, hl, htext, rfl⟩
  intro answer
  have hanswer : answer =
      (exportDocument .standard source annotations fonts).map fun bytes ↦ ⟨bytes, fonts⟩ := rfl
  refine ⟨?_, fun composed hok ↦ ?_⟩
  · calc (∃ family, answer = .error (.missingFont family))
      _ ↔ ∃ family,
          exportDocument .standard source annotations fonts = .error (.missingFont family) := by
        simp only [hanswer, map_eq_error_iff]
      _ ↔ ¬HasAllFonts annotations fonts := exportDocument_eq_missingFont_iff
      _ ↔ ∃ l ∈ annotations.labels, l.text ≠ "" ∧ library.get? l.style.family = none := by
        simp only [hall, not_forall, Option.not_isSome_iff_eq_none, exists_prop]
  · obtain ⟨bytes, hexport, rfl⟩ := map_eq_ok_iff.mp (hanswer.symm.trans hok)
    have hfonts : HasAllFonts annotations fonts := by
      by_contra hnot
      obtain ⟨family, herror⟩ := exportDocument_eq_missingFont_iff.mpr hnot
      rw [hexport] at herror
      cases herror
    refine ⟨fun family ↦ (hsome family).trans (and_iff_right_of_imp ?_),
      fun family payload hget ↦ ?_⟩
    · rintro ⟨l, hl, htext, rfl⟩
      exact hall.mp hfonts l hl htext
    · obtain ⟨own, asset, characters, hown, hknown, hasset, hkey, hcovers⟩ :=
        Font.SubsetBuilder.exists_covers hremembers hamong hget
      exact ⟨own, asset, characters, hown, hasset, congrArg Font.PayloadKey.family hkey,
        congrArg Font.PayloadKey.fingerprint hkey,
        fun hapart ↦ hapart.eq_of_payloadKey hasset hknown hkey, hcovers⟩

/-- Labels with a text in one family and without any in the other. -/
def sansTexts : AnnotationSet :=
  ⟨[⟨1, 1, 0, 0, "Ae", .standard, 0, 0⟩,
    ⟨2, 1, 0, 0, "", { TextStyle.standard with family := .serif }, 0, 0⟩], []⟩

/-- Labels with a text in a family without a font. -/
def serifTexts : AnnotationSet :=
  ⟨[⟨1, 1, 0, 0, "Ae", { TextStyle.standard with family := .serif }, 0, 0⟩], []⟩

/-- Where there is a sans font only, labels in it are covered, and for others there is no font. -/
theorem export_takes_fonts_along_sample :
    ∃ asset, Asset.ofBytes? .sans Font.Sample.font = some asset ∧
      let library : Library := ⟨none, some asset⟩
      let requests : List Request := [.build asset ['x']]
      let b := SubsetBuilder.empty.run requests
      (∀ known, IsKnown library requests known → known.IsLoaded) ∧
        (∃ family, (compose onePage serifTexts library b).1 = .error (.missingFont family)) ∧
        ∃ composed, (compose onePage sansTexts library b).1 = .ok composed ∧
          composed.fonts.get? .serif = none ∧
          ∃ payload characters, composed.fonts.get? .sans = some payload ∧
            payload.Covers asset sansTexts .sans characters := by
  have hrun : ((Asset.ofBytes? .sans Font.Sample.font).map fun asset ↦
      (compose onePage sansTexts ⟨none, some asset⟩
        (SubsetBuilder.empty.run [.build asset ['x']])).1.isOk) = some true := by
    decide +kernel
  obtain ⟨asset, hasset, hok⟩ := Option.map_eq_some_iff.mp hrun
  refine ⟨asset, hasset, ?_⟩
  intro library requests b
  have hknown : ∀ known, IsKnown library requests known → known = asset := by
    rintro known (⟨family, hfamily⟩ | ⟨request, hrequest, part, hpart, rfl⟩)
    · cases family with
      | serif => cases hfamily
      | sans => exact (Option.some.inj hfamily).symm
    · obtain rfl := List.mem_singleton.mp hrequest
      obtain rfl := List.mem_singleton.mp hpart
      rfl
  have hloaded : ∀ known, IsKnown library requests known → known.IsLoaded := by
    intro known h
    rw [hknown known h]
    exact Font.Asset.isLoaded_of_ofBytes? hasset
  have hapart : Font.SubsetBuilder.AreApart (IsKnown library requests) :=
    ⟨hloaded _, fun hone hother _ _ ↦ by rw [hknown _ hone, hknown _ hother]⟩
  obtain ⟨hmissing, -⟩ := export_takes_fonts_along hloaded onePage serifTexts
  obtain ⟨-, hcovers⟩ := export_takes_fonts_along hloaded onePage sansTexts
  refine ⟨hloaded, hmissing.mpr ⟨_, List.mem_cons_self, by decide, rfl⟩, ?_⟩
  obtain ⟨composed, hcomposed⟩ := exists_of_isOk hok
  obtain ⟨hfamilies, hpayloads⟩ := hcovers composed hcomposed
  refine ⟨composed, hcomposed, ?_, ?_⟩
  · refine Option.not_isSome_iff_eq_none.mp (mt (hfamilies .serif).mp ?_)
    simp [sansTexts, TextStyle.standard]
  · obtain ⟨payload, hget⟩ := Option.isSome_iff_exists.mp
      ((hfamilies .sans).mpr ⟨_, List.mem_cons_self, by decide, rfl⟩)
    obtain ⟨own, other, characters, hown, -, -, -, hsame, hcovered⟩ := hpayloads .sans payload hget
    obtain rfl := hsame hapart
    obtain rfl := Option.some.inj hown
    exact ⟨payload, characters, hget, hcovered⟩

end Export

end Marginalia
