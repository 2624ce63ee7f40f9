import Mathlib.Data.Finset.Card
import Mathlib.Tactic.Linarith
import Mathlib.Tactic.Ring
import Marginalia.Proofs.Export.FontTables

/-!
# Codes in the order of their first use

A subset numbers its glyphs from one on, in the order in which the characters call for them; zero is
the glyph for missing characters. The codes of a payload are these numbers, or those of the whole
font where there is no subset. Its widths are listed for exactly the codes in use and for zero, each
with the advance of the glyph that has the code.
-/

namespace Marginalia.Font

open Ascending (IsAscending)

/-! ## Numbers of glyphs -/

/-- An injective function keeps the order in which elements first occur. -/
theorem eraseDups_map {α β : Type} [BEq α] [LawfulBEq α] [BEq β] [LawfulBEq β] {f : α → β}
    {l : List α} (h : ∀ a ∈ l, ∀ b ∈ l, f a = f b → a = b) :
    (l.map f).eraseDups = l.eraseDups.map f := by
  induction hlength : l.length using Nat.strongRecOn generalizing l with
  | ind n ih =>
    cases l with
    | nil => rfl
    | cons a rest =>
      have hfilter : rest.filter ((fun b ↦ !b == f a) ∘ f) = rest.filter fun b ↦ !b == a := by
        apply List.filter_congr
        intro b hb
        have hsame : f b = f a ↔ b = a :=
          ⟨h b (List.mem_cons_of_mem _ hb) a List.mem_cons_self, congrArg f⟩
        rw [Function.comp_apply, Bool.eq_iff_iff]
        simp [hsame]
      have hlt : (rest.filter fun b ↦ !b == a).length < n := by
        rw [← hlength, List.length_cons]
        exact Nat.lt_succ_of_le (List.length_filter_le _ _)
      have hrest : ∀ x ∈ rest.filter (fun b ↦ !b == a), x ∈ a :: rest := fun x hx ↦
        List.mem_cons_of_mem _ (List.mem_of_mem_filter hx)
      rw [List.map_cons, List.eraseDups_cons, List.eraseDups_cons, List.map_cons, List.filter_map,
        hfilter, ih _ hlt (fun x hx y hy ↦ h x (hrest x hx) y (hrest y hy)) rfl]

namespace GlyphNumbering

theorem add_eraseDups (kept : List Nat) (glyph : Nat) :
    add ⟨kept.eraseDups⟩ glyph = ⟨(kept ++ [glyph]).eraseDups⟩ := by
  rw [List.eraseDups_append, add]
  by_cases h : glyph ∈ kept
  · simp [h, List.removeAll]
  · simp [h, List.removeAll, List.eraseDups_cons]

/-- The glyph for missing characters comes first, the others follow where they first occur. -/
theorem glyphs_ofGlyphs (glyphs : List Nat) :
    (ofGlyphs glyphs).glyphs = (0 :: glyphs).eraseDups := by
  have general : ∀ kept : List Nat,
      (glyphs.foldl add ⟨kept.eraseDups⟩).glyphs = (kept ++ glyphs).eraseDups := by
    induction glyphs with
    | nil => simp
    | cons glyph rest ih =>
      intro kept
      rw [List.foldl_cons, add_eraseDups, ih, List.append_assoc, List.singleton_append]
  exact general [0]

theorem idxOf_zero (glyphs : List Nat) : (ofGlyphs glyphs).glyphs.idxOf 0 = 0 := by
  rw [glyphs_ofGlyphs, List.eraseDups_cons, List.idxOf_cons_self]

theorem map_idxOf_glyphs (glyphs : List Nat) :
    (ofGlyphs glyphs).glyphs.map (ofGlyphs glyphs).glyphs.idxOf =
      List.range (ofGlyphs glyphs).glyphs.length := by
  refine List.ext_getElem (by simp) fun i hi _ ↦ ?_
  rw [List.getElem_map, List.getElem_range, (nodup_ofGlyphs glyphs).idxOf_getElem]

/-- A numbering has one number more than there are glyphs other than the one for missing
characters. -/
theorem length_ofGlyphs (glyphs : List Nat) :
    (ofGlyphs glyphs).glyphs.length = (glyphs.toFinset.erase 0).card + 1 := by
  have hset : (ofGlyphs glyphs).glyphs.toFinset = insert 0 (glyphs.toFinset.erase 0) := by
    ext g
    by_cases hzero : g = 0 <;> simp [mem_ofGlyphs, hzero]
  calc (ofGlyphs glyphs).glyphs.length
    _ = (ofGlyphs glyphs).glyphs.toFinset.card :=
      (List.toFinset_card_of_nodup (nodup_ofGlyphs glyphs)).symm
    _ = (insert 0 (glyphs.toFinset.erase 0)).card := by rw [hset]
    _ = (glyphs.toFinset.erase 0).card + 1 :=
      Finset.card_insert_of_notMem (Finset.notMem_erase 0 _)

/-- The numbers other than zero appear in their order. -/
theorem numbers_in_order (glyphs : List Nat) :
    ((glyphs.map (ofGlyphs glyphs).glyphs.idxOf).filter (· ≠ 0)).eraseDups =
      List.range' 1 (glyphs.toFinset.erase 0).card := by
  have hinjective : ∀ a ∈ 0 :: glyphs, ∀ b ∈ 0 :: glyphs,
      (ofGlyphs glyphs).glyphs.idxOf a = (ofGlyphs glyphs).glyphs.idxOf b → a = b := by
    intro a ha b _ hab
    have hkept : a ∈ (ofGlyphs glyphs).glyphs := mem_ofGlyphs.mpr (List.mem_cons.mp ha)
    exact (List.idxOf_inj hkept).mp hab
  have hall : ((0 :: glyphs).map (ofGlyphs glyphs).glyphs.idxOf).eraseDups =
      0 :: List.range' 1 (glyphs.toFinset.erase 0).card := by
    calc ((0 :: glyphs).map (ofGlyphs glyphs).glyphs.idxOf).eraseDups
      _ = (0 :: glyphs).eraseDups.map (ofGlyphs glyphs).glyphs.idxOf := eraseDups_map hinjective
      _ = (ofGlyphs glyphs).glyphs.map (ofGlyphs glyphs).glyphs.idxOf := by
        rw [← glyphs_ofGlyphs]
      _ = List.range ((glyphs.toFinset.erase 0).card + 1) := by
        rw [map_idxOf_glyphs, length_ofGlyphs]
      _ = 0 :: List.range' 1 (glyphs.toFinset.erase 0).card := by
        rw [List.range_eq_range', List.range'_succ]
  rw [List.map_cons, idxOf_zero, List.eraseDups_cons] at hall
  have hfilter : (fun number : Nat ↦ decide (number ≠ 0)) = fun number ↦ !number == 0 := by
    funext number
    by_cases hzero : number = 0 <;> simp [hzero]
  rw [hfilter]
  exact (List.cons.inj hall).2

end GlyphNumbering

/-! ## Widths -/

/-- The thousandths of the font size that are nearest to the advance of a glyph, the greater ones
where two are. A glyph without an advance is taken to have none. -/
def Face.IsWidth (f : Face) (glyph : Nat) (width : Int) : Prop :=
  (2 * width - 1) * f.header.unitsPerEm ≤ 2000 * ((f.advance? glyph).getD 0 : Nat) ∧
    2000 * ((f.advance? glyph).getD 0 : Nat) < (2 * width + 1) * f.header.unitsPerEm

theorem Metrics.toThousandths_bounds {m : Metrics} (h : 0 < m.unitsPerEm) (units : Nat) :
    (2 * m.toThousandths units - 1) * m.unitsPerEm ≤ 2000 * (units : Int) ∧
      2000 * (units : Int) < (2 * m.toThousandths units + 1) * m.unitsPerEm := by
  have hnonnegative : ¬(units : Int) < 0 := by omega
  rw [toThousandths, if_neg hnonnegative, Int.natAbs_natCast]
  have hle := Nat.mul_div_le (2 * 1000 * units + m.unitsPerEm) (2 * m.unitsPerEm)
  have hlt := Nat.lt_mul_div_succ (2 * 1000 * units + m.unitsPerEm)
    (Nat.mul_pos Nat.two_pos h)
  generalize (2 * 1000 * units + m.unitsPerEm) / (2 * m.unitsPerEm) = quotient at hle hlt ⊢
  zify at hle hlt
  constructor
  · linarith
  · linarith

theorem Header.unitsPerEm_pos {table : Bytes} {header : Header}
    (h : Header.ofBytes? table = some header) : 0 < header.unitsPerEm := by
  obtain ⟨_, -, h⟩ := Option.bind_eq_some_iff.mp h
  obtain ⟨unitsPerEm, -, h⟩ := Option.bind_eq_some_iff.mp h
  obtain ⟨_, hrange, h⟩ := Option.bind_eq_some_iff.mp h
  obtain ⟨_, -, h⟩ := Option.bind_eq_some_iff.mp h
  obtain ⟨_, -, h⟩ := Option.bind_eq_some_iff.mp h
  obtain ⟨_, -, h⟩ := Option.bind_eq_some_iff.mp h
  obtain ⟨_, -, h⟩ := Option.bind_eq_some_iff.mp h
  obtain ⟨_, -, h⟩ := Option.bind_eq_some_iff.mp h
  obtain ⟨_, -, h⟩ := Option.bind_eq_some_iff.mp h
  obtain rfl := Option.some.inj h
  have hrange : 16 ≤ unitsPerEm ∧ unitsPerEm ≤ 16384 := by
    by_contra hnot
    rw [guard, if_neg hnot] at hrange
    cases hrange
  exact Nat.lt_of_lt_of_le (by decide) hrange.1

theorem Face.unitsPerEm_pos {bytes : Bytes} {f : Face} (h : Face.ofBytes? bytes = some f) :
    0 < f.header.unitsPerEm := by
  obtain ⟨directory, -, h⟩ := Option.bind_eq_some_iff.mp h
  obtain ⟨table, -, h⟩ := Option.bind_eq_some_iff.mp h
  obtain ⟨header, hheader, h⟩ := Option.bind_eq_some_iff.mp h
  obtain ⟨_, -, h⟩ := Option.bind_eq_some_iff.mp h
  obtain ⟨_, -, h⟩ := Option.bind_eq_some_iff.mp h
  obtain ⟨_, -, h⟩ := Option.bind_eq_some_iff.mp h
  obtain ⟨_, -, h⟩ := Option.bind_eq_some_iff.mp h
  obtain rfl := Option.some.inj h
  exact Header.unitsPerEm_pos hheader

section

variable {advance : Nat → Int} {glyphs codes : List (Char × Nat)}

/-- List the width of a glyph under the code of its character, if there is one. -/
def withWidth (advance : Nat → Int) (codes : List (Char × Nat)) (widths : List (Nat × Int))
    (entry : Char × Nat) : List (Nat × Int) :=
  (codes.lookup entry.1).elim widths fun code ↦
    Ascending.insert Prod.fst (code, advance entry.2) widths

theorem widthTable_eq : widthTable advance glyphs codes =
    glyphs.foldl (withWidth advance codes) [(0, advance 0)] := by
  rw [widthTable]
  congr 1
  funext widths entry
  obtain ⟨c, glyph⟩ := entry
  rw [withWidth]
  dsimp only
  cases codes.lookup c <;> rfl

theorem lookup_withWidth (widths : List (Nat × Int)) (entry : Char × Nat) (code : Nat) :
    (withWidth advance codes widths entry).lookup code =
      if codes.lookup entry.1 = some code then some (advance entry.2)
      else widths.lookup code := by
  rw [withWidth]
  cases codes.lookup entry.1 with
  | none => simp
  | some other => simp [Ascending.lookup_insert, eq_comm]

/-- A width is listed for zero and for the code of every glyph. -/
theorem lookup_widthTable_isSome {code : Nat} :
    ((widthTable advance glyphs codes).lookup code).isSome ↔
      code = 0 ∨ ∃ entry ∈ glyphs, codes.lookup entry.1 = some code := by
  have general : ∀ widths : List (Nat × Int),
      ((glyphs.foldl (withWidth advance codes) widths).lookup code).isSome ↔
        (widths.lookup code).isSome ∨ ∃ entry ∈ glyphs, codes.lookup entry.1 = some code := by
    induction glyphs with
    | nil => simp
    | cons entry rest ih =>
      intro widths
      rw [List.foldl_cons, ih, List.exists_mem_cons_iff, ← or_assoc, lookup_withWidth]
      refine or_congr_left ?_
      split
      · next hcode => simp [hcode]
      · next hcode => simp [hcode]
  rw [widthTable_eq, general, Ascending.lookup_cons]
  by_cases hzero : code = 0 <;> simp [hzero]

/-- A width that is listed is the one of a glyph with that code, or the one for missing
characters. -/
theorem of_lookup_widthTable {code : Nat} {width : Int}
    (h : (widthTable advance glyphs codes).lookup code = some width) :
    (code = 0 ∧ width = advance 0) ∨
      ∃ entry ∈ glyphs, codes.lookup entry.1 = some code ∧ width = advance entry.2 := by
  rw [widthTable_eq] at h
  revert width
  refine List.foldlRecOn (motive := fun widths : List (Nat × Int) ↦ ∀ {width},
    widths.lookup code = some width → (code = 0 ∧ width = advance 0) ∨
      ∃ entry ∈ glyphs, codes.lookup entry.1 = some code ∧ width = advance entry.2) _ _ ?_ ?_
  · intro width h
    rw [Ascending.lookup_cons] at h
    split at h
    · next hzero => exact .inl ⟨hzero, (Option.some.inj h).symm⟩
    · cases h
  · intro widths ih entry hentry width h
    rw [lookup_withWidth] at h
    split at h
    · next hcode => exact .inr ⟨entry, hentry, hcode, (Option.some.inj h).symm⟩
    · exact ih h

end

namespace Payload

/-- A payload lists the widths of zero and of its codes: for each of them that of its glyph, and for
zero that of the glyph for missing characters. -/
structure IsMeasuredBy (p : Payload) (f : Face) : Prop where
  isSome_iff : ∀ code, (p.widths.lookup code).isSome ↔ code = 0 ∨ ∃ c, p.code? c = some code
  missing : ∀ {width}, p.widths.lookup 0 = some width → f.IsWidth 0 width
  used : ∀ {c glyph code width}, f.glyph? c = some glyph → p.code? c = some code →
    p.widths.lookup code = some width → f.IsWidth glyph width

namespace IsMadeOf

variable {p : Payload} {asset : Asset} {f : Face} {characters : List Char}

theorem codeOf_zero (kind : PayloadKind) : codeOf kind (f.numbering characters) 0 = 0 := by
  cases kind with
  | subset => exact GlyphNumbering.idxOf_zero _
  | full => rfl

theorem codeOf_eq_zero (kind : PayloadKind) {glyph : Nat} :
    codeOf kind (f.numbering characters) glyph = 0 ↔ glyph = 0 := by
  have hzero : 0 ∈ (f.numbering characters).glyphs := mem_numbering.mpr (.inl rfl)
  calc codeOf kind (f.numbering characters) glyph = 0
    _ ↔ codeOf kind (f.numbering characters) 0 = codeOf kind (f.numbering characters) glyph := by
      rw [codeOf_zero, eq_comm]
    _ ↔ 0 = glyph := codeOf_inj kind hzero
    _ ↔ glyph = 0 := eq_comm

/-- The code zero is the one of the glyph for missing characters. -/
theorem code?_eq_zero (h : p.IsMadeOf asset f characters) {c : Char} :
    p.code? c = some 0 ↔ c ∈ characters ∧ f.glyph? c = some 0 := by
  rw [h.code?_eq_some]
  refine and_congr_right fun _ ↦ ⟨?_, fun hglyph ↦ ⟨0, hglyph, codeOf_zero _⟩⟩
  rintro ⟨glyph, hglyph, hcode⟩
  rwa [(codeOf_eq_zero _).mp hcode] at hglyph

theorem isMeasuredBy (h : p.IsMadeOf asset f characters) (hmetrics : asset.metrics = .ofFace f) :
    p.IsMeasuredBy f := by
  have hwidth (glyph : Nat) :
      f.IsWidth glyph (asset.metrics.toThousandths ((f.advance? glyph).getD 0 : Nat)) := by
    rw [hmetrics]
    exact Metrics.toThousandths_bounds (m := .ofFace f) (Face.unitsPerEm_pos h.face) _
  -- Whatever is listed for the code of a glyph belongs to that glyph.
  have hlisted {glyph code : Nat} {width : Int} (hkept : glyph ∈ (f.numbering characters).glyphs)
      (hcode : codeOf p.kind (f.numbering characters) glyph = code)
      (hfound : p.widths.lookup code = some width) : f.IsWidth glyph width := by
    rw [h.widths] at hfound
    rcases of_lookup_widthTable hfound with ⟨hzero, rfl⟩ | ⟨⟨d, other⟩, hother, hd, rfl⟩
    · rw [(codeOf_eq_zero p.kind).mp (hcode.trans hzero)]
      exact hwidth 0
    · obtain ⟨-, glyph', hglyph', hcode'⟩ := h.code?_eq_some.mp hd
      obtain rfl := Option.some.inj ((mem_mapped.mp hother).2.symm.trans hglyph')
      rw [(codeOf_inj p.kind hkept).mp (hcode.trans hcode'.symm)]
      exact hwidth other
  refine ⟨fun code ↦ ?_, fun hfound ↦ ?_, fun {c glyph code width} hglyph hcode hfound ↦ ?_⟩
  · rw [h.widths, lookup_widthTable_isSome]
    refine or_congr_right ⟨?_, ?_⟩
    · rintro ⟨entry, -, hcode⟩
      exact ⟨entry.1, hcode⟩
    · rintro ⟨c, hcode⟩
      obtain ⟨hc, glyph, hglyph, -⟩ := h.code?_eq_some.mp hcode
      exact ⟨(c, glyph), mem_mapped.mpr ⟨hc, hglyph⟩, hcode⟩
  · exact hlisted (mem_numbering.mpr (.inl rfl)) (codeOf_zero _) hfound
  · obtain ⟨hc, glyph', hglyph', hcode'⟩ := h.code?_eq_some.mp hcode
    obtain rfl := Option.some.inj (hglyph.symm.trans hglyph')
    exact hlisted (mem_numbering.mpr (.inr (Face.mem_glyphs.mpr ⟨c, hc, hglyph⟩))) hcode' hfound

/-- In a subset the codes other than zero are the numbers from one on, in the order in which the
characters first call for them. -/
theorem codes_in_order (h : p.IsMadeOf asset f characters) (hkind : p.kind = .subset) :
    ((p.codes.map Prod.snd).filter (· ≠ 0)).eraseDups =
      List.range' 1 ((f.glyphs characters).toFinset.erase 0).card := by
  have hcodes : p.codes.map Prod.snd =
      (f.glyphs characters).map (f.numbering characters).glyphs.idxOf := by
    rw [h.codes, hkind, ← map_snd_mapped, List.map_map, List.map_map]
    rfl
  rw [hcodes]
  exact GlyphNumbering.numbers_in_order _

end IsMadeOf

end Payload

/-! ## Fonts that were loaded -/

/-- A font that was taken from its bytes. -/
def Asset.IsLoaded (asset : Asset) : Prop :=
  Asset.ofBytes? asset.family asset.bytes = some asset

namespace Asset

theorem eq_of_ofBytes? {family : FontFamily} {bytes : Bytes} {asset : Asset}
    (h : ofBytes? family bytes = some asset) :
    ∃ f, Face.ofBytes? bytes = some f ∧ asset = ⟨family, bytes, .ofFace f, hash bytes⟩ := by
  obtain ⟨f, hf, hasset⟩ := Option.bind_eq_some_iff.mp h
  exact ⟨f, hf, (Option.some.inj hasset).symm⟩

theorem isLoaded_of_ofBytes? {family : FontFamily} {bytes : Bytes} {asset : Asset}
    (h : ofBytes? family bytes = some asset) : asset.IsLoaded := by
  obtain ⟨f, -, rfl⟩ := eq_of_ofBytes? h
  exact h

theorem IsLoaded.exists_face {asset : Asset} (h : asset.IsLoaded) :
    ∃ f, Face.ofBytes? asset.bytes = some f ∧ asset.metrics = .ofFace f := by
  obtain ⟨f, hf, hasset⟩ := eq_of_ofBytes? h
  exact ⟨f, hf, by rw [hasset]⟩

theorem exists_ofBytes? {bytes : Bytes} {f : Face} (h : Face.ofBytes? bytes = some f)
    (family : FontFamily) :
    ∃ asset, ofBytes? family bytes = some asset ∧ asset.family = family :=
  ⟨_, Option.bind_eq_some_iff.mpr ⟨f, h, rfl⟩, rfl⟩

/-- A font that was loaded is determined by its family and bytes. -/
theorem IsLoaded.ext {asset other : Asset} (h : asset.IsLoaded) (hother : other.IsLoaded)
    (hfamily : asset.family = other.family) (hbytes : asset.bytes = other.bytes) :
    asset = other := by
  rw [IsLoaded, hfamily, hbytes] at h
  exact Option.some.inj (h.symm.trans hother)

end Asset

namespace Payload

theorem exists_build? {asset : Asset} (h : asset.IsLoaded) (characters : List Char) :
    ∃ p, build? asset characters = some p := by
  obtain ⟨f, hf, -⟩ := h.exists_face
  exact ⟨_, Option.bind_eq_some_iff.mpr ⟨f, hf, rfl⟩⟩

/-- Every font that was loaded gives a payload for every set of characters. The characters that have
a code are those that the font has a glyph for. In a subset two of them share a code exactly if they
share their glyph, zero is the code of the glyph for missing characters, and the other codes are the
numbers from one on, as many as there are other glyphs, in the order of first use by ascending
character. A whole font keeps its bytes and the numbers of its glyphs. Either way a width is listed
for zero and for each code in use, and it is that of the glyph. -/
theorem codes_go_by_first_use {asset : Asset} (hasset : asset.IsLoaded) {characters : List Char}
    (hcharacters : IsAscending Char.toNat characters) :
    ∃ f p, Face.ofBytes? asset.bytes = some f ∧ build? asset characters = some p ∧
      p.IsTabular ∧ p.IsCodedBy f characters ∧ p.IsMeasuredBy f ∧
      (∀ subset, Subset.build? asset.bytes (f.numbering characters) = some subset →
        p.kind = .subset ∧ p.bytes = subset ∧
        (∀ c, p.code? c = some 0 ↔ c ∈ characters ∧ f.glyph? c = some 0) ∧
        ((p.codes.map Prod.snd).filter (· ≠ 0)).eraseDups =
          List.range' 1 ((f.glyphs characters).toFinset.erase 0).card) ∧
      (Subset.build? asset.bytes (f.numbering characters) = none →
        p.kind = .full ∧ p.bytes = asset.bytes ∧ ∀ c ∈ characters, p.code? c = f.glyph? c) := by
  obtain ⟨f, hf, hmetrics⟩ := hasset.exists_face
  obtain ⟨p, hp⟩ := exists_build? hasset characters
  obtain ⟨f', hmade⟩ := isMadeOf_of_build? hp
  obtain rfl := Option.some.inj (hf.symm.trans hmade.face)
  refine ⟨f, p, hf, hp, isTabular_of_build? hp hcharacters, hmade.isCodedBy,
    hmade.isMeasuredBy hmetrics, fun subset hsubset ↦ ?_, fun hnone ↦ ?_⟩
  · obtain ⟨hkind, hbytes⟩ := hmade.subset subset hsubset
    exact ⟨hkind, hbytes, fun c ↦ hmade.code?_eq_zero, hmade.codes_in_order hkind⟩
  · obtain ⟨hkind, hbytes⟩ := hmade.full hnone
    refine ⟨hkind, hbytes, fun c hc ↦ Option.ext fun glyph ↦ ?_⟩
    rw [hmade.code?_eq_some, hkind]
    simp [hc, codeOf]

/-- A font without a `Z` draws the letters `A` of two scripts with one glyph. -/
theorem codes_go_by_first_use_twins :
    IsAscending Char.toNat ['A', 'Z', 'Α'] ∧
      ∃ asset p, Asset.ofBytes? .sans Export.twinFont = some asset ∧ asset.IsLoaded ∧
        build? asset ['A', 'Z', 'Α'] = some p ∧ p.kind = .subset ∧ p.code? 'Z' = none ∧
        (∃ code, p.code? 'A' = some code ∧ p.code? 'Α' = some code) ∧
        ((p.codes.map Prod.snd).filter (· ≠ 0)).eraseDups = [1] := by
  have hascending : IsAscending Char.toNat ['A', 'Z', 'Α'] := by
    unfold IsAscending
    decide
  have hloads : (Asset.ofBytes? .sans Export.twinFont).isSome := by decide +kernel
  have hreads : (Face.ofBytes? Export.twinFont).map (fun f ↦
      (f.glyph? 'A', f.glyph? 'Z', f.glyph? 'Α',
        (Subset.build? Export.twinFont (f.numbering ['A', 'Z', 'Α'])).isSome)) =
      some (some 2, none, some 2, true) := by
    decide +kernel
  obtain ⟨asset, hasset⟩ := Option.isSome_iff_exists.mp hloads
  have hloaded := Asset.isLoaded_of_ofBytes? hasset
  obtain ⟨f, p, hf, hp, -, hcoded, -, hsubset, -⟩ := codes_go_by_first_use hloaded hascending
  rw [Export.bytes_of_ofBytes? hasset] at hf hsubset
  simp only [hf, Option.map_some, Option.some.injEq, Prod.mk.injEq] at hreads
  obtain ⟨hA, hZ, hAlpha, hbuilds⟩ := hreads
  obtain ⟨subset, hbuild⟩ := Option.isSome_iff_exists.mp hbuilds
  obtain ⟨hkind, -, -, horder⟩ := hsubset subset hbuild
  obtain ⟨code, hcode⟩ := Option.isSome_iff_exists.mp
    ((hcoded.isSome_iff 'A').mpr ⟨by decide, by rw [hA]; rfl⟩)
  obtain ⟨other, hother⟩ := Option.isSome_iff_exists.mp
    ((hcoded.isSome_iff 'Α').mpr ⟨by decide, by rw [hAlpha]; rfl⟩)
  refine ⟨hascending, asset, p, hasset, hloaded, hp, hkind, ?_, ⟨code, hcode, ?_⟩, ?_⟩
  · refine Option.not_isSome_iff_eq_none.mp fun hsome ↦ ?_
    rw [hcoded.isSome_iff, hZ] at hsome
    exact absurd hsome.2 (by decide)
  · rw [hother, (hcoded.eq_iff hcode hother).mpr (hA.trans hAlpha.symm)]
  · rw [horder]
    simp [Face.glyphs, hA, hZ, hAlpha]

end Payload

end Marginalia.Font
