import Mathlib.Data.List.Chain
import Mathlib.Data.List.Forall2
import Mathlib.Data.List.Nodup
import Mathlib.Data.Option.Basic
import Mathlib.Data.Prod.Basic
import Marginalia.Proofs.Export.UnicodeMap

/-!
# The tables of a font

Beside its file an embedded font has two tables. One lists the widths of the codes in runs of
consecutive codes, the other lists the characters of the codes in blocks. Read back, the first gives
the widths of the payload and the second its codes, whatever gaps there are between the codes and
however many there are.
-/

namespace Marginalia

namespace Font

open Ascending (IsAscending)

/-! ## Tables of a payload -/

namespace Payload

/-- The tables of a payload list their keys in order, and its codes have 16 bits. -/
structure IsTabular (p : Payload) : Prop where
  widths : IsAscending Prod.fst p.widths
  codes : IsAscending (fun entry ↦ entry.1.toNat) p.codes
  lt : ∀ entry ∈ p.codes, entry.2 < 0x10000

theorem IsTabular.nodup_codes {p : Payload} (h : p.IsTabular) : p.codes.Nodup :=
  h.codes.imp fun hlt heq ↦ absurd (heq ▸ hlt) (Nat.lt_irrefl _)

theorem isAscending_widthTable (advance : Nat → Int) (glyphs codes : List (Char × Nat)) :
    IsAscending Prod.fst (widthTable advance glyphs codes) := by
  refine List.foldlRecOn (motive := IsAscending Prod.fst) _ _ (List.pairwise_singleton _ _) ?_
  rintro widths h ⟨c, glyph⟩ -
  cases hcode : codes.lookup c with
  | none =>
    simp only [hcode]
    exact h
  | some code =>
    simp only [hcode]
    exact Ascending.isAscending_insert _ h

theorem isAscending_mapped {f : Face} {characters : List Char}
    (h : IsAscending Char.toNat characters) :
    IsAscending (fun entry ↦ entry.1.toNat) (mapped f characters) := by
  refine List.pairwise_filterMap.mpr (h.imp fun hlt a ha b hb ↦ ?_)
  obtain ⟨_, -, rfl⟩ := Option.map_eq_some_iff.mp ha
  obtain ⟨_, -, rfl⟩ := Option.map_eq_some_iff.mp hb
  exact hlt

/-- Payloads are built with their tables in order. -/
theorem isTabular_of_build? {asset : Asset} {characters : List Char} {p : Payload}
    (h : build? asset characters = some p) (hcharacters : IsAscending Char.toNat characters) :
    p.IsTabular where
  widths := by
    obtain ⟨f, hmade⟩ := isMadeOf_of_build? h
    rw [hmade.widths]
    exact isAscending_widthTable _ _ _
  codes := by
    obtain ⟨f, hmade⟩ := isMadeOf_of_build? h
    rw [hmade.codes]
    exact List.pairwise_map.mpr (isAscending_mapped hcharacters)
  lt := by
    obtain ⟨f, -, hcoded⟩ := isCodedBy_of_build? h
    exact fun entry hentry ↦ hcoded.lt (hcoded.mem_codes_iff.mp hentry)

end Payload

end Font

namespace Export

open Ascending (IsAscending)
open Font (Payload)
open Pdf (Object)

/-! ## Runs of widths -/

namespace WidthRun

theorem expand_cons (first : Nat) (width : Int) (widths : List Int) :
    expand ⟨first, width :: widths⟩ = (first, width) :: expand ⟨first + 1, widths⟩ := by
  rw [expand, expand, List.length_cons, List.range'_succ, List.zip_cons_cons]

theorem flatMap_expand_add (entry : Nat × Int) (runs : List WidthRun) :
    (add entry runs).flatMap expand = entry :: runs.flatMap expand := by
  cases runs with
  | nil => rfl
  | cons run runs =>
    rw [add]
    split
    · next hnext => rw [List.flatMap_cons, expand_cons, hnext, List.flatMap_cons, List.cons_append]
    · rw [List.flatMap_cons, expand_cons]
      rfl

/-- The runs hold the widths that they were made of, consecutive or not. -/
theorem flatMap_expand_ofWidths (widths : List (Nat × Int)) :
    (ofWidths widths).flatMap expand = widths := by
  induction widths with
  | nil => rfl
  | cons entry rest ih =>
    rw [ofWidths, List.foldr_cons, flatMap_expand_add]
    exact congrArg (entry :: ·) ih

theorem ofItems?_items (runs : List WidthRun) :
    ofItems? (runs.flatMap fun run ↦
      [.integer run.first, .array (run.widths.map Object.integer)]) = some runs := by
  have hwidths (widths : List Int) :
      (widths.map Object.integer).mapM Object.integer? = some widths := by
    rw [UnicodeMap.mapM_eq_some_iff]
    exact fun _ _ ↦ rfl
  induction runs with
  | nil => rfl
  | cons run runs ih =>
    rw [List.flatMap_cons, List.cons_append, List.cons_append, List.nil_append, ofItems?, ih,
      hwidths, guard, if_pos (Int.natCast_nonneg run.first)]
    rfl

theorem first_add (entry : Nat × Int) (runs : List WidthRun) :
    ∃ widths rest, add entry runs = ⟨entry.1, widths⟩ :: rest := by
  cases runs with
  | nil => exact ⟨_, _, rfl⟩
  | cons run runs =>
    rw [add]
    split <;> exact ⟨_, _, rfl⟩

/-- One run ends before the code that another one begins with, and there are codes between them. -/
def IsApart (a b : WidthRun) : Prop :=
  a.first + a.widths.length < b.first

theorem isChain_add {entry : Nat × Int} {runs : List WidthRun}
    (h : runs.IsChain IsApart) (hlt : ∀ run ∈ runs.head?, entry.1 < run.first) :
    (add entry runs).IsChain IsApart := by
  cases runs with
  | nil => exact .singleton _
  | cons run runs =>
    have hfirst : entry.1 < run.first := hlt run rfl
    rw [add]
    split
    · next hnext =>
      obtain ⟨hhead, hrest⟩ := List.isChain_cons.mp h
      refine List.isChain_cons.mpr ⟨fun next hmem ↦ ?_, hrest⟩
      have happart : run.first + run.widths.length < next.first := hhead next hmem
      simp only [IsApart, List.length_cons]
      omega
    · next hgap =>
      refine List.isChain_cons.mpr ⟨fun next hmem ↦ ?_, h⟩
      obtain rfl := Option.some.inj hmem
      simp only [IsApart, List.length_singleton]
      omega

/-- Every run goes as far as the codes are consecutive. -/
theorem isChain_ofWidths {widths : List (Nat × Int)} (h : IsAscending Prod.fst widths) :
    (ofWidths widths).IsChain IsApart := by
  induction widths with
  | nil => exact .nil
  | cons entry rest ih =>
    obtain ⟨hentry, hrest⟩ := List.pairwise_cons.mp h
    refine isChain_add (ih hrest) fun run hrun ↦ ?_
    cases rest with
    | nil => cases hrun
    | cons next rest =>
      obtain ⟨widths, runs, hruns⟩ := first_add next (ofWidths rest)
      rw [List.foldr_cons, ← ofWidths, hruns] at hrun
      obtain rfl := Option.some.inj hrun
      exact hentry next List.mem_cons_self

end WidthRun

/-! ## Blocks of characters -/

namespace UnicodeMap

/-- Entries are listed by code, and under one code by character. -/
def Precedes (a b : Nat × Char) : Prop :=
  a.1 < b.1 ∨ a.1 = b.1 ∧ a.2 < b.2

theorem pairwise_entries {codes : List (Char × Nat)} (h : codes.Nodup) :
    (entries codes).Pairwise Precedes := by
  have hnodup : (entries codes).Nodup :=
    (List.mergeSort_perm _ _).nodup_iff.mpr (h.map Prod.swap_injective)
  have hsorted : (entries codes).Pairwise fun a b ↦
      (a.1 < b.1 || (a.1 == b.1 && a.2.toNat ≤ b.2.toNat)) := by
    apply List.pairwise_mergeSort
    · intro a b c
      simp only [Bool.or_eq_true, Bool.and_eq_true, decide_eq_true_eq, beq_iff_eq]
      omega
    · intro a b
      simp only [Bool.or_eq_true, Bool.and_eq_true, decide_eq_true_eq, beq_iff_eq]
      omega
  refine (hsorted.and hnodup).imp fun {a b} ⟨hle, hne⟩ ↦ ?_
  have hle : a.1 < b.1 ∨ a.1 = b.1 ∧ a.2.toNat ≤ b.2.toNat := by simpa using hle
  refine hle.imp_right fun ⟨hcode, hcharacter⟩ ↦ ⟨hcode, ?_⟩
  exact Nat.lt_of_le_of_ne hcharacter fun heq ↦ hne (Prod.ext hcode (Char.toNat_inj.mp heq))

theorem length_of_mem_blocks {list block : List (Nat × Char)} (h : block ∈ blocks list) :
    0 < block.length ∧ block.length ≤ blockLimit := by
  induction list using blocks.induct with
  | case1 => simp [blocks] at h
  | case2 entry rest ih =>
    rw [blocks] at h
    rcases List.mem_cons.mp h with rfl | hrest
    · rw [List.length_cons, List.length_take, blockLimit]
      omega
    · exact ih hrest

/-- A character in the upper planes is written as two surrogates, every other as itself. -/
theorem units_cases (c : Char) :
    (c.toNat ≤ 0xFFFF ∧ units c = [c.toNat]) ∨
      ∃ high low, 0xFFFF < c.toNat ∧ units c = [high, low] ∧
        0xD800 ≤ high ∧ high < 0xDC00 ∧ 0xDC00 ≤ low ∧ low < 0xE000 := by
  have hc := toNat_lt c
  unfold units
  split
  · exact .inl ⟨by omega, rfl⟩
  · exact .inr ⟨_, _, by omega, rfl, by omega, by omega, by omega, by omega⟩

/-- A line that shows an entry: four digits for the code, and four for each unit of the
character. -/
def Shows (line : List Char) (entry : Nat × Char) : Prop :=
  ∃ code character, line = '<' :: (code ++ '>' :: ' ' :: '<' :: (character ++ ['>'])) ∧
    (∀ d ∈ code ++ character, d ∈ "0123456789ABCDEF".toList) ∧
    code.length = 4 ∧ Operator.codes? code = some [entry.1] ∧
    character.length = 4 * (units entry.2).length ∧
    Operator.codes? character = some (units entry.2)

theorem shows_entryCharacters {entry : Nat × Char} (h : entry.1 < 0x10000) :
    Shows (entryCharacters entry) entry := by
  refine ⟨(Operator.codesText [entry.1]).toList, (Operator.codesText (units entry.2)).toList,
    by simp [entryCharacters], ?_, ?_, codes?_codesText (by simpa using h), ?_,
    codes?_codesText lt_of_mem_units⟩
  · exact List.forall_mem_append.mpr ⟨fun _ ↦ mem_codesText, fun _ ↦ mem_codesText⟩
  · rw [String.length_toList, length_codesText, List.length_singleton]
  · rw [String.length_toList, length_codesText]

/-- The lines of a block: one announces how many lines follow before the closing one, and these show
the entries of the block. -/
def Presents (lines : List (List Char)) (block : List (Nat × Char)) : Prop :=
  ∃ first shown, lines = first :: (shown ++ [blockEnd]) ∧
    announced? first = some shown.length ∧ List.Forall₂ Shows shown block

theorem presents_blockLines {block : List (Nat × Char)} (h : ∀ entry ∈ block, entry.1 < 0x10000) :
    Presents (blockLines block) block := by
  refine ⟨_, block.map entryCharacters, rfl, ?_, ?_⟩
  · rw [List.length_map, announced?_count]
  · rw [List.forall₂_map_left_iff, List.forall₂_same]
    exact fun entry hentry ↦ shows_entryCharacters (h entry hentry)

/-- The lines of a table are those of its blocks between lines that announce none. -/
theorem exists_fields_text (codes : List (Char × Nat)) : ∃ before after : List (List Char),
    Text.fields (· == '\n') (text codes).toList =
      before ++ (blocks (entries codes)).flatMap blockLines ++ after ∧
    ∀ line ∈ before ++ after, announced? line = none := by
  obtain ⟨before, hbefore, hopening⟩ := exists_fields_plain isPlain_opening
  obtain ⟨after, hafter, hclosing⟩ := exists_fields_plain isPlain_closing
  refine ⟨before, after ++ [[]], ?_, ?_⟩
  · rw [text, String.toList_append, String.toList_append, List.append_assoc, hopening,
      fields_blocks, ← List.append_nil closing.toList, hclosing, Text.fields, List.append_assoc]
  · have hlast : announced? [] = none := rfl
    exact List.forall_mem_append.mpr ⟨hbefore, List.forall_mem_append.mpr
      ⟨hafter, List.forall_mem_singleton.mpr hlast⟩⟩

end UnicodeMap

open UnicodeMap (Precedes Presents announced? units)

/-- The array of widths lists runs that are as long as the codes are consecutive, and these hold the
widths of the payload. The other table reads back as the codes of the payload, in order and cut
into blocks of at most a hundred; each block is announced with the number of its lines, and each of
its lines shows an entry. The one or two units of a character lead back to it. -/
theorem tables_decode {p : Payload} (h : p.IsTabular) :
    (∃ items runs, WidthRun.object (WidthRun.ofWidths p.widths) = .array items ∧
      WidthRun.ofItems? items = some runs ∧ runs.IsChain WidthRun.IsApart ∧
      runs.flatMap WidthRun.expand = p.widths ∧ IsAscending Prod.fst p.widths) ∧
    (∃ blocks, UnicodeMap.read? (UnicodeMap.text p.codes) = some blocks ∧
      blocks.flatten.Perm (p.codes.map Prod.swap) ∧ blocks.flatten.Pairwise Precedes ∧
      (∀ block ∈ blocks, 0 < block.length ∧ block.length ≤ 100) ∧
      ∃ before written after,
        Text.fields (· == '\n') (UnicodeMap.text p.codes).toList =
          before ++ written.flatten ++ after ∧
        (∀ line ∈ before ++ after, announced? line = none) ∧
        List.Forall₂ Presents written blocks) ∧
    ∀ c, UnicodeMap.character? (units c) = some c ∧
      ((c.toNat ≤ 0xFFFF ∧ units c = [c.toNat]) ∨
        ∃ high low, 0xFFFF < c.toNat ∧ units c = [high, low] ∧
          0xD800 ≤ high ∧ high < 0xDC00 ∧ 0xDC00 ≤ low ∧ low < 0xE000) := by
  refine ⟨⟨_, _, rfl, WidthRun.ofItems?_items _, WidthRun.isChain_ofWidths h.widths,
    WidthRun.flatMap_expand_ofWidths _, h.widths⟩, ⟨_, UnicodeMap.read?_text h.lt, ?_, ?_,
    fun block ↦ UnicodeMap.length_of_mem_blocks, ?_⟩,
    fun c ↦ ⟨UnicodeMap.character?_units c, UnicodeMap.units_cases c⟩⟩
  · rw [UnicodeMap.flatten_blocks]
    exact List.mergeSort_perm _ _
  · rw [UnicodeMap.flatten_blocks]
    exact UnicodeMap.pairwise_entries h.nodup_codes
  · obtain ⟨before, after, hlines, hother⟩ := UnicodeMap.exists_fields_text p.codes
    refine ⟨before, _, after, hlines.trans (by rw [List.flatMap_def]), hother, ?_⟩
    rw [List.forall₂_map_left_iff, List.forall₂_same]
    exact fun block hblock ↦
      UnicodeMap.presents_blockLines (UnicodeMap.lt_of_mem_blocks h.lt block hblock)

/-- A payload with gaps between its codes, and with a character of the upper planes. -/
def gappedFont : Payload where
  family := .sans
  baseFont := "MarkupSans"
  bytes := []
  kind := .full
  codes := [('A', 36), ('B', 40), ('𝄞', 37)]
  widths := [(0, 500), (36, 722), (37, 1000), (40, 667)]
  metrics := ⟨1000, ⟨750, -250⟩, 700, ⟨0, -250, 1000, 750⟩⟩

theorem tables_decode_gapped : gappedFont.IsTabular ∧
    WidthRun.ofWidths gappedFont.widths = [⟨0, [500]⟩, ⟨36, [722, 1000]⟩, ⟨40, [667]⟩] ∧
    (∃ items runs, WidthRun.ofItems? items = some runs ∧
      runs.flatMap WidthRun.expand = gappedFont.widths) ∧
    ∃ blocks, UnicodeMap.read? (UnicodeMap.text gappedFont.codes) = some blocks ∧
      blocks.flatten.Perm [(36, 'A'), (40, 'B'), (37, '𝄞')] ∧ units '𝄞' = [0xD834, 0xDD1E] := by
  have htabular : gappedFont.IsTabular :=
    ⟨by unfold IsAscending; decide, by unfold IsAscending; decide, by decide⟩
  obtain ⟨⟨items, runs, -, hruns, -, hwidths, -⟩, ⟨blocks, hread, hcodes, -⟩, -⟩ :=
    tables_decode htabular
  exact ⟨htabular, rfl, ⟨items, runs, hruns, hwidths⟩, blocks, hread, hcodes, by decide⟩

end Export

end Marginalia
