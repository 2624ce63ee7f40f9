import Marginalia.Export.FontObjects
import Marginalia.Font.Sample
import Marginalia.Proofs.Decimal.Reading
import Marginalia.Proofs.Export.Codes
import Marginalia.Proofs.Text.Cutting

/-!
# From codes back to characters

Whoever takes text out of a document reads codes through the table that stands beside the font. The
table says all that a payload knows, line by line, but it is no function where the font draws two
characters with one glyph: they share a code, and the table lists both. A text comes back from every
reader exactly when none of its characters shares its glyph with another character in use.
-/

namespace Marginalia

namespace Export

open Font (Asset Face Payload)

namespace UnicodeMap

/-! ## Reading a table -/

/-- The number of entries that the first line of a block announces. -/
def announced? (line : List Char) : Option Nat := do
  let (count, rest) ← Text.splitAtFirst? (' ' :: "beginbfchar".toList) line
  if rest = [] then Decimal.ofDigits? count else none

/-- The code and the character of a line of a block. -/
def codedCharacter? (line : List Char) : Option (Nat × Char) := do
  let (code, rest) ← Text.splitAtFirst? ['>', ' ', '<'] (← Text.dropPrefix? ['<'] line)
  let (units, rest) ← Text.splitAtFirst? ['>'] rest
  match ← Operator.codes? code, rest with
  | [code], [] => return (code, ← character? (← Operator.codes? units))
  | _, _ => none

/-- The last line of a block. -/
def blockEnd : List Char := "endbfchar".toList

/-- The blocks among some lines; lines outside of blocks are passed over. -/
def blocksOf? : List (List Char) → Option (List (List (Nat × Char)))
  | [] => some []
  | line :: rest =>
    match announced? line with
    | none => blocksOf? rest
    | some count => do
      let block ← (rest.take count).mapM codedCharacter?
      if rest[count]? = some blockEnd then
        return block :: (← blocksOf? (rest.drop (count + 1)))
      else none
termination_by lines => lines.length
decreasing_by all_goals simp only [List.length_cons, List.length_drop]; omega

/-- The blocks that a table consists of; `none` when one of them is broken. -/
def read? (table : String) : Option (List (List (Nat × Char))) :=
  blocksOf? (Text.fields (· == '\n') table.toList)

/-! ## Characters in units -/

theorem toNat_lt (c : Char) : c.toNat < 0x110000 := by
  rcases c.valid with hlow | ⟨-, hhigh⟩
  · exact Nat.lt_trans hlow (by decide)
  · exact hhigh

theorem lt_of_mem_units {c : Char} : ∀ n ∈ units c, n < 0x10000 := by
  intro n hn
  have hc := toNat_lt c
  unfold units at hn
  split at hn
  · next hsmall =>
    obtain rfl := List.mem_singleton.mp hn
    exact hsmall
  · rcases List.mem_pair.mp hn with hhigh | hlow <;> omega

/-- A pair of surrogates stands for its character alone. -/
theorem character?_units (c : Char) : character? (units c) = some c := by
  have hc := toNat_lt c
  unfold units
  split
  · have hvalid : c.toNat.isValidChar := c.valid
    rw [character?, dif_pos hvalid]
    exact congrArg some (Char.ext UInt32.ofNat_toNat)
  · next hlarge =>
    have hpair : 0xD800 ≤ 0xD800 + (c.toNat - 0x10000) / 0x400 ∧
        0xD800 + (c.toNat - 0x10000) / 0x400 < 0xDC00 ∧
        0xDC00 ≤ 0xDC00 + (c.toNat - 0x10000) % 0x400 ∧
        0xDC00 + (c.toNat - 0x10000) % 0x400 < 0xE000 := by
      omega
    have hvalue : 0x10000 + (0xD800 + (c.toNat - 0x10000) / 0x400 - 0xD800) * 0x400 +
        (0xDC00 + (c.toNat - 0x10000) % 0x400 - 0xDC00) = c.toNat := by
      omega
    rw [character?, if_pos hpair, hvalue, Char.ofNat_toNat]

/-! ## A table read back -/

theorem mem_codesText {codes : List Nat} {c : Char} (h : c ∈ (Operator.codesText codes).toList) :
    c ∈ "0123456789ABCDEF".toList := by
  have hdigit : ∀ d < 16, (Decimal.hexChar d).toUpper ∈ "0123456789ABCDEF".toList := by decide
  rw [Operator.codesText, String.toList_ofList] at h
  obtain ⟨code, -, hcode⟩ := List.mem_flatMap.mp h
  have hlow (n : Nat) := hdigit (n % 16) (Nat.mod_lt n (by decide))
  simp only [Operator.codeDigits, Decimal.hexDigits, List.nil_append, List.cons_append, List.map,
    List.mem_cons, List.not_mem_nil, or_false] at hcode
  rcases hcode with rfl | rfl | rfl | rfl <;> exact hlow _

theorem not_mem_codesText (codes : List Nat) : '>' ∉ (Operator.codesText codes).toList :=
  fun hmem ↦ absurd (mem_codesText hmem) (by decide)

/-- The line of an entry without its end. -/
def entryCharacters (entry : Nat × Char) : List Char :=
  ['<'] ++ ((Operator.codesText [entry.1]).toList ++ (['>', ' ', '<'] ++
    ((Operator.codesText (units entry.2)).toList ++ (['>'] ++ []))))

theorem toList_entryLine (entry : Nat × Char) :
    (entryLine entry).toList = entryCharacters entry ++ ['\n'] := by
  simp [entryLine, entryCharacters]

theorem codedCharacter?_entryCharacters {entry : Nat × Char} (h : entry.1 < 0x10000) :
    codedCharacter? (entryCharacters entry) = some entry := by
  have hcode : Operator.codes? (Operator.codesText [entry.1]).toList = some [entry.1] :=
    codes?_codesText (by simpa using h)
  have hunits : Operator.codes? (Operator.codesText (units entry.2)).toList =
      some (units entry.2) :=
    codes?_codesText lt_of_mem_units
  rw [codedCharacter?, entryCharacters, Text.dropPrefix?_eq_some_iff.mpr rfl, Option.bind_eq_bind,
    Option.bind_some, Text.splitAtFirst?_append (not_mem_codesText _)]
  dsimp only [Option.bind_eq_bind, Option.bind_some]
  rw [Text.splitAtFirst?_append (not_mem_codesText _), Option.bind_some, hcode]
  dsimp only [Option.bind_some]
  rw [hunits, Option.bind_some, character?_units]
  rfl

theorem mapM_entryCharacters {block : List (Nat × Char)} (h : ∀ entry ∈ block, entry.1 < 0x10000) :
    (block.map entryCharacters).mapM codedCharacter? = some block := by
  induction block with
  | nil => rfl
  | cons entry rest ih =>
    obtain ⟨hentry, hrest⟩ := List.forall_mem_cons.mp h
    rw [List.map_cons, List.mapM_cons, codedCharacter?_entryCharacters hentry, ih hrest]
    rfl

/-- The lines of a block without their ends. -/
def blockLines (block : List (Nat × Char)) : List (List Char) :=
  (Decimal.digits block.length ++ (' ' :: "beginbfchar".toList ++ [])) ::
    (block.map entryCharacters ++ [blockEnd])

theorem toList_blockText (block : List (Nat × Char)) :
    (blockText block).toList = (blockLines block).flatMap (· ++ ['\n']) := by
  have hbegin : " beginbfchar\n".toList = ' ' :: "beginbfchar".toList ++ [] ++ ['\n'] := by
    decide +kernel
  have hend : "endbfchar\n".toList = blockEnd ++ ['\n'] := by decide +kernel
  have hentries : (String.join (block.map entryLine)).toList =
      (block.map entryCharacters).flatMap (· ++ ['\n']) := by
    rw [String.toList_join, List.flatMap_map, List.flatMap_map]
    simp only [toList_entryLine]
  rw [blockText, String.toList_append, String.toList_append, String.toList_append, hbegin, hend,
    hentries, Decimal.text, String.toList_ofList, blockLines, List.flatMap_cons,
    List.flatMap_append, List.flatMap_singleton]
  simp only [List.append_assoc]

theorem newline_not_mem_blockLines (block : List (Nat × Char)) :
    ∀ line ∈ blockLines block, '\n' ∉ line := by
  have hcodes (codes : List Nat) : '\n' ∉ (Operator.codesText codes).toList :=
    fun hmem ↦ absurd (mem_codesText hmem) (by decide)
  have hdigits : '\n' ∉ Decimal.digits block.length :=
    fun hmem ↦ absurd (Decimal.isDigit_of_mem_digits hmem) (by decide)
  have hbegin : '\n' ∉ ' ' :: "beginbfchar".toList ++ [] := by decide +kernel
  have hend : '\n' ∉ blockEnd := by decide +kernel
  intro line hline
  rcases List.mem_cons.mp hline with rfl | hline
  · exact fun hmem ↦ (List.mem_append.mp hmem).elim hdigits hbegin
  · rcases List.mem_append.mp hline with hentry | hlast
    · obtain ⟨entry, -, rfl⟩ := List.mem_map.mp hentry
      simp [entryCharacters, hcodes]
    · exact List.mem_singleton.mp hlast ▸ hend

theorem fields_lines {lines : List (List Char)} (h : ∀ line ∈ lines, '\n' ∉ line)
    (rest : List Char) : Text.fields (· == '\n') (lines.flatMap (· ++ ['\n']) ++ rest) =
      lines ++ Text.fields (· == '\n') rest := by
  induction lines with
  | nil => rfl
  | cons line lines ih =>
    obtain ⟨hline, hlines⟩ := List.forall_mem_cons.mp h
    have hsingle : Text.fields (· == '\n') line = [line] :=
      Text.fields_of_forall fun c hc ↦ beq_false_of_ne fun heq ↦ hline (heq ▸ hc)
    rw [List.flatMap_cons, List.append_assoc, List.append_assoc, List.singleton_append,
      Text.fields_append rfl, hsingle, ih hlines]
    rfl

theorem fields_blocks (list : List (List (Nat × Char))) (rest : List Char) :
    Text.fields (· == '\n') ((String.join (list.map blockText)).toList ++ rest) =
      list.flatMap blockLines ++ Text.fields (· == '\n') rest := by
  have htext : (String.join (list.map blockText)).toList =
      (list.flatMap blockLines).flatMap (· ++ ['\n']) := by
    simp [List.flatMap_assoc, List.flatMap_map, toList_blockText]
  rw [htext, fields_lines]
  intro line hline
  obtain ⟨block, -, hblock⟩ := List.mem_flatMap.mp hline
  exact newline_not_mem_blockLines block line hblock

theorem announced?_count (count : Nat) :
    announced? (Decimal.digits count ++ (' ' :: "beginbfchar".toList ++ [])) = some count := by
  have hblank : ' ' ∉ Decimal.digits count :=
    fun hmem ↦ absurd (Decimal.isDigit_of_mem_digits hmem) (by decide)
  rw [announced?, Text.splitAtFirst?_append hblank]
  exact (Decimal.ofDigits?_eq (Decimal.digits_ne_nil count)).trans (Decimal.readOn_digits count)

theorem blocksOf?_other {lines : List (List Char)} (h : ∀ line ∈ lines, announced? line = none)
    (rest : List (List Char)) : blocksOf? (lines ++ rest) = blocksOf? rest := by
  induction lines with
  | nil => rfl
  | cons line lines ih =>
    obtain ⟨hline, hlines⟩ := List.forall_mem_cons.mp h
    rw [List.cons_append, blocksOf?, hline]
    exact ih hlines

/-- A text of whole lines none of which announces a block. -/
def IsPlain (s : String) : Prop :=
  s.toList.getLast? = some '\n' ∧ ∀ line ∈ Text.fields (· == '\n') s.toList, announced? line = none
deriving Decidable

/-- The lines of a text of whole lines that announces no blocks. -/
theorem exists_fields_plain {s : String} (h : IsPlain s) : ∃ lines : List (List Char),
    (∀ line ∈ lines, announced? line = none) ∧ ∀ rest,
      Text.fields (· == '\n') (s.toList ++ rest) = lines ++ Text.fields (· == '\n') rest := by
  obtain ⟨hlast, hlines⟩ := h
  obtain ⟨init, hinit⟩ := List.getLast?_eq_some_iff.mp hlast
  rw [hinit, Text.fields_append rfl, List.forall_mem_append] at hlines
  refine ⟨_, hlines.1, fun rest ↦ ?_⟩
  rw [hinit, List.append_assoc, List.singleton_append, Text.fields_append rfl]

theorem blocksOf?_plain {s : String} (h : IsPlain s) (rest : List Char) :
    blocksOf? (Text.fields (· == '\n') (s.toList ++ rest)) =
      blocksOf? (Text.fields (· == '\n') rest) := by
  obtain ⟨lines, hlines, hfields⟩ := exists_fields_plain h
  rw [hfields, blocksOf?_other hlines]

theorem blocksOf?_block {block : List (Nat × Char)} (h : ∀ entry ∈ block, entry.1 < 0x10000)
    (rest : List (List Char)) :
    blocksOf? (blockLines block ++ rest) = (blocksOf? rest).map (block :: ·) := by
  have htake : (block.map entryCharacters ++ [blockEnd] ++ rest).take block.length =
      block.map entryCharacters := by
    simp
  have hend : (block.map entryCharacters ++ [blockEnd] ++ rest)[block.length]? = some blockEnd := by
    simp
  have hdrop :
      (block.map entryCharacters ++ [blockEnd] ++ rest).drop (block.length + 1) = rest := by
    have hlength : block.length + 1 = (block.map entryCharacters ++ [blockEnd]).length := by simp
    rw [hlength, List.drop_left]
  rw [blockLines, List.cons_append, blocksOf?, announced?_count]
  simp only [htake, mapM_entryCharacters h, hend, hdrop]
  cases blocksOf? rest <;> rfl

theorem blocksOf?_blocks {list : List (List (Nat × Char))}
    (h : ∀ block ∈ list, ∀ entry ∈ block, entry.1 < 0x10000) (rest : List (List Char)) :
    blocksOf? (list.flatMap blockLines ++ rest) = (blocksOf? rest).map (list ++ ·) := by
  induction list with
  | nil => simp
  | cons block list ih =>
    obtain ⟨hblock, hlist⟩ := List.forall_mem_cons.mp h
    rw [List.flatMap_cons, List.append_assoc, blocksOf?_block hblock, ih hlist, Option.map_map]
    rfl

theorem flatten_blocks (list : List (Nat × Char)) : (blocks list).flatten = list := by
  induction list using blocks.induct with
  | case1 => rw [blocks]; rfl
  | case2 entry rest ih =>
    rw [blocks, List.flatten_cons, ih, List.cons_append, List.take_append_drop]

theorem mem_entries {codes : List (Char × Nat)} {code : Nat} {c : Char} :
    (code, c) ∈ entries codes ↔ (c, code) ∈ codes := by
  simp [entries]

theorem isPlain_opening : IsPlain opening := by
  unfold IsPlain opening
  rw [String.toList_append, String.toList_append, String.toList_append]
  repeat rw [String.toList_ofList]
  decide +kernel

theorem isPlain_closing : IsPlain closing := by
  unfold IsPlain closing
  rw [String.toList_ofList]
  decide +kernel

theorem lt_of_mem_blocks {codes : List (Char × Nat)} (h : ∀ entry ∈ codes, entry.2 < 0x10000) :
    ∀ block ∈ blocks (entries codes), ∀ entry ∈ block, entry.1 < 0x10000 := by
  intro block hblock entry hentry
  have hmem : entry ∈ entries codes :=
    flatten_blocks (entries codes) ▸ List.mem_flatten_of_mem hblock hentry
  exact h (entry.2, entry.1) (mem_entries.mp hmem)

/-- The table reads back as the blocks it was written from. -/
theorem read?_text {codes : List (Char × Nat)} (h : ∀ entry ∈ codes, entry.2 < 0x10000) :
    read? (text codes) = some (blocks (entries codes)) := by
  rw [read?, text, String.toList_append, String.toList_append, List.append_assoc,
    blocksOf?_plain isPlain_opening, fields_blocks, blocksOf?_blocks (lt_of_mem_blocks h),
    ← List.append_nil closing.toList, blocksOf?_plain isPlain_closing]
  simp [Text.fields, blocksOf?, announced?, Text.splitAtFirst?]

/-! ## Texts read back -/

/-- A way to read the codes of a table: for each code one of the characters that the table lists
for it. -/
structure Reads (table : List (Nat × Char)) (read : Nat → Option Char) : Prop where
  listed : ∀ {code c}, read code = some c → (code, c) ∈ table
  finds : ∀ {code c}, (code, c) ∈ table → (read code).isSome

/-- The text that codes are read as. -/
def textOf? (read : Nat → Option Char) (codes : List Nat) : Option String :=
  (codes.mapM read).map String.ofList

theorem reads_lookup (table : List (Nat × Char)) : Reads table fun code ↦ table.lookup code where
  listed := by
    intro code c h
    obtain ⟨before, after, htable, -⟩ := List.lookup_eq_some_iff.mp h
    simp [htable]
  finds := by
    intro code c h
    rw [List.lookup_isSome_iff]
    exact ⟨(code, c), h, beq_self_eq_true code⟩

/-- A code may be read as any of its characters. -/
theorem exists_reads {table : List (Nat × Char)} {code : Nat} {c : Char} (h : (code, c) ∈ table) :
    ∃ read, Reads table read ∧ read code = some c := by
  obtain ⟨hlisted, hfinds⟩ := reads_lookup table
  refine ⟨fun n ↦ if n = code then some c else table.lookup n, ⟨?_, ?_⟩, if_pos rfl⟩
  · intro n d hd
    split at hd
    · next hn => exact hn ▸ Option.some.inj hd ▸ h
    · exact hlisted hd
  · intro n d hd
    split
    · rfl
    · exact hfinds hd

theorem mapM_eq_some_iff {α β : Type} {read : α → Option β} {write : β → α} {bs : List β} :
    (bs.map write).mapM read = some bs ↔ ∀ b ∈ bs, read (write b) = some b := by
  induction bs with
  | nil => simp
  | cons b rest ih =>
    rw [List.map_cons, List.mapM_cons, List.forall_mem_cons, ← ih]
    cases read (write b) with
    | none => simp
    | some d => cases (rest.map write).mapM read <;> simp

theorem textOf?_encode_iff {read : Nat → Option Char} {p : Payload} {text : String} :
    textOf? read (p.encode text) = some text ↔
      ∀ c ∈ text.toList, read ((p.code? c).getD 0) = some c := by
  rw [← mapM_eq_some_iff, textOf?, Payload.encode]
  constructor
  · intro h
    obtain ⟨cs, hcs, rfl⟩ := Option.map_eq_some_iff.mp h
    rw [String.toList_ofList] at hcs ⊢
    exact hcs
  · intro h
    rw [h, Option.map_some, String.ofList_toList]

section Coded

variable {p : Payload} {f : Face} {characters : List Char} {table : List (Nat × Char)}
  {read : Nat → Option Char}

/-- A character that shares its glyph with no other in use is the only one of its code. -/
theorem Reads.eq_some (hread : Reads table read) (hcoded : p.IsCodedBy f characters)
    (htable : ∀ code c, (code, c) ∈ table ↔ p.code? c = some code) {c : Char}
    (hc : (p.code? c).isSome)
    (halone : ∀ other ∈ characters, f.glyph? other = f.glyph? c → other = c) :
    read ((p.code? c).getD 0) = some c := by
  obtain ⟨code, hcode⟩ := Option.isSome_iff_exists.mp hc
  obtain ⟨d, hd⟩ := Option.isSome_iff_exists.mp (hread.finds ((htable code c).mpr hcode))
  have hshared : p.code? d = some code := (htable code d).mp (hread.listed hd)
  have hused : d ∈ characters := ((hcoded.isSome_iff d).mp (by rw [hshared]; rfl)).1
  have hsame : d = c := halone d hused ((hcoded.eq_iff hshared hcode).mp rfl)
  rw [hcode, Option.getD_some, hd, hsame]

theorem code?_eq_of_glyph?_eq (hcoded : p.IsCodedBy f characters) {c other : Char} {code : Nat}
    (hcode : p.code? c = some code) (hother : other ∈ characters)
    (hglyph : f.glyph? other = f.glyph? c) : p.code? other = some code := by
  have hdrawn : (f.glyph? other).isSome := by
    rw [hglyph]
    exact ((hcoded.isSome_iff c).mp (by rw [hcode]; rfl)).2
  obtain ⟨number, hnumber⟩ :=
    Option.isSome_iff_exists.mp ((hcoded.isSome_iff other).mpr ⟨hother, hdrawn⟩)
  rw [hnumber, (hcoded.eq_iff hnumber hcode).mpr hglyph]

/-- Every reader reads a text exactly when its characters share no glyphs. -/
theorem forall_reads_iff (hcoded : p.IsCodedBy f characters)
    (htable : ∀ code c, (code, c) ∈ table ↔ p.code? c = some code) {text : String}
    (htext : ∀ c ∈ text.toList, (p.code? c).isSome) :
    (∀ read, Reads table read → textOf? read (p.encode text) = some text) ↔
      ∀ c ∈ text.toList, ∀ other ∈ characters, f.glyph? other = f.glyph? c → other = c := by
  constructor
  · intro h c hc other hother hglyph
    obtain ⟨code, hcode⟩ := Option.isSome_iff_exists.mp (htext c hc)
    obtain ⟨read, hread, hchosen⟩ := exists_reads ((htable code other).mpr
      (code?_eq_of_glyph?_eq hcoded hcode hother hglyph))
    have hc' := textOf?_encode_iff.mp (h read hread) c hc
    rw [hcode, Option.getD_some, hchosen] at hc'
    exact Option.some.inj hc'
  · intro halone read hread
    exact textOf?_encode_iff.mpr fun c hc ↦
      hread.eq_some hcoded htable (htext c hc) (halone c hc)

/-- No reader reads all texts when two characters share a glyph. -/
theorem forall_texts_iff (hread : Reads table read) (hcoded : p.IsCodedBy f characters)
    (htable : ∀ code c, (code, c) ∈ table ↔ p.code? c = some code) :
    (∀ text : String, (∀ c ∈ text.toList, (p.code? c).isSome) →
        textOf? read (p.encode text) = some text) ↔
      ∀ c ∈ characters, ∀ other ∈ characters, (f.glyph? c).isSome →
        f.glyph? other = f.glyph? c → other = c := by
  constructor
  · intro h c hc other hother hdrawn hglyph
    obtain ⟨code, hcode⟩ :=
      Option.isSome_iff_exists.mp ((hcoded.isSome_iff c).mpr ⟨hc, hdrawn⟩)
    have hsingle : ∀ d, p.code? d = some code → read code = some d := by
      intro d hd
      have hcoded : ∀ e ∈ (String.singleton d).toList, (p.code? e).isSome := by simp [hd]
      have hread := textOf?_encode_iff.mp (h (String.singleton d) hcoded) d (by simp)
      rwa [hd, Option.getD_some] at hread
    have hother := hsingle other (code?_eq_of_glyph?_eq hcoded hcode hother hglyph)
    exact Option.some.inj (hother.symm.trans (hsingle c hcode))
  · intro halone text htext
    refine textOf?_encode_iff.mpr fun c hc ↦ hread.eq_some hcoded htable (htext c hc) ?_
    obtain ⟨hused, hdrawn⟩ := (hcoded.isSome_iff c).mp (htext c hc)
    exact fun other hother ↦ halone c hused other hother hdrawn

end Coded

theorem mem_flatten_blocks (p : Payload) {f : Face} {characters : List Char}
    (hcoded : p.IsCodedBy f characters) (code : Nat) (c : Char) :
    (code, c) ∈ (blocks (entries p.codes)).flatten ↔ p.code? c = some code := by
  rw [flatten_blocks, mem_entries, hcoded.mem_codes_iff]

theorem read?_payload {p : Payload} {f : Face} {characters : List Char}
    (hcoded : p.IsCodedBy f characters) :
    read? (text p.codes) = some (blocks (entries p.codes)) :=
  read?_text fun _ hentry ↦ hcoded.lt (hcoded.mem_codes_iff.mp hentry)

end UnicodeMap

open UnicodeMap (Reads textOf?)

/-- The table of a payload reads back as what the payload knows. A text of characters with codes
comes back whatever the reader takes for a code exactly when none of its characters shares its glyph
with another character in use; and some reader gets all texts back only where no two characters in
use share a glyph. -/
theorem text_reads_back {asset : Asset} {characters : List Char} {p : Payload}
    (hbuilt : Payload.build? asset characters = some p) :
    ∃ f blocks, Face.ofBytes? asset.bytes = some f ∧
      (∀ c, (p.code? c).isSome ↔ c ∈ characters ∧ (f.glyph? c).isSome) ∧
      UnicodeMap.read? (UnicodeMap.text p.codes) = some blocks ∧
      (∀ code c, (code, c) ∈ blocks.flatten ↔ p.code? c = some code) ∧
      (∃ read, Reads blocks.flatten read) ∧
      (∀ text : String, (∀ c ∈ text.toList, (p.code? c).isSome) →
        ((∀ read, Reads blocks.flatten read → textOf? read (p.encode text) = some text) ↔
          ∀ c ∈ text.toList, ∀ other ∈ characters, f.glyph? other = f.glyph? c → other = c)) ∧
      ∀ read, Reads blocks.flatten read →
        ((∀ text : String, (∀ c ∈ text.toList, (p.code? c).isSome) →
            textOf? read (p.encode text) = some text) ↔
          ∀ c ∈ characters, ∀ other ∈ characters, (f.glyph? c).isSome →
            f.glyph? other = f.glyph? c → other = c) := by
  obtain ⟨f, hf, hcoded⟩ := Payload.isCodedBy_of_build? hbuilt
  have htable := UnicodeMap.mem_flatten_blocks p hcoded
  exact ⟨f, _, hf, hcoded.isSome_iff, UnicodeMap.read?_payload hcoded, htable,
    ⟨_, UnicodeMap.reads_lookup _⟩,
    fun text htext ↦ UnicodeMap.forall_reads_iff hcoded htable htext,
    fun read hread ↦ UnicodeMap.forall_texts_iff hread hcoded htable⟩

open Font (Directory putDoubleWord putWord)

/-- The payload of some characters of a font. -/
def payloadOf? (font : Bytes) (characters : List Char) : Option Payload :=
  (Asset.ofBytes? .serif font).bind fun asset ↦ Payload.build? asset characters

theorem bytes_of_ofBytes? {family : FontFamily} {bytes : Bytes} {asset : Asset}
    (h : Asset.ofBytes? family bytes = some asset) : asset.bytes = bytes := by
  obtain ⟨f, -, hasset⟩ := Option.bind_eq_some_iff.mp h
  obtain rfl := Option.some.inj hasset
  rfl

/-- The sample font draws its letters with glyphs of their own. -/
theorem text_reads_back_sample :
    ∃ p blocks, payloadOf? Font.Sample.font ['A', 'e'] = some p ∧
      UnicodeMap.read? (UnicodeMap.text p.codes) = some blocks ∧
      ∀ read, Reads blocks.flatten read → textOf? read (p.encode "Ae") = some "Ae" := by
  have hbuilds : (payloadOf? Font.Sample.font ['A', 'e']).isSome := by decide +kernel
  have hglyphs : (Face.ofBytes? Font.Sample.font).map (fun f ↦ (f.glyph? 'A', f.glyph? 'e')) =
      some (some 2, some 5) := by
    decide +kernel
  obtain ⟨p, hp⟩ := Option.isSome_iff_exists.mp hbuilds
  obtain ⟨asset, hasset, hbuilt⟩ := Option.bind_eq_some_iff.mp hp
  obtain ⟨f, blocks, hf, hused, hread, -, -, hall, -⟩ := text_reads_back hbuilt
  rw [bytes_of_ofBytes? hasset] at hf
  rw [hf] at hglyphs
  obtain ⟨hA, he⟩ := Prod.mk.inj (Option.some.inj hglyphs)
  refine ⟨p, blocks, hp, hread, (hall "Ae" fun c hc ↦ (hused c).mpr ?_).mpr fun c hc other ho ↦ ?_⟩
  · have hmem : c = 'A' ∨ c = 'e' := by simpa using hc
    rcases hmem with rfl | rfl
    · exact ⟨by decide, by rw [hA]; rfl⟩
    · exact ⟨by decide, by rw [he]; rfl⟩
  · have hmem : c = 'A' ∨ c = 'e' := by simpa using hc
    have hother : other = 'A' ∨ other = 'e' := by simpa using ho
    rcases hmem with rfl | rfl <;> rcases hother with rfl | rfl <;> simp [hA, he]

/-- A character map that gives the letters `A` of two scripts one glyph. -/
def twinCharmap : Bytes :=
  [0, 1, 3, 10].flatMap putWord ++ putDoubleWord 12 ++ [12, 0].flatMap putWord ++
    [40, 0, 2, 0x41, 0x41, 2, 0x391, 0x391, 2].flatMap putDoubleWord

/-- The sample font with that character map. -/
def twinFont : Bytes :=
  Directory.toBytes ⟨[
    ("cmap", twinCharmap),
    ("glyf", Font.Sample.outlines.flatten),
    ("head", Font.Sample.header),
    ("hhea", Font.Sample.horizontalHeader),
    ("hmtx", Font.Sample.metrics),
    ("loca", Font.Sample.locations),
    ("maxp", Font.Sample.profile)]⟩

/-- Both letters have a code, the same one, and no reader gets a text with both of them back. -/
theorem twins_misread :
    ∃ p blocks, payloadOf? twinFont ['A', 'Α'] = some p ∧ p.kind = .subset ∧
      p.codes = [('A', 1), ('Α', 1)] ∧
      UnicodeMap.read? (UnicodeMap.text p.codes) = some blocks ∧
      ∀ read, Reads blocks.flatten read → textOf? read (p.encode "AΑ") ≠ some "AΑ" := by
  have hparts : (payloadOf? twinFont ['A', 'Α']).map (fun p ↦ (p.kind, p.codes)) =
      some (.subset, [('A', 1), ('Α', 1)]) := by
    decide +kernel
  obtain ⟨p, hp, hparts⟩ := Option.map_eq_some_iff.mp hparts
  obtain ⟨hkind, hcodes⟩ := Prod.mk.inj hparts
  obtain ⟨asset, -, hbuilt⟩ := Option.bind_eq_some_iff.mp hp
  obtain ⟨f, -, hcoded⟩ := Payload.isCodedBy_of_build? hbuilt
  refine ⟨p, _, hp, hkind, hcodes, UnicodeMap.read?_payload hcoded, fun read _ hread ↦ ?_⟩
  have hfirst := UnicodeMap.textOf?_encode_iff.mp hread 'A' (by decide)
  have hsecond := UnicodeMap.textOf?_encode_iff.mp hread 'Α' (by decide)
  have hshared : p.code? 'A' = p.code? 'Α' := by
    rw [Payload.code?, Payload.code?, hcodes]
    rfl
  rw [hshared] at hfirst
  exact absurd (Option.some.inj (hfirst.symm.trans hsecond)) (by decide)

end Export

end Marginalia
