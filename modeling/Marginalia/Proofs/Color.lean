import Marginalia.Color
import Marginalia.Proofs.Text.Slices
import Marginalia.Proofs.Text.Trimming

/-!
# Colours read back

The text of a colour is read as that colour. What is read is a number sign and six hexadecimal
digits of either case, and the colour has that text in lower case. In the place of a high digit a
plus sign is taken for zero, because a channel is read as a number with an optional sign. Nothing
else is read, and no text makes the reader cut a character in two.
-/

namespace Marginalia

namespace Decimal

/-- A hexadecimal digit of either case. -/
def IsHexDigit (c : Char) : Prop :=
  ('0' ≤ c ∧ c ≤ '9') ∨ ('a' ≤ c ∧ c ≤ 'f') ∨ ('A' ≤ c ∧ c ≤ 'F')

instance (c : Char) : Decidable (IsHexDigit c) :=
  inferInstanceAs (Decidable (_ ∨ _))

theorem exists_hexValue? {c : Char} (h : IsHexDigit c) : ∃ d, hexValue? c = some d := by
  unfold hexValue?
  split
  · exact ⟨_, rfl⟩
  · next hdigit =>
    split
    · exact ⟨_, rfl⟩
    · next hlower =>
      rw [if_pos ((h.resolve_left hdigit).resolve_left hlower)]
      exact ⟨_, rfl⟩

theorem isHexDigit_of_hexValue? {c : Char} {d : Nat} (h : hexValue? c = some d) :
    IsHexDigit c := by
  unfold hexValue? at h
  split at h
  · next hdigit => exact .inl hdigit
  · split at h
    · next hlower => exact .inr (.inl hlower)
    · split at h
      · next hupper => exact .inr (.inr hupper)
      · cases h

/-- Hexadecimal digits are among the first characters. -/
theorem IsHexDigit.toNat_lt {c : Char} (h : IsHexDigit c) : c.toNat < 103 := by
  have bound (last : Char) (hlast : last.toNat < 103) (hle : c ≤ last) : c.toNat < 103 :=
    Nat.lt_of_le_of_lt hle hlast
  rcases h with ⟨-, hle⟩ | ⟨-, hle⟩ | ⟨-, hle⟩
  · exact bound '9' (by decide) hle
  · exact bound 'f' (by decide) hle
  · exact bound 'F' (by decide) hle

/-- The value of a digit has that digit in lower case. -/
theorem hexChar_of_hexValue? {c : Char} {d : Nat} (h : hexValue? c = some d) :
    d < 16 ∧ hexChar d = Text.lowerAscii c := by
  have hall : ∀ n < 103, ∀ d ∈ hexValue? (Char.ofNat n),
      d < 16 ∧ hexChar d = Text.lowerAscii (Char.ofNat n) := by decide
  have hc := hall c.toNat (isHexDigit_of_hexValue? h).toNat_lt d
  rw [Char.ofNat_toNat] at hc
  exact hc h

/-- The number that hexadecimal digits stand for, of which there is at least one. -/
def hexNumber? : List Char → Option Nat
  | [] => none
  | cs => cs.foldl (fun acc c ↦ do some ((← acc) * 16 + (← hexValue? c))) (some 0)

/-- Read a byte: hexadecimal digits, perhaps after a plus sign, of a number that fits one. -/
def byteOfHex? (s : List Char) : Option UInt8 := do
  let n ← hexNumber? (match s with | '+' :: rest => rest | _ => s)
  if n < 0x100 then some (UInt8.ofNat n) else none

end Decimal

namespace Color

open Decimal
open Text (lowerAscii trim)

theorem isBlank_hexChar {d : Nat} (h : d < 16) : Text.isBlank (hexChar d) = false := by
  have hall : ∀ d < 16, Text.isBlank (hexChar d) = false := by decide
  exact hall d h

theorem hexChar_ne_plus {d : Nat} (h : d < 16) : hexChar d ≠ '+' := by
  have hall : ∀ d < 16, hexChar d ≠ '+' := by decide
  exact hall d h

/-- A channel is read from its two digits. -/
theorem channel?_hexChar (channel : UInt8) :
    channel? (hexChar (channel.toNat / 16 % 16)) (hexChar (channel.toNat % 16)) =
      some channel := by
  have hhigh : channel.toNat / 16 % 16 < 16 := Nat.mod_lt _ (by decide)
  have hlow : channel.toNat % 16 < 16 := Nat.mod_lt _ (by decide)
  have hvalue : channel.toNat / 16 % 16 * 16 + channel.toNat % 16 = channel.toNat := by
    have := channel.toNat_lt
    omega
  rw [channel?, (hexValue?_hexChar hlow).1, (hexValue?_hexChar hhigh).1]
  simp only [bind, Option.bind_some, if_neg (hexChar_ne_plus hhigh), hvalue, UInt8.ofNat_toNat]
  rfl

/-- The text of a colour is read as that colour. -/
@[simp] theorem parse_hex (c : Color) : parse c.hex = .ok c := by
  have hlast := isBlank_hexChar (Nat.mod_lt c.blue.toNat (by decide : 0 < 16))
  have htrim : Text.trim c.hex.toList = c.hex.toList := by
    have hhex : c.hex.toList = '#' :: ([c.red, c.green].flatMap (fun channel ↦
        hexDigits 2 channel.toNat) ++ [hexChar (c.blue.toNat / 16 % 16)] ++
          [hexChar (c.blue.toNat % 16)]) := by
      simp [hex, hexDigits]
    rw [hhex, Text.trim, Text.trimStart_cons rfl, ← List.cons_append, Text.trimEnd_concat hlast]
  rw [parse, htrim]
  simp [hex, hexDigits, ofChars?, channel?_hexChar]

/-! ## Spellings -/

/-- The text of a colour: a number sign and six hexadecimal digits. -/
def IsText (s : List Char) : Prop :=
  ∃ digits, s = '#' :: digits ∧ digits.length = 6 ∧ ∀ c ∈ digits, IsHexDigit c

/-- A text of a colour which, in lower case, is the one that the colour has. -/
structure IsSpelling (s : List Char) (c : Color) : Prop where
  isText : IsText s
  lower : s.map lowerAscii = c.hex.toList

/-- The digit that a character in the place of a high digit is taken for. -/
def unsigned (c : Char) : Char := if c = '+' then '0' else c

/-- The text with zeros for the plus signs in the places of high digits. -/
def withoutPlus : List Char → List Char
  | ['#', r₁, r₀, g₁, g₀, b₁, b₀] => ['#', unsigned r₁, r₀, unsigned g₁, g₀, unsigned b₁, b₀]
  | s => s

theorem unsigned_of_ne {c : Char} (h : c ≠ '+') : unsigned c = c := if_neg h

theorem withoutPlus_of_not_mem {s : List Char} (h : '+' ∉ s) : withoutPlus s = s := by
  unfold withoutPlus
  split
  · next r₁ r₀ g₁ g₀ b₁ b₀ =>
    simp only [List.mem_cons, not_or] at h
    obtain ⟨-, hr, -, hg, -, hb, -⟩ := h
    rw [unsigned_of_ne (Ne.symm hr), unsigned_of_ne (Ne.symm hg), unsigned_of_ne (Ne.symm hb)]
  · rfl

/-- A plus sign counts as zero, and other characters for themselves. -/
theorem channel?_unsigned (high low : Char) : channel? (unsigned high) low = channel? high low := by
  by_cases h : high = '+'
  · subst h
    cases hlow : hexValue? low with
    | none => simp [channel?, hlow]
    | some l =>
      have hzero : hexValue? '0' = some 0 := by decide
      simp [channel?, hlow, unsigned, hzero]
  · rw [unsigned_of_ne h]

theorem channel?_of_ne_plus {high low : Char} (h : high ≠ '+') : channel? high low =
    (hexValue? low).bind fun l ↦ (hexValue? high).map fun h ↦ UInt8.ofNat (h * 16 + l) := by
  cases hlow : hexValue? low with
  | none => simp [channel?, hlow]
  | some l => cases hhigh : hexValue? high <;> simp [channel?, hlow, hhigh, h]

/-- Two characters are the digits of a channel, in either case. -/
structure AreDigits (high low : Char) (channel : UInt8) : Prop where
  highDigit : IsHexDigit high
  lowDigit : IsHexDigit low
  lower : [lowerAscii high, lowerAscii low] = hexDigits 2 channel.toNat

theorem areDigits_of_channel? {high low : Char} {channel : UInt8} (hne : high ≠ '+')
    (h : channel? high low = some channel) : AreDigits high low channel := by
  rw [channel?_of_ne_plus hne] at h
  obtain ⟨l, hl, h⟩ := Option.bind_eq_some_iff.mp h
  obtain ⟨k, hk, rfl⟩ := Option.map_eq_some_iff.mp h
  obtain ⟨hlLt, hlChar⟩ := hexChar_of_hexValue? hl
  obtain ⟨hkLt, hkChar⟩ := hexChar_of_hexValue? hk
  refine ⟨isHexDigit_of_hexValue? hk, isHexDigit_of_hexValue? hl, ?_⟩
  have hvalue : (UInt8.ofNat (k * 16 + l)).toNat = k * 16 + l := by
    rw [UInt8.toNat_ofNat']
    omega
  have hhigh : (k * 16 + l) / 16 % 16 = k := by omega
  have hlow : (k * 16 + l) % 16 = l := by omega
  rw [hvalue, ← hkChar, ← hlChar]
  simp only [hexDigits, hhigh, hlow, List.nil_append, List.singleton_append]

/-- Two digits stand for one channel only. -/
theorem AreDigits.unique {high low : Char} {a b : UInt8} (ha : AreDigits high low a)
    (hb : AreDigits high low b) : a = b := by
  have hsame := ha.lower.symm.trans hb.lower
  obtain ⟨hhigh, hlow⟩ : hexChar (a.toNat / 16 % 16) = hexChar (b.toNat / 16 % 16) ∧
      hexChar (a.toNat % 16) = hexChar (b.toNat % 16) := by simpa [hexDigits] using hsame
  have hread := channel?_hexChar a
  rw [hhigh, hlow, channel?_hexChar] at hread
  exact (Option.some.inj hread).symm

theorem exists_areDigits {high low : Char} (hhigh : IsHexDigit high) (hlow : IsHexDigit low) :
    ∃ channel, channel? high low = some channel ∧ AreDigits high low channel := by
  obtain ⟨h, hh⟩ := exists_hexValue? hhigh
  obtain ⟨l, hl⟩ := exists_hexValue? hlow
  have hne : high ≠ '+' := by
    rintro rfl
    exact absurd hhigh (by decide)
  have hread : channel? high low = some (UInt8.ofNat (h * 16 + l)) := by
    rw [channel?_of_ne_plus hne, hl, hh]
    rfl
  exact ⟨_, hread, areDigits_of_channel? hne hread⟩

/-- A channel is read exactly from its digits, a plus sign being taken for zero. -/
theorem channel?_eq_some_iff {high low : Char} {channel : UInt8} :
    channel? high low = some channel ↔ AreDigits (unsigned high) low channel := by
  have hne : unsigned high ≠ '+' := by
    by_cases h : high = '+'
    · subst h
      decide
    · rwa [unsigned_of_ne h]
  rw [← channel?_unsigned]
  constructor
  · exact areDigits_of_channel? hne
  · intro h
    obtain ⟨other, hread, hother⟩ := exists_areDigits h.highDigit h.lowDigit
    rw [hread, hother.unique h]

theorem toList_hex (c : Color) : c.hex.toList =
    '#' :: (hexDigits 2 c.red.toNat ++
      (hexDigits 2 c.green.toNat ++ hexDigits 2 c.blue.toNat)) := by
  simp [hex]

/-- A spelling consists of the digits of the channels. -/
theorem isSpelling_iff {r₁ r₀ g₁ g₀ b₁ b₀ : Char} {c : Color} :
    IsSpelling ['#', r₁, r₀, g₁, g₀, b₁, b₀] c ↔
      AreDigits r₁ r₀ c.red ∧ AreDigits g₁ g₀ c.green ∧ AreDigits b₁ b₀ c.blue := by
  have hsign : lowerAscii '#' = '#' := by decide
  have hlower : ['#', r₁, r₀, g₁, g₀, b₁, b₀].map lowerAscii = c.hex.toList ↔
      [lowerAscii r₁, lowerAscii r₀] = hexDigits 2 c.red.toNat ∧
      [lowerAscii g₁, lowerAscii g₀] = hexDigits 2 c.green.toNat ∧
      [lowerAscii b₁, lowerAscii b₀] = hexDigits 2 c.blue.toNat := by
    simp [toList_hex, hexDigits, hsign, and_assoc]
  constructor
  · rintro ⟨⟨digits, hdigits, -, hhex⟩, htext⟩
    obtain rfl := List.tail_eq_of_cons_eq hdigits
    simp only [List.forall_mem_cons] at hhex
    obtain ⟨hr₁, hr₀, hg₁, hg₀, hb₁, hb₀, -⟩ := hhex
    obtain ⟨hred, hgreen, hblue⟩ := hlower.mp htext
    exact ⟨⟨hr₁, hr₀, hred⟩, ⟨hg₁, hg₀, hgreen⟩, hb₁, hb₀, hblue⟩
  · rintro ⟨⟨hr₁, hr₀, hred⟩, ⟨hg₁, hg₀, hgreen⟩, hb₁, hb₀, hblue⟩
    refine ⟨⟨_, rfl, rfl, ?_⟩, hlower.mpr ⟨hred, hgreen, hblue⟩⟩
    simp [hr₁, hr₀, hg₁, hg₀, hb₁, hb₀]

theorem exists_digits_eq {digits : List Char} (h : digits.length = 6) :
    ∃ r₁ r₀ g₁ g₀ b₁ b₀, digits = [r₁, r₀, g₁, g₀, b₁, b₀] := by
  match digits, h with
  | [r₁, r₀, g₁, g₀, b₁, b₀], _ => exact ⟨r₁, r₀, g₁, g₀, b₁, b₀, rfl⟩

/-- Every text of a colour is the spelling of one. -/
theorem exists_isSpelling {s : List Char} (h : IsText s) : ∃ c, IsSpelling s c := by
  obtain ⟨digits, rfl, hlength, hhex⟩ := h
  obtain ⟨r₁, r₀, g₁, g₀, b₁, b₀, rfl⟩ := exists_digits_eq hlength
  simp only [List.forall_mem_cons] at hhex
  obtain ⟨hr₁, hr₀, hg₁, hg₀, hb₁, hb₀, -⟩ := hhex
  obtain ⟨red, -, hred⟩ := exists_areDigits hr₁ hr₀
  obtain ⟨green, -, hgreen⟩ := exists_areDigits hg₁ hg₀
  obtain ⟨blue, -, hblue⟩ := exists_areDigits hb₁ hb₀
  exact ⟨⟨red, green, blue⟩, isSpelling_iff.mpr ⟨hred, hgreen, hblue⟩⟩

/-- What is read as a colour is a spelling of it, but for plus signs in the places of zeros. -/
theorem ofChars?_eq_some_iff {s : List Char} {c : Color} :
    ofChars? s = some c ↔ IsSpelling (withoutPlus s) c := by
  unfold ofChars?
  split
  · next r₁ r₀ g₁ g₀ b₁ b₀ =>
    rw [withoutPlus, isSpelling_iff, ← channel?_eq_some_iff, ← channel?_eq_some_iff,
      ← channel?_eq_some_iff]
    obtain ⟨red, green, blue⟩ := c
    cases channel? r₁ r₀ <;> cases channel? g₁ g₀ <;> cases channel? b₁ b₀ <;> simp
  · next hshape =>
    have hsame : withoutPlus s = s := by
      unfold withoutPlus
      split
      · next r₁ r₀ g₁ g₀ b₁ b₀ => exact absurd rfl (hshape r₁ r₀ g₁ g₀ b₁ b₀)
      · rfl
    refine iff_of_false (by simp) fun h ↦ ?_
    obtain ⟨digits, hdigits, hlength, -⟩ := h.isText
    rw [hsame] at hdigits
    obtain ⟨r₁, r₀, g₁, g₀, b₁, b₀, rfl⟩ := exists_digits_eq hlength
    exact hshape r₁ r₀ g₁ g₀ b₁ b₀ hdigits

theorem parse_eq_ok_iff {text : String} {c : Color} :
    parse text = .ok c ↔ IsSpelling (withoutPlus (trim text.toList)) c := by
  rw [parse, ← ofChars?_eq_some_iff]
  cases ofChars? (trim text.toList) <;> simp

/-- A text that is not read is given back in the error. -/
theorem parse_cases (text : String) :
    parse text = .error ⟨text⟩ ∨ ∃ c, parse text = .ok c := by
  unfold parse
  split
  · next c _ => exact .inr ⟨c, rfl⟩
  · exact .inl rfl

/-! ## Byte positions -/

/-- The reader of colours by byte positions: the digits are cut into three parts of two bytes, each
of which is read as a number. A cut within a character leaves no outcome. -/
def parseCutting (text : String) : Option (Except ColorError Color) :=
  match trim text.toList with
  | '#' :: digits =>
    if Text.byteLength digits = 6 ∧ digits.all Text.isAscii then do
      let red ← Text.slice? 0 2 digits
      let green ← Text.slice? 2 4 digits
      let blue ← Text.slice? 4 6 digits
      match byteOfHex? red, byteOfHex? green, byteOfHex? blue with
      | some red, some green, some blue => return .ok ⟨red, green, blue⟩
      | _, _, _ => return .error ⟨text⟩
    else some (.error ⟨text⟩)
  | _ => some (.error ⟨text⟩)

/-- A number of two characters is a channel. -/
theorem byteOfHex?_pair (high low : Char) : byteOfHex? [high, low] = channel? high low := by
  by_cases h : high = '+'
  · subst h
    cases hlow : hexValue? low with
    | none => simp [byteOfHex?, hexNumber?, channel?, hlow]
    | some l =>
      have hlt : l < 256 := Nat.lt_trans (hexChar_of_hexValue? hlow).1 (by decide)
      simp [byteOfHex?, hexNumber?, channel?, hlow, hlt]
  · rw [channel?_of_ne_plus h]
    cases hhigh : hexValue? high with
    | none => cases hexValue? low <;> simp [byteOfHex?, hexNumber?, hhigh, h]
    | some k =>
      cases hlow : hexValue? low with
      | none => simp [byteOfHex?, hexNumber?, hhigh, hlow, h]
      | some l =>
        have hk := (hexChar_of_hexValue? hhigh).1
        have hl := (hexChar_of_hexValue? hlow).1
        have hlt : k * 16 + l < 256 := by omega
        simp [byteOfHex?, hexNumber?, hhigh, hlow, h, hlt]

theorem isAscii_of_channel? {high low : Char} {channel : UInt8}
    (h : channel? high low = some channel) :
    Text.isAscii high = true ∧ Text.isAscii low = true := by
  obtain ⟨hhigh, hlow, -⟩ := channel?_eq_some_iff.mp h
  have hascii {c : Char} (hc : IsHexDigit c) : Text.isAscii c = true :=
    decide_eq_true (Nat.lt_trans hc.toNat_lt (by decide))
  refine ⟨?_, hascii hlow⟩
  by_cases hplus : high = '+'
  · subst hplus
    decide
  · rw [unsigned_of_ne hplus] at hhigh
    exact hascii hhigh

/-- What is read as a colour has six bytes after the number sign. -/
theorem byteLength_of_ofChars? {digits : List Char} {c : Color}
    (h : ofChars? ('#' :: digits) = some c) :
    Text.byteLength digits = 6 ∧ digits.all Text.isAscii = true := by
  have hascii : digits.length = 6 ∧ digits.all Text.isAscii = true := by
    unfold ofChars? at h
    split at h
    · next r₁ r₀ g₁ g₀ b₁ b₀ hshape =>
      obtain rfl := List.tail_eq_of_cons_eq hshape
      obtain ⟨red, hred, h⟩ := Option.bind_eq_some_iff.mp h
      obtain ⟨green, hgreen, h⟩ := Option.bind_eq_some_iff.mp h
      obtain ⟨blue, hblue, -⟩ := Option.bind_eq_some_iff.mp h
      simp [isAscii_of_channel? hred, isAscii_of_channel? hgreen, isAscii_of_channel? hblue]
    · cases h
  exact ⟨(Text.byteLength_of_isAscii hascii.2).trans hascii.1, hascii.2⟩

/-- No text makes the reader cut a character in two. -/
theorem parseCutting_eq (text : String) : parseCutting text = some (parse text) := by
  unfold parseCutting parse
  split
  · next digits hshape =>
    split
    · next hbytes =>
      obtain ⟨hlength, hascii⟩ := hbytes
      rw [Text.byteLength_of_isAscii hascii] at hlength
      rw [Text.slice?_of_isAscii hascii (by decide) (by omega),
        Text.slice?_of_isAscii hascii (by decide) (by omega),
        Text.slice?_of_isAscii hascii (by decide) (by omega)]
      obtain ⟨r₁, r₀, g₁, g₀, b₁, b₀, rfl⟩ := exists_digits_eq hlength
      simp only [List.take, List.drop, Option.bind_eq_bind, Option.bind_some, byteOfHex?_pair,
        hshape, ofChars?]
      cases channel? r₁ r₀ <;> cases channel? g₁ g₀ <;> cases channel? b₁ b₀ <;> rfl
    · next hbytes =>
      rw [hshape]
      cases hread : ofChars? ('#' :: digits) with
      | none => rfl
      | some c => exact absurd (byteLength_of_ofChars? hread) hbytes
  · next hshape =>
    have hread : ofChars? (trim text.toList) = none := by
      unfold ofChars?
      split
      · next htrim => exact absurd htrim (hshape _)
      · rfl
    rw [hread]

/-! ## What is read -/

/-- A text without a plus sign is read exactly if, without the blanks around it, it is the text of a
colour, and then as the colour with that text in lower case. Any text is read as if there were zeros
for plus signs in the places of high digits, and is refused if it still is not the text of a colour.
No text makes the reader cut a character in two, and the text of every colour is read as that
colour. -/
theorem colors_read_exactly (text : String) :
    ('+' ∉ text.toList →
      ((∃ c, parse text = .ok c) ↔ IsText (trim text.toList)) ∧
        ∀ c, parse text = .ok c → c.hex.toList = (trim text.toList).map lowerAscii) ∧
      (∀ c, parse text = .ok c ↔ IsSpelling (withoutPlus (trim text.toList)) c) ∧
      (parse text = .error ⟨text⟩ ↔ ¬IsText (withoutPlus (trim text.toList))) ∧
      parseCutting text = some (parse text) ∧
      ∀ c : Color, parse c.hex = .ok c := by
  refine ⟨fun hplus ↦ ?_, fun _ ↦ parse_eq_ok_iff, ?_, parseCutting_eq text, parse_hex⟩
  · have hsame : withoutPlus (trim text.toList) = trim text.toList :=
      withoutPlus_of_not_mem fun hmem ↦ hplus (Text.mem_of_mem_trim hmem)
    simp only [parse_eq_ok_iff, hsame]
    exact ⟨⟨fun ⟨_, h⟩ ↦ h.isText, exists_isSpelling⟩, fun _ h ↦ h.lower.symm⟩
  · rcases parse_cases text with hrefused | ⟨c, hread⟩
    · refine iff_of_true hrefused fun htext ↦ ?_
      obtain ⟨c, hspelling⟩ := exists_isSpelling htext
      cases hrefused.symm.trans (parse_eq_ok_iff.mpr hspelling)
    · refine iff_of_false (fun hrefused ↦ ?_) (not_not_intro (parse_eq_ok_iff.mp hread).isText)
      cases hrefused.symm.trans hread

/-- Blanks around the text and capital digits. -/
theorem colors_read_exactly_orange : '+' ∉ "\t#FF8000 ".toList ∧
    IsText (trim "\t#FF8000 ".toList) ∧ ∃ c, parse "\t#FF8000 " = .ok c ∧ c.hex = "#ff8000" := by
  have hplus : '+' ∉ "\t#FF8000 ".toList := by decide
  have htext : IsText (trim "\t#FF8000 ".toList) :=
    ⟨['F', 'F', '8', '0', '0', '0'], by decide, rfl, by simp [IsHexDigit]⟩
  obtain ⟨hiff, hlower⟩ := (colors_read_exactly "\t#FF8000 ").1 hplus
  obtain ⟨c, hread⟩ := hiff.mpr htext
  refine ⟨hplus, htext, c, hread, String.toList_injective ?_⟩
  rw [hlower c hread]
  decide

/-- A plus sign in the place of a high digit is read, though the text is not that of a colour. -/
theorem parse_signed : parse "#+1+2+3" = .ok ⟨1, 2, 3⟩ ∧ ¬IsText (trim "#+1+2+3".toList) := by
  refine ⟨by decide, ?_⟩
  rintro ⟨digits, hdigits, -, hhex⟩
  have hshape : trim "#+1+2+3".toList = ['#', '+', '1', '+', '2', '+', '3'] := by decide
  rw [hshape] at hdigits
  obtain rfl := List.tail_eq_of_cons_eq hdigits
  exact absurd (hhex '+' List.mem_cons_self) (by decide)

end Color

end Marginalia
