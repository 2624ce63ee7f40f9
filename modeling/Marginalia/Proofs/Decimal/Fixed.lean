import Mathlib
import Marginalia.Decimal.Fixed
import Marginalia.Proofs.Decimal.Finite
import Marginalia.Proofs.Geometry.Rounding
import Marginalia.Proofs.Json.Literals

/-!
# Numbers with few decimals read back

The text of a finite number has at most three digits after its point, ends with no zero among them,
and stands for a rational number that is off by half a thousandth at most. Zeros are removed from
the end of a text that has a point, and no further than to it, so none of a whole number is lost.
Two whole numbers of thousandths that are no further apart are the same, so a number that has a text
with three decimals is written without loss.
-/

namespace Marginalia.Decimal

open Float.Model (Format UnpackedFloat)

/-! ## The exact value -/

/-- A number with a sign. -/
def signed (negative : Bool) (q : ℚ) : ℚ := if negative then -q else q

theorem signed_mul (negative : Bool) (q r : ℚ) :
    signed negative q * r = signed negative (q * r) := by
  cases negative
  · rfl
  · exact neg_mul q r

section
variable (x : Float32)

theorem toNat_unpackExponent : (@UnpackedFloat.unpackExponent .binary32 x.toBits.toBitVec).toNat =
    x.toBits.toNat / Nat.pow 2 23 % Nat.pow 2 8 := by
  simp [UnpackedFloat.unpackExponent, Nat.shiftRight_eq_div_pow]

theorem toNat_unpackMantissa : (@UnpackedFloat.unpackMantissa .binary32 x.toBits.toBitVec).toNat =
    x.toBits.toNat % Nat.pow 2 23 := by
  simp [UnpackedFloat.unpackMantissa]

theorem toNat_unpackSign : (@UnpackedFloat.unpackSign .binary32 x.toBits.toBitVec).toNat =
    x.toBits.toNat / Nat.pow 2 31 % 2 := by
  simp [UnpackedFloat.unpackSign, Nat.shiftRight_eq_div_pow]

theorem apply_unpackSign (n : Nat) :
    ((UnpackedFloat.Sign.ofBitVec
      (@UnpackedFloat.unpackSign .binary32 x.toBits.toBitVec)).apply n : ℚ) =
        signed (x.toBits.toNat / Nat.pow 2 31 % 2 == 1) n := by
  rw [← toNat_unpackSign, UnpackedFloat.Sign.ofBitVec, signed]
  generalize @UnpackedFloat.unpackSign .binary32 x.toBits.toBitVec = sign
  by_cases hzero : sign = 0#1
  · subst hzero
    rfl
  · have hone : sign.toNat = 1 := by
      have hne : sign.toNat ≠ 0 := fun h ↦ hzero (BitVec.eq_of_toNat_eq h)
      have hlt : sign.toNat < 2 := sign.isLt
      omega
    rw [if_neg hzero, hone]
    exact Int.cast_neg _

end

/-- The bits of a finite number are decoded to its value. -/
theorem FloatValue.ofSingle_of_isFinite {x : Float32} (h : x.isFinite = true) :
    ∃ negative mantissa exponent narrowBelow,
      ofSingle x = .finite negative mantissa exponent narrowBelow ∧
        Scalar.value x = signed negative (mantissa * 2 ^ exponent) := by
  have hones : ¬ x.toBits.toNat / Nat.pow 2 23 % Nat.pow 2 8 + 1 = Nat.pow 2 8 := fun hones ↦
    Bool.noConfusion (h.symm.trans ((isFinite_eq_false_iff x).mpr hones))
  have hnot : @UnpackedFloat.unpackExponent .binary32 x.toBits.toBitVec ≠ -1#8 := by
    intro heq
    rw [← toNat_unpackExponent, heq] at hones
    exact hones rfl
  have hunpack : x.toModel.unpack = UnpackedFloat.unpack .binary32 x.toBits.toBitVec := rfl
  delta UnpackedFloat.unpack at hunpack
  dsimp only at hunpack
  rw [if_neg hnot] at hunpack
  -- Without a leading one the number is subnormal, and zero is unpacked in a way of its own.
  by_cases hfield : @UnpackedFloat.unpackExponent .binary32 x.toBits.toBitVec = 0#8
  · have hzero : x.toBits.toNat / Nat.pow 2 23 % Nat.pow 2 8 = 0 := by
      rw [← toNat_unpackExponent, hfield]
      rfl
    have hbits : ofSingle x = .finite (x.toBits.toNat / Nat.pow 2 31 % 2 == 1)
        (x.toBits.toNat % Nat.pow 2 23) (-149) false := (if_neg hones).trans (if_pos hzero)
    refine ⟨_, _, _, _, hbits, ?_⟩
    rw [if_pos hfield] at hunpack
    by_cases hempty : @UnpackedFloat.unpackMantissa .binary32 x.toBits.toBitVec = 0#23
    · have hfraction : x.toBits.toNat % Nat.pow 2 23 = 0 := by
        rw [← toNat_unpackMantissa, hempty]
        rfl
      rw [dif_pos hempty] at hunpack
      rw [Scalar.value, hunpack, hfraction]
      simp [signed]
    · rw [dif_neg hempty] at hunpack
      rw [Scalar.value, hunpack]
      dsimp only
      rw [apply_unpackSign, signed_mul, toNat_unpackMantissa, toNat_unpackExponent, hzero]
      rfl
  · have hzero : ¬ x.toBits.toNat / Nat.pow 2 23 % Nat.pow 2 8 = 0 := by
      rw [← toNat_unpackExponent]
      exact fun h ↦ hfield (BitVec.eq_of_toNat_eq h)
    have hbits : ofSingle x = .finite (x.toBits.toNat / Nat.pow 2 31 % 2 == 1)
        (Nat.pow 2 23 + x.toBits.toNat % Nat.pow 2 23)
        (-149 + ((x.toBits.toNat / Nat.pow 2 23 % Nat.pow 2 8 : Nat) - 1)) _ :=
      (if_neg hones).trans (if_neg hzero)
    refine ⟨_, _, _, _, hbits, ?_⟩
    rw [if_neg hfield] at hunpack
    rw [Scalar.value, hunpack]
    dsimp only
    have hexponent (field : Nat) :
        (field - ((Format.binary32.exponentBias : Nat) + (23 : Nat)) : Int) =
          -149 + (field - 1) := by
      change (field - (127 + 23) : Int) = _
      omega
    rw [apply_unpackSign, signed_mul, toNat_unpackExponent, Scalar.toNat_leadingOne,
      toNat_unpackMantissa, hexponent]
    rfl

/-! ## Rounding -/

/-- The nearer of the two neighbours of a quotient is off by one half at most. -/
theorem abs_nearer_sub_le {n unit : Nat} (hunit : 0 < unit) (even : Prop) [Decidable even] :
    |((if 2 * (n % unit) < unit ∨ 2 * (n % unit) = unit ∧ even then n / unit
      else n / unit + 1 : Nat) : ℚ) - n / unit| ≤ 1 / 2 := by
  have hpos : (0 : ℚ) < unit := by exact_mod_cast hunit
  have hquotient : (n : ℚ) / unit = (n / unit : Nat) + (n % unit : Nat) / unit := by
    rw [div_eq_iff hpos.ne', add_mul, div_mul_cancel₀ _ hpos.ne']
    exact_mod_cast (Nat.div_add_mod' n unit).symm
  have hrest : (0 : ℚ) ≤ (n % unit : Nat) / unit := by positivity
  split
  · next hlow =>
    have hle : (2 : ℚ) * (n % unit : Nat) ≤ unit := by
      exact_mod_cast hlow.elim Nat.le_of_lt fun h ↦ h.1.le
    have hhalf : ((n % unit : Nat) : ℚ) / unit ≤ 1 / 2 := by
      rw [div_le_div_iff₀ hpos two_pos]
      linarith
    rw [hquotient, abs_le]
    constructor <;> linarith
  · next hhigh =>
    have hle : (unit : ℚ) ≤ 2 * (n % unit : Nat) := by
      exact_mod_cast Nat.le_of_not_lt fun h ↦ hhigh (.inl h)
    have hhalf : (1 : ℚ) / 2 ≤ (n % unit : Nat) / unit := by
      rw [div_le_div_iff₀ two_pos hpos]
      linarith
    have hone : ((n % unit : Nat) : ℚ) / unit ≤ 1 := by
      rw [div_le_one hpos]
      exact_mod_cast (Nat.mod_lt n hunit).le
    rw [hquotient, abs_le, Nat.cast_add_one]
    constructor <;> linarith

/-- A number of thousandths is off by half a thousandth at most. -/
theorem abs_thousandths_sub_le (mantissa : Nat) (exponent : Int) :
    |(thousandths mantissa exponent : ℚ) - 1000 * (mantissa * 2 ^ exponent)| ≤ 1 / 2 := by
  rw [thousandths]
  split
  · next hnonneg =>
    obtain ⟨places, rfl⟩ := Int.eq_ofNat_of_zero_le hnonneg
    have hexact : ((1000 * mantissa * Nat.pow 2 places : Nat) : ℚ) =
        1000 * (mantissa * 2 ^ (places : Int)) := by
      rw [Nat.pow_eq, zpow_natCast]
      push_cast
      ring
    rw [Int.toNat_natCast, hexact, sub_self, abs_zero]
    norm_num
  · next hneg =>
    obtain ⟨places, hplaces⟩ :=
      Int.eq_ofNat_of_zero_le (Int.neg_nonneg_of_nonpos (not_le.mp hneg).le)
    have hquotient : (1000 : ℚ) * (mantissa * 2 ^ exponent) =
        (1000 * mantissa : Nat) / (Nat.pow 2 places : Nat) := by
      rw [← neg_neg exponent, hplaces, zpow_neg, zpow_natCast, Nat.pow_eq]
      push_cast
      ring
    rw [hquotient, hplaces, Int.toNat_natCast]
    exact abs_nearer_sub_le (Nat.two_pow_pos places) _

/-! ## Trimming -/

section
variable {c : Char} {text : List Char}

theorem trimEndOf_eq : trimEndOf c text = text.rdropWhile (· == c) := rfl

theorem ne_of_mem_getLast?_trimEndOf : ∀ d ∈ (trimEndOf c text).getLast?, d ≠ c := by
  intro d hd
  obtain ⟨hne, rfl⟩ := List.mem_getLast?_eq_getLast hd
  exact fun heq ↦ List.rdropWhile_last_not (· == c) text hne (beq_iff_eq.mpr heq)

theorem exists_eq_trimEndOf_append (c : Char) (text : List Char) :
    ∃ count, text = trimEndOf c text ++ List.replicate count c := by
  refine ⟨(text.rtakeWhile (· == c)).length, ?_⟩
  have hreplicate : text.rtakeWhile (· == c) =
      List.replicate (text.rtakeWhile (· == c)).length c :=
    List.eq_replicate_iff.mpr
      ⟨rfl, fun d hd ↦ beq_iff_eq.mp (List.mem_rtakeWhile_imp (p := (· == c)) hd)⟩
  rw [trimEndOf_eq, ← hreplicate, List.rdropWhile_append_rtakeWhile]

theorem trimEndOf_append {kept tail : List Char} (hkept : ∀ d ∈ kept.getLast?, d ≠ c)
    (htail : ∀ d ∈ tail, d = c) : trimEndOf c (kept ++ tail) = kept := by
  induction tail using List.reverseRecOn with
  | nil =>
    rw [List.append_nil, trimEndOf_eq, List.rdropWhile_eq_self_iff]
    intro hne
    rw [beq_iff_eq]
    exact hkept _ (List.getLast?_eq_some_getLast hne)
  | append_singleton tail d ih =>
    have hd : d = c := htail d (List.mem_append_right _ (List.mem_singleton_self d))
    rw [← List.append_assoc, trimEndOf_eq,
      List.rdropWhile_concat_pos (· == c) _ d (beq_iff_eq.mpr hd)]
    exact ih fun d hd ↦ htail d (List.mem_append_left _ hd)

end

/-- Decimals with the point before them, or nothing where there are none. -/
def pointed (decimals : List Char) : List Char :=
  if decimals = [] then [] else '.' :: decimals

/-- The zeros that are removed are those of the decimals: the point stands before them, and is
itself removed only where no decimals are left. -/
theorem trimEndOf_point {front decimals : List Char} (hfront : ∀ c ∈ front.getLast?, c ≠ '.')
    (hdecimals : ∀ c ∈ decimals, c.isDigit = true) :
    trimEndOf '.' (trimEndOf '0' (front ++ '.' :: decimals)) =
      front ++ pointed (trimEndOf '0' decimals) := by
  obtain ⟨count, hzeros⟩ := exists_eq_trimEndOf_append '0' decimals
  have hlast : ∀ d ∈ (trimEndOf '0' decimals).getLast?, d ≠ '0' := ne_of_mem_getLast?_trimEndOf
  have hdigits : ∀ c ∈ trimEndOf '0' decimals, c.isDigit = true := fun c hc ↦
    hdecimals c ((List.rdropWhile_prefix _ _).subset hc)
  generalize trimEndOf '0' decimals = kept at *
  have hzero : trimEndOf '0' (front ++ '.' :: decimals) = front ++ '.' :: kept := by
    rw [hzeros, ← List.cons_append, ← List.append_assoc]
    refine trimEndOf_append ?_ fun d hd ↦ List.eq_of_mem_replicate hd
    -- The zeros stop at a decimal that is none, or at the point.
    intro d hd
    rw [List.getLast?_append_of_ne_nil _ (List.cons_ne_nil _ _), List.getLast?_cons] at hd
    cases hkept : kept.getLast? with
    | none =>
      rw [hkept] at hd
      exact Option.some.inj hd ▸ by decide
    | some e =>
      rw [hkept] at hd
      exact Option.some.inj hd ▸ hlast e hkept
  rw [hzero, pointed]
  split
  · next hnil =>
    rw [hnil, List.append_nil]
    exact trimEndOf_append hfront (by simp)
  · next hne =>
    have hstops : ∀ d ∈ (front ++ '.' :: kept).getLast?, d ≠ '.' := by
      rw [List.append_cons, List.getLast?_append_of_ne_nil _ hne]
      intro d hd heq
      exact absurd (hdigits d (List.mem_of_mem_getLast? hd)) (heq ▸ by decide)
    have hkept := trimEndOf_append hstops (List.forall_mem_nil _)
    rwa [List.append_nil] at hkept

/-! ## Texts -/

/-- The rational number that a decimal without a sign stands for: the digits after the point count
as parts of one. -/
def magnitude (text : List Char) : ℚ :=
  let decimals := (text.dropWhile fun c ↦ c != '.').drop 1
  Nat.ofDigitChars 10 (text.takeWhile fun c ↦ c != '.') 0 +
    Nat.ofDigitChars 10 decimals 0 / 10 ^ decimals.length

/-- The rational number that a decimal stands for. -/
def rational : List Char → ℚ
  | '-' :: text => -magnitude text
  | text => magnitude text

/-- Decimals of a number: one to three digits, of which the last is not zero. -/
structure AreDecimals (ds : List Char) : Prop where
  digits : Json.AreDigits ds
  few : ds.length ≤ 3
  last : ds.getLast? ≠ some '0'

/-- A number without a sign, as page descriptions hold it: digits without a superfluous zero, and
perhaps a point and decimals. -/
inductive IsPlain : List Char → Prop where
  | whole {ds : List Char} (h : Json.IsWhole ds) : IsPlain ds
  | decimals {whole ds : List Char} (hwhole : Json.IsWhole whole) (h : AreDecimals ds) :
      IsPlain (whole ++ '.' :: ds)

theorem ofDigitChars_concat (ds : List Char) {d : Nat} (h : d < 10) :
    Nat.ofDigitChars 10 (ds ++ [digitChar d]) 0 = 10 * Nat.ofDigitChars 10 ds 0 + d := by
  have hvalue : ∀ d < 10, (digitChar d).toNat - '0'.toNat = d := by decide
  rw [Nat.ofDigitChars_append, Nat.ofDigitChars_cons, Nat.ofDigitChars_nil, hvalue d h]

theorem ofDigitChars_digits (n : Nat) : Nat.ofDigitChars 10 (digits n) 0 = n := by
  induction n using digits.induct with
  | case1 n hn =>
    rw [digits_of_lt hn]
    simpa using ofDigitChars_concat [] hn
  | case2 n hn ih =>
    rw [digits_of_not_lt hn, ofDigitChars_concat _ (Nat.mod_lt n (by decide)), ih]
    exact Nat.div_add_mod n 10

theorem ofDigitChars_paddedDigits (width n : Nat) :
    Nat.ofDigitChars 10 (paddedDigits width n) 0 = n % Nat.pow 10 width := by
  induction width generalizing n with
  | zero => exact (Nat.mod_one n).symm
  | succ width ih =>
    have hpow : Nat.pow 10 (width + 1) = 10 * Nat.pow 10 width := Nat.mul_comm _ _
    rw [paddedDigits, ofDigitChars_concat _ (Nat.mod_lt n (by decide)), ih, hpow, Nat.mod_mul,
      Nat.add_comm]

/-- Zeros at the end of decimals count for nothing. -/
theorem fraction_trimEndOf (ds : List Char) :
    (Nat.ofDigitChars 10 (trimEndOf '0' ds) 0 : ℚ) / 10 ^ (trimEndOf '0' ds).length =
      Nat.ofDigitChars 10 ds 0 / 10 ^ ds.length := by
  obtain ⟨count, hzeros⟩ := exists_eq_trimEndOf_append '0' ds
  generalize trimEndOf '0' ds = kept at hzeros
  rw [hzeros, Nat.ofDigitChars_append, Nat.ofDigitChars_replicate_zero, List.length_append,
    List.length_replicate, pow_add, Nat.cast_mul, Nat.cast_pow, Nat.cast_ofNat,
    mul_comm ((10 : ℚ) ^ count), mul_div_mul_right _ _ (by positivity)]

theorem magnitude_append {whole : List Char} (hwhole : ∀ c ∈ whole, c.isDigit = true)
    (decimals : List Char) : magnitude (whole ++ pointed decimals) =
      Nat.ofDigitChars 10 whole 0 + Nat.ofDigitChars 10 decimals 0 / 10 ^ decimals.length := by
  have hpoint : ∀ c ∈ whole, (c != '.') = true := by
    intro c hc
    rw [bne_iff_ne]
    rintro rfl
    exact absurd (hwhole '.' hc) (by decide)
  rw [magnitude, List.takeWhile_append_of_pos hpoint, List.dropWhile_append_of_pos hpoint]
  cases decimals <;> simp [pointed]

theorem areDecimals_trimEndOf {ds : List Char} (h : ∀ c ∈ ds, c.isDigit = true)
    (hfew : ds.length ≤ 3) (hne : trimEndOf '0' ds ≠ []) : AreDecimals (trimEndOf '0' ds) where
  digits := ⟨hne, fun c hc ↦ h c ((List.rdropWhile_prefix _ _).subset hc)⟩
  few := (List.rdropWhile_prefix _ _).length_le.trans hfew
  last := fun hlast ↦ ne_of_mem_getLast?_trimEndOf '0' hlast rfl

/-- The text of a number of thousandths without the zeros at its end. -/
def shortText (n : Nat) : List Char :=
  digits (n / 1000) ++ pointed (trimEndOf '0' (paddedDigits 3 (n % 1000)))

/-- The text of a number of thousandths stands for that many thousandths. -/
theorem magnitude_shortText (n : Nat) : magnitude (shortText n) = n / 1000 := by
  have hn : (n : ℚ) = 1000 * (n / 1000 : Nat) + (n % 1000 : Nat) := by
    exact_mod_cast (Nat.div_add_mod n 1000).symm
  have hthousand : n % 1000 % Nat.pow 10 3 = n % 1000 := Nat.mod_mod n 1000
  rw [shortText, magnitude_append fun c hc ↦ isDigit_of_mem_digits hc, fraction_trimEndOf,
    ofDigitChars_digits, ofDigitChars_paddedDigits, length_paddedDigits, hthousand]
  linear_combination (-1 / 1000 : ℚ) * hn

theorem isPlain_shortText (n : Nat) : IsPlain (shortText n) := by
  rw [shortText, pointed]
  split
  · rw [List.append_nil]
    exact .whole (Json.isWhole_digits (n / 1000))
  · next hne =>
    refine .decimals (Json.isWhole_digits (n / 1000)) (areDecimals_trimEndOf
      (fun c hc ↦ isDigit_of_mem_paddedDigits hc) ?_ hne)
    exact (length_paddedDigits 3 _).le

/-- A number as page descriptions hold it, perhaps with a sign. -/
def IsNumeral (text : List Char) : Prop :=
  ∃ plain, IsPlain plain ∧ (text = plain ∨ text = '-' :: plain)

theorem IsPlain.head {text : List Char} (h : IsPlain text) :
    ∃ c rest, text = c :: rest ∧ c.isDigit = true := by
  have hwhole {ds : List Char} (h : Json.IsWhole ds) (rest : List Char) :
      ∃ c tail, ds ++ rest = c :: tail ∧ c.isDigit = true := by
    obtain ⟨c, tail, rfl⟩ := List.exists_cons_of_ne_nil h.1.1
    exact ⟨c, tail ++ rest, rfl, h.1.2 c List.mem_cons_self⟩
  cases h with
  | @whole ds h => simpa using hwhole h []
  | decimals h => exact hwhole h _

theorem IsPlain.ne_nil {text : List Char} (h : IsPlain text) : text ≠ [] := by
  obtain ⟨c, rest, rfl, -⟩ := h.head
  exact List.cons_ne_nil c rest

theorem IsPlain.ne_signed {text : List Char} (h : IsPlain text) (rest : List Char) :
    text ≠ '-' :: rest := by
  obtain ⟨c, tail, rfl, hc⟩ := h.head
  intro heq
  obtain rfl := List.head_eq_of_cons_eq heq
  exact absurd hc (by decide)

theorem rational_of_isPlain {text : List Char} (h : IsPlain text) :
    rational text = magnitude text := by
  unfold rational
  split
  · exact absurd rfl (h.ne_signed _)
  · rfl

theorem IsPlain.characters {text : List Char} (h : IsPlain text) :
    ∀ c ∈ text, c.isDigit = true ∨ c = '.' := by
  intro c hc
  cases h with
  | whole h => exact .inl (h.1.2 c hc)
  | decimals hwhole h =>
    rcases List.mem_append.mp hc with hc | hc
    · exact .inl (hwhole.1.2 c hc)
    · exact (List.mem_cons.mp hc).symm.imp_left (h.digits.2 c)

theorem IsNumeral.characters {text : List Char} (h : IsNumeral text) :
    ∀ c ∈ text, c.isDigit = true ∨ c = '.' ∨ c = '-' := by
  obtain ⟨plain, hplain, rfl | rfl⟩ := h
  · exact fun c hc ↦ (hplain.characters c hc).imp_right .inl
  · intro c hc
    rcases List.mem_cons.mp hc with rfl | hc
    · exact .inr (.inr rfl)
    · exact (hplain.characters c hc).imp_right .inl

theorem IsNumeral.ne_nil {text : List Char} (h : IsNumeral text) : text ≠ [] := by
  obtain ⟨plain, hplain, rfl | rfl⟩ := h
  · exact hplain.ne_nil
  · exact List.cons_ne_nil _ _

/-- Only the text of zero is a zero: its digits are not among the zeros that are removed. -/
theorem shortText_eq_zero_iff {n : Nat} : shortText n = ['0'] ↔ n = 0 := by
  constructor
  · intro hzero
    have hmagnitude : magnitude ['0'] = 0 := by simp [magnitude, Nat.ofDigitChars_cons]
    have hn := magnitude_shortText n
    rw [hzero, hmagnitude, eq_comm, div_eq_zero_iff] at hn
    simpa using hn
  · rintro rfl
    decide +kernel

theorem trimEndOf_thousandthsText (sign : List Char) (n : Nat) :
    trimEndOf '.' (trimEndOf '0' (sign ++ thousandthsText n)) = sign ++ shortText n := by
  have hdigit : ∀ c ∈ (sign ++ digits (n / 1000)).getLast?, c ≠ '.' := by
    rw [List.getLast?_append_of_ne_nil _ (digits_ne_nil _)]
    intro c hc heq
    exact absurd (isDigit_of_mem_digits (List.mem_of_mem_getLast? hc)) (heq ▸ by decide)
  rw [thousandthsText, shortText, ← List.append_assoc, ← List.append_assoc]
  exact trimEndOf_point hdigit fun c hc ↦ isDigit_of_mem_paddedDigits hc

/-- Of a number written with three digits after the point, only zeros of the decimals are removed,
and the sign of zero. -/
theorem withoutZeros_thousandthsText (negative : Bool) (n : Nat) :
    withoutZeros (if negative then '-' :: thousandthsText n else thousandthsText n) =
      if negative ∧ n ≠ 0 then '-' :: shortText n else shortText n := by
  have hplain := isPlain_shortText n
  cases negative with
  | false =>
    have htrimmed := trimEndOf_thousandthsText [] n
    rw [List.nil_append, List.nil_append] at htrimmed
    rw [if_neg Bool.false_ne_true, if_neg (by simp), withoutZeros, htrimmed]
    split
    · next hnil => exact absurd hnil hplain.ne_nil
    · next hsign => exact absurd hsign (hplain.ne_signed _)
    · rfl
  | true =>
    have htrimmed := trimEndOf_thousandthsText ['-'] n
    rw [List.singleton_append, List.singleton_append] at htrimmed
    rw [if_pos rfl, withoutZeros, htrimmed]
    split
    · next hnil => exact absurd hnil (List.cons_ne_nil _ _)
    · next hzero =>
      have hn := shortText_eq_zero_iff.mp (List.tail_eq_of_cons_eq hzero)
      rw [if_neg fun h ↦ h.2 hn, shortText_eq_zero_iff.mpr hn]
    · next hne =>
      refine (if_pos ⟨rfl, fun hn ↦ hne ?_⟩).symm
      rw [shortText_eq_zero_iff.mpr hn]

/-! ## Nearness -/

/-- Two whole numbers of thousandths that are half a thousandth apart at most are the same. -/
theorem eq_of_abs_sub_le {m n : ℤ} (h : |(m : ℚ) / 1000 - n / 1000| ≤ 1 / 2000) : m = n := by
  have hscaled : |(m : ℚ) - n| ≤ 1 / 2 := by
    rw [← sub_div, abs_div, abs_of_pos (by norm_num : (0 : ℚ) < 1000),
      div_le_iff₀ (by norm_num)] at h
    linarith
  have hlt : |m - n| < 1 := by
    have hlt : |(m : ℚ) - n| < 1 := by linarith
    exact_mod_cast hlt
  exact sub_eq_zero.mp (Int.abs_lt_one_iff.mp hlt)

theorem abs_signed_sub (negative : Bool) (q r : ℚ) :
    |signed negative q - signed negative r| = |q - r| := by
  cases negative
  · rfl
  · rw [signed, signed, if_pos rfl, if_pos rfl, neg_sub_neg, abs_sub_comm]

/-- The text of a finite number, and for how many thousandths it stands. -/
theorem toList_fixedText {x : Float32} (h : x.isFinite = true) : ∃ (negative : Bool) (n : Nat),
    |signed negative (n / 1000) - Scalar.value x| ≤ 1 / 2000 ∧
      (fixedText x).toList =
        if negative ∧ n ≠ 0 then '-' :: shortText n else shortText n := by
  obtain ⟨negative, mantissa, exponent, narrowBelow, hbits, hvalue⟩ :=
    FloatValue.ofSingle_of_isFinite h
  refine ⟨negative, thousandths mantissa exponent, ?_, ?_⟩
  · have hnear := abs_thousandths_sub_le mantissa exponent
    rw [hvalue, abs_signed_sub]
    rw [abs_le] at hnear ⊢
    constructor <;> linarith
  · rw [fixedText, hbits, FloatValue.fixedText, String.toList_ofList,
      withoutZeros_thousandthsText]

theorem rational_fixedText {x : Float32} {negative : Bool} {n : Nat}
    (h : (fixedText x).toList =
      if negative ∧ n ≠ 0 then '-' :: shortText n else shortText n) :
    rational (fixedText x).toList = signed negative (n / 1000) := by
  rw [h]
  split
  · next hsign =>
    rw [hsign.1]
    exact congrArg Neg.neg (magnitude_shortText n)
  · next hsign =>
    rw [rational_of_isPlain (isPlain_shortText n), magnitude_shortText]
    cases negative with
    | false => rfl
    | true =>
      obtain rfl : n = 0 := by simpa using hsign
      simp [signed]

theorem ne_negativeZero {n : Nat} (negative : Bool) :
    (if negative ∧ n ≠ 0 then '-' :: shortText n else shortText n) ≠ ['-', '0'] := by
  split
  · next hsign =>
    exact fun heq ↦ hsign.2 (shortText_eq_zero_iff.mp (List.tail_eq_of_cons_eq heq))
  · exact (isPlain_shortText n).ne_signed _

/-- The text of a finite number is a numeral, of digits, a point and a sign, and is never empty nor
that of a negative zero. It stands for a number that is off by half a thousandth at most, and for
the number itself if that is a whole number of thousandths, such as an integer. -/
theorem fixedText_is_near (x : Float32) (h : x.isFinite = true) :
    IsNumeral (fixedText x).toList ∧ fixedText x ≠ "" ∧ fixedText x ≠ "-0" ∧
      (∀ c ∈ (fixedText x).toList, c.isDigit = true ∨ c = '.' ∨ c = '-') ∧
      |rational (fixedText x).toList - Scalar.value x| ≤ 1 / 2000 ∧
      (∀ k : ℤ, Scalar.value x = k / 1000 → rational (fixedText x).toList = Scalar.value x) ∧
      ∀ k : ℤ, Scalar.value x = k → rational (fixedText x).toList = k := by
  obtain ⟨negative, n, hnear, htext⟩ := toList_fixedText h
  have hrational := rational_fixedText htext
  have hnumeral : IsNumeral (fixedText x).toList := by
    rw [htext]
    refine ⟨shortText n, isPlain_shortText n, ?_⟩
    split
    · exact .inr rfl
    · exact .inl rfl
  have hexact (k : ℤ) (hk : Scalar.value x = k / 1000) :
      rational (fixedText x).toList = Scalar.value x := by
    have hwhole : signed negative (n / 1000) = ((if negative then -n else n : ℤ) : ℚ) / 1000 := by
      cases negative
      · simp [signed]
      · simp [signed, neg_div]
    rw [hk, hwhole] at hnear
    rw [hrational, hwhole, hk, eq_of_abs_sub_le hnear]
  refine ⟨hnumeral, ?_, ?_, hnumeral.characters, ?_, hexact, fun k hk ↦ ?_⟩
  · exact fun hempty ↦ hnumeral.ne_nil (congrArg String.toList hempty)
  · intro hzero
    rw [hzero] at htext
    exact ne_negativeZero negative htext.symm
  · rwa [hrational]
  · rw [hexact (k * 1000) (by rw [hk]; push_cast; ring), hk]

/-- Minus two and an eighth, which is a whole number of thousandths. -/
theorem fixedText_is_near_eighths :
    (Float32.ofBits 0xC0080000).isFinite = true ∧
      Scalar.value (Float32.ofBits 0xC0080000) = (-2125 : ℤ) / 1000 ∧
      fixedText (Float32.ofBits 0xC0080000) = "-2.125" ∧
      rational (fixedText (Float32.ofBits 0xC0080000)).toList = -17 / 8 := by
  have hfinite : (Float32.ofBits 0xC0080000).isFinite = true := by decide
  have hvalue : Scalar.value (Float32.ofBits 0xC0080000) = (-2125 : ℤ) / 1000 := by
    have hunpack : ∃ hpos, (Float32.ofBits 0xC0080000).toModel.unpack =
        .finite .negative 8912896 (-22) hpos := ⟨by decide, by rfl⟩
    obtain ⟨hpos, hunpack⟩ := hunpack
    rw [Scalar.value, hunpack]
    norm_num [UnpackedFloat.Sign.apply]
  have htext : fixedText (Float32.ofBits 0xC0080000) = "-2.125" := by decide +kernel
  obtain ⟨-, -, -, -, -, hexact, -⟩ := fixedText_is_near (Float32.ofBits 0xC0080000) hfinite
  refine ⟨hfinite, hvalue, htext, ?_⟩
  rw [hexact (-2125) hvalue, hvalue]
  norm_num

end Marginalia.Decimal
