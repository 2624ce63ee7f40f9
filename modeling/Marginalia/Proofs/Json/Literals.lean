import Marginalia.Json.Parser
import Marginalia.Json.Printer
import Marginalia.Proofs.Decimal.Reading

/-!
# Number literals

The grammar of number literals, after RFC 8259: a sign, digits without a superfluous zero, a
fraction and an exponent. The reader takes exactly the literal when what follows does not carry it
on, and every number that the library writes has such a literal, however it is laid out.
-/

namespace Marginalia.Json

open Decimal

/-! ## The grammar -/

/-- At least one digit and nothing else. -/
def AreDigits (cs : List Char) : Prop :=
  cs ≠ [] ∧ ∀ c ∈ cs, c.isDigit = true

/-- The digits before the point. -/
def IsWhole (cs : List Char) : Prop :=
  AreDigits cs ∧ (cs.head? = some '0' → cs = ['0'])

/-- The point and the digits after it, or nothing. -/
def IsFraction (cs : List Char) : Prop :=
  cs = [] ∨ ∃ ds, cs = '.' :: ds ∧ AreDigits ds

/-- The exponent with its sign, or nothing. -/
def IsExponent (cs : List Char) : Prop :=
  cs = [] ∨ ∃ sign ds, cs = 'e' :: (sign ++ ds) ∧ (sign = [] ∨ sign = ['+'] ∨ sign = ['-']) ∧
    AreDigits ds

/-- A number without its sign. -/
def IsMagnitude (cs : List Char) : Prop :=
  ∃ whole fraction exponent, cs = whole ++ (fraction ++ exponent) ∧ IsWhole whole ∧
    IsFraction fraction ∧ IsExponent exponent

/-- A number literal. -/
def IsLiteral (literal : String) : Prop :=
  ∃ magnitude, IsMagnitude magnitude ∧
    (literal.toList = magnitude ∨ literal.toList = '-' :: magnitude)

/-- Characters that do not carry on a number. -/
def EndsNumber (rest : List Char) : Prop :=
  ∀ c, rest.head? = some c → c.isDigit = false ∧ c ≠ '.' ∧ c ≠ 'e' ∧ c ≠ 'E'

theorem EndsNumber.endsDigits {rest : List Char} (h : EndsNumber rest) : EndsDigits rest :=
  fun c hc ↦ (h c hc).1

theorem IsExponent.endsDigits {exponent rest : List Char} (h : IsExponent exponent)
    (hrest : EndsDigits rest) : EndsDigits (exponent ++ rest) := by
  rcases h with rfl | ⟨sign, ds, rfl, -⟩
  · exact hrest
  · intro c hc
    obtain rfl := Option.some.inj hc
    rfl

theorem IsFraction.endsDigits {fraction rest : List Char} (h : IsFraction fraction)
    (hrest : EndsDigits rest) : EndsDigits (fraction ++ rest) := by
  rcases h with rfl | ⟨ds, rfl, -⟩
  · exact hrest
  · intro c hc
    obtain rfl := Option.some.inj hc
    rfl

namespace Parser

/-! ## Reading -/

theorem digits?_append {ds rest : List Char} (h : AreDigits ds) (hrest : EndsDigits rest) :
    digits? (ds ++ rest) = some (ds, rest) := by
  rw [digits?, takeWhile_isDigit h.2 hrest]
  simp [h.1]

theorem wholePart?_append {whole rest : List Char} (h : IsWhole whole) (hrest : EndsDigits rest) :
    wholePart? (whole ++ rest) = some (whole, rest) := by
  obtain ⟨hdigits, hzero⟩ := h
  rw [wholePart?.eq_def]
  split
  · next tail heq =>
    have hwhole : whole = ['0'] := by
      refine hzero ?_
      obtain ⟨c, cs, rfl⟩ := List.exists_cons_of_ne_nil hdigits.1
      exact congrArg List.head? (congrArg (List.take 1) heq)
    subst hwhole
    obtain rfl : rest = tail := List.tail_eq_of_cons_eq heq
    have hnone : rest.head?.any Char.isDigit = false := by
      cases hhead : rest.head? with
      | none => rfl
      | some c => exact hrest c hhead
    rw [hnone]
    rfl
  · exact digits?_append hdigits hrest

theorem fractionPart?_append {fraction rest : List Char} (h : IsFraction fraction)
    (hrest : EndsDigits rest) (hpoint : rest.head? ≠ some '.') :
    fractionPart? (fraction ++ rest) = some (fraction, rest) := by
  rcases h with rfl | ⟨ds, rfl, hdigits⟩
  · rw [List.nil_append, fractionPart?.eq_def]
    split
    · exact absurd rfl hpoint
    · rfl
  · rw [List.cons_append, fractionPart?, digits?_append hdigits hrest]
    rfl

/-- Digits do not begin with another character. -/
theorem ne_cons_of_areDigits {ds : List Char} (h : AreDigits ds) (rest tail : List Char) {c : Char}
    (hc : c.isDigit = false) : ds ++ rest ≠ c :: tail := by
  obtain ⟨d, cs, rfl⟩ := List.exists_cons_of_ne_nil h.1
  intro heq
  have hdigit := h.2 d List.mem_cons_self
  rw [List.head_eq_of_cons_eq heq, hc] at hdigit
  cases hdigit

theorem exponentPart?_append {exponent rest : List Char} (h : IsExponent exponent)
    (hrest : EndsNumber rest) : exponentPart? (exponent ++ rest) = some (exponent, rest) := by
  rcases h with rfl | ⟨sign, ds, rfl, hsign, hdigits⟩
  · rw [List.nil_append, exponentPart?.eq_def]
    split
    · next e tail =>
      obtain ⟨-, -, hlower, hupper⟩ := hrest e rfl
      rw [if_neg (not_or.mpr ⟨hlower, hupper⟩)]
    · rfl
  · have hread := digits?_append hdigits hrest.endsDigits
    rcases hsign with rfl | rfl | rfl
    · rw [List.nil_append, List.cons_append, exponentPart?.eq_def]
      dsimp only
      rw [if_pos (Or.inl rfl)]
      split
      · next tail heq => exact absurd heq (ne_cons_of_areDigits hdigits rest tail rfl)
      · next tail heq => exact absurd heq (ne_cons_of_areDigits hdigits rest tail rfl)
      · rw [hread]
        rfl
    · simp [exponentPart?, hread]
    · simp [exponentPart?, hread]

theorem IsMagnitude.head {cs : List Char} (h : IsMagnitude cs) :
    ∃ c rest, cs = c :: rest ∧ c.isDigit = true := by
  obtain ⟨whole, fraction, exponent, rfl, ⟨⟨hne, hdigits⟩, -⟩, -, -⟩ := h
  obtain ⟨c, rest, rfl⟩ := List.exists_cons_of_ne_nil hne
  exact ⟨c, _, rfl, hdigits c List.mem_cons_self⟩

/-- A literal is read as the number it is, up to its end. -/
theorem number?_append {literal : String} {rest : List Char} (h : IsLiteral literal)
    (hrest : EndsNumber rest) :
    number? (literal.toList ++ rest) = some (.number literal, rest) := by
  obtain ⟨magnitude, hmagnitude, hliteral⟩ := h
  obtain ⟨c, tail, hcons, hdigit⟩ := IsMagnitude.head hmagnitude
  have hminus : c ≠ '-' := by
    rintro rfl
    cases hdigit
  obtain ⟨whole, fraction, exponent, rfl, hwhole, hfraction, hexponent⟩ := hmagnitude
  have hends := hexponent.endsDigits hrest.endsDigits
  have hpoint : (exponent ++ rest).head? ≠ some '.' := by
    rcases hexponent with rfl | ⟨sign, ds, rfl, -⟩
    · intro hhead
      exact (hrest '.' hhead).2.1 rfl
    · simp
  have hparts := wholePart?_append hwhole (hfraction.endsDigits hends)
  have hfractions := fractionPart?_append hfraction hends hpoint
  have hexponents := exponentPart?_append hexponent hrest
  have hback : ∀ cs, literal.toList = cs → String.ofList cs = literal := by
    rintro cs rfl
    exact String.ofList_toList
  rcases hliteral with hplain | hsigned
  · have hhead : (whole ++ (fraction ++ exponent) ++ rest).head? = some c := by
      rw [hcons]
      rfl
    rw [← hback _ hplain, String.toList_ofList, number?, hhead, if_neg (by simpa using hminus)]
    simp [hparts, hfractions, hexponents]
  · rw [← hback _ hsigned, String.toList_ofList, number?, List.cons_append, List.head?_cons,
      if_pos (by simp)]
    simp [hparts, hfractions, hexponents]

end Parser

/-! ## What the library writes -/

theorem areDigits_digits (n : Nat) : AreDigits (digits n) :=
  ⟨digits_ne_nil n, fun _ ↦ isDigit_of_mem_digits⟩

theorem isWhole_of_head {cs : List Char} (h : AreDigits cs) (hhead : cs.head? ≠ some '0') :
    IsWhole cs :=
  ⟨h, fun hzero ↦ absurd hzero hhead⟩

theorem isWhole_digits (n : Nat) : IsWhole (digits n) := by
  by_cases hn : n = 0
  · subst hn
    exact ⟨areDigits_digits 0, fun _ ↦ digits_of_lt (by decide)⟩
  · exact isWhole_of_head (areDigits_digits n) (head?_digits_ne hn)

theorem isWhole_zero : IsWhole ['0'] := by
  have h := isWhole_digits 0
  rwa [digits_of_lt (by decide)] at h

theorem IsWhole.isMagnitude {cs : List Char} (h : IsWhole cs) : IsMagnitude cs :=
  ⟨cs, [], [], by simp, h, Or.inl rfl, Or.inl rfl⟩

theorem isLiteral_text (n : Nat) : IsLiteral (text n) :=
  ⟨digits n, (isWhole_digits n).isMagnitude, Or.inl String.toList_ofList⟩

theorem isFraction_pointZero (wholePoint : Bool) :
    IsFraction (if wholePoint then ['.', '0'] else []) := by
  cases wholePoint with
  | false => exact Or.inl rfl
  | true =>
    refine Or.inr ⟨['0'], rfl, List.cons_ne_nil _ _, ?_⟩
    intro c hc
    rw [List.mem_singleton.mp hc]
    rfl

variable {ds : List Char}

theorem isMagnitude_positional (h : AreDigits ds) (hhead : ds.head? ≠ some '0')
    (wholePoint : Bool) (exponent : Int) : IsMagnitude (positional wholePoint ds exponent) := by
  obtain ⟨hne, hdigits⟩ := h
  obtain ⟨c, cs, rfl⟩ := List.exists_cons_of_ne_nil hne
  rw [positional]
  split
  · refine ⟨c :: cs ++ List.replicate exponent.toNat '0', _, [], by rw [List.append_nil], ?_,
      isFraction_pointZero wholePoint, Or.inl rfl⟩
    refine isWhole_of_head ⟨List.cons_ne_nil _ _, ?_⟩ hhead
    intro d hd
    rcases List.mem_append.mp hd with hmem | hmem
    · exact hdigits d hmem
    · rw [List.eq_of_mem_replicate hmem]
      rfl
  · next hnegative =>
    split
    · next hpoint =>
      obtain ⟨place, hplace⟩ : ∃ place : Nat, ((c :: cs).length + exponent).toNat = place + 1 :=
        ⟨((c :: cs).length + exponent).toNat - 1, by omega⟩
      refine ⟨(c :: cs).take (place + 1), '.' :: (c :: cs).drop (place + 1), [], ?_, ?_, ?_,
        Or.inl rfl⟩
      · rw [hplace, List.append_nil]
      · exact isWhole_of_head ⟨List.cons_ne_nil _ _, fun d hd ↦ hdigits d (List.mem_of_mem_take hd)⟩
          hhead
      · refine Or.inr ⟨_, rfl, ?_, fun d hd ↦ hdigits d (List.mem_of_mem_drop hd)⟩
        intro hnil
        have hlength := List.drop_eq_nil_iff.mp hnil
        omega
    · refine ⟨['0'], '.' :: (List.replicate (-((c :: cs).length + exponent)).toNat '0' ++ c :: cs),
        [], by simp, isWhole_zero, ?_, Or.inl rfl⟩
      · refine Or.inr ⟨_, rfl, by simp, ?_⟩
        intro d hd
        rcases List.mem_append.mp hd with hmem | hmem
        · rw [List.eq_of_mem_replicate hmem]
          rfl
        · exact hdigits d hmem

theorem isExponent_power (powerSign : Bool) (place : Int) :
    IsExponent ('e' :: ((if powerSign ∧ 0 ≤ place then "+" else "").toList ++
      (integerText place).toList)) := by
  rw [integerText]
  refine Or.inr ?_
  by_cases hplace : place < 0
  · refine ⟨['-'], digits place.natAbs, ?_, Or.inr (Or.inr rfl), areDigits_digits _⟩
    rw [if_neg (by omega), if_pos hplace]
    simp
  · rw [if_neg hplace]
    by_cases hsign : powerSign = true ∧ 0 ≤ place
    · exact ⟨['+'], digits place.natAbs, by rw [if_pos hsign]; simp [text], Or.inr (Or.inl rfl),
        areDigits_digits _⟩
    · exact ⟨[], digits place.natAbs, by rw [if_neg hsign]; simp [text], Or.inl rfl,
        areDigits_digits _⟩

theorem isMagnitude_scientific (h : AreDigits ds) (hhead : ds.head? ≠ some '0')
    (powerSign : Bool) (exponent : Int) : IsMagnitude (scientific powerSign ds exponent) := by
  obtain ⟨hne, hdigits⟩ := h
  obtain ⟨c, cs, rfl⟩ := List.exists_cons_of_ne_nil hne
  have hwhole : IsWhole [c] :=
    isWhole_of_head ⟨List.cons_ne_nil _ _, fun d hd ↦ hdigits d (by simp_all)⟩ hhead
  cases cs with
  | nil => exact ⟨[c], [], _, rfl, hwhole, Or.inl rfl, isExponent_power powerSign _⟩
  | cons d rest =>
    refine ⟨[c], '.' :: d :: rest, _, rfl, hwhole, Or.inr ⟨_, rfl, List.cons_ne_nil _ _, ?_⟩,
      isExponent_power powerSign _⟩
    exact fun e he ↦ hdigits e (List.mem_cons_of_mem _ he)

theorem isMagnitude_scaledText (style : NumberStyle) (number : Scaled) :
    IsMagnitude (style.scaledText number) := by
  rw [NumberStyle.scaledText]
  split
  · exact ⟨['0'], _, [], by rw [List.append_nil]; rfl, isWhole_zero, isFraction_pointZero _,
      Or.inl rfl⟩
  · next hzero =>
    have hhead := head?_digits_ne hzero
    split
    · exact isMagnitude_positional (areDigits_digits _) hhead _ _
    · exact isMagnitude_scientific (areDigits_digits _) hhead _ _

/-- Whatever the style, the text of a finite number is a number literal. -/
theorem isLiteral_finiteText (style : NumberStyle) (negative : Bool) (mantissa : Nat)
    (exponent : Int) (narrowBelow : Bool) :
    IsLiteral (style.finiteText negative mantissa exponent narrowBelow) := by
  refine ⟨_, isMagnitude_scaledText style (shortest style.tie mantissa exponent narrowBelow), ?_⟩
  rw [NumberStyle.finiteText, String.toList_ofList]
  cases negative
  · exact Or.inl rfl
  · exact Or.inr rfl

end Marginalia.Json
