import Marginalia.Decimal.Digits

/-!
# Digits read back

The digits of a number are digit characters, do not begin with a needless zero, and stand for the
number again.
-/

namespace Marginalia.Decimal

theorem isDigit_digitChar {d : Nat} (h : d < 10) : (digitChar d).isDigit = true := by
  have hall : ∀ d < 10, (digitChar d).isDigit = true := by decide
  exact hall d h

theorem digitValue?_digitChar {d : Nat} (h : d < 10) : digitValue? (digitChar d) = some d := by
  have hall : ∀ d < 10, digitValue? (digitChar d) = some d := by decide
  exact hall d h

theorem isDigit_of_mem_digits {n : Nat} {c : Char} (h : c ∈ digits n) : c.isDigit = true := by
  induction n using digits.induct with
  | case1 n hn =>
    rw [digits_of_lt hn, List.mem_singleton] at h
    rw [h]
    exact isDigit_digitChar hn
  | case2 n hn ih =>
    rw [digits_of_not_lt hn, List.mem_append, List.mem_singleton] at h
    rcases h with hinit | rfl
    · exact ih hinit
    · exact isDigit_digitChar (Nat.mod_lt n (by decide))

theorem isDigit_of_mem_paddedDigits {width n : Nat} {c : Char} (h : c ∈ paddedDigits width n) :
    c.isDigit = true := by
  induction width generalizing n with
  | zero => cases h
  | succ width ih =>
    rw [paddedDigits, List.mem_append, List.mem_singleton] at h
    rcases h with hinit | rfl
    · exact ih hinit
    · exact isDigit_digitChar (Nat.mod_lt n (by decide))

theorem exists_cons_paddedDigits {width : Nat} (hwidth : width ≠ 0) (n : Nat) :
    ∃ c cs, paddedDigits width n = c :: cs ∧ c.isDigit = true := by
  have hne : paddedDigits width n ≠ [] := by
    intro hnil
    exact hwidth (by rw [← length_paddedDigits width n, hnil]; rfl)
  obtain ⟨c, cs, hcons⟩ := List.exists_cons_of_ne_nil hne
  exact ⟨c, cs, hcons, isDigit_of_mem_paddedDigits (by rw [hcons]; exact List.mem_cons_self)⟩

/-- Only zero begins with the digit zero. -/
theorem head?_digits_ne {n : Nat} (h : n ≠ 0) : (digits n).head? ≠ some '0' := by
  induction n using digits.induct with
  | case1 n hn =>
    rw [digits_of_lt hn]
    have hall : ∀ n < 10, n ≠ 0 → [digitChar n].head? ≠ some '0' := by decide
    exact hall n hn h
  | case2 n hn ih =>
    have hinit := ih (by omega)
    obtain ⟨c, rest, hdigits⟩ := List.exists_cons_of_ne_nil (digits_ne_nil (n / 10))
    rw [hdigits] at hinit
    rw [digits_of_not_lt hn, hdigits]
    exact hinit

/-! ## Runs of digits -/

/-- Characters that do not carry on a run of digits. -/
def EndsDigits (rest : List Char) : Prop :=
  ∀ c, rest.head? = some c → c.isDigit = false

theorem endsDigits_cons {c : Char} (h : c.isDigit = false) (rest : List Char) :
    EndsDigits (c :: rest) := by
  intro d hd
  obtain rfl := Option.some.inj hd
  exact h

theorem takeWhile_isDigit {ds rest : List Char} (h : ∀ c ∈ ds, c.isDigit = true)
    (hrest : EndsDigits rest) : (ds ++ rest).takeWhile Char.isDigit = ds := by
  rw [List.takeWhile_append_of_pos h]
  cases rest with
  | nil => simp
  | cons c rest =>
    rw [List.takeWhile_cons_of_neg (by rw [hrest c rfl]; exact Bool.false_ne_true), List.append_nil]

/-! ## The value of digits -/

/-- The value of digits after those read so far. -/
def readOn (start : Option Nat) (cs : List Char) : Option Nat :=
  cs.foldl (fun acc c ↦ do some ((← acc) * 10 + (← digitValue? c))) start

theorem ofDigits?_eq {cs : List Char} (h : cs ≠ []) : ofDigits? cs = readOn (some 0) cs := by
  cases cs with
  | nil => exact absurd rfl h
  | cons c rest => rfl

theorem readOn_concat (start : Option Nat) (cs : List Char) {value d : Nat} (hd : d < 10)
    (h : readOn start cs = some value) :
    readOn start (cs ++ [digitChar d]) = some (value * 10 + d) := by
  rw [readOn] at h ⊢
  rw [List.foldl_append, h, List.foldl_cons, List.foldl_nil, digitValue?_digitChar hd]
  rfl

theorem readOn_digits (n : Nat) : readOn (some 0) (digits n) = some n := by
  induction n using digits.induct with
  | case1 n hn =>
    rw [digits_of_lt hn]
    simpa using readOn_concat (some 0) [] hn rfl
  | case2 n hn ih =>
    rw [digits_of_not_lt hn, readOn_concat _ _ (Nat.mod_lt n (by decide)) ih]
    exact congrArg some (by omega)

theorem readOn_paddedDigits (width n : Nat) :
    readOn (some 0) (paddedDigits width n) = some (n % Nat.pow 10 width) := by
  induction width generalizing n with
  | zero => exact congrArg some (Nat.mod_one n).symm
  | succ width ih =>
    rw [paddedDigits, readOn_concat _ _ (Nat.mod_lt n (by decide)) (ih (n / 10))]
    refine congrArg some ?_
    have hpow : Nat.pow 10 (width + 1) = 10 * Nat.pow 10 width := Nat.mul_comm _ _
    rw [hpow, Nat.mod_mul]
    omega

theorem ofDigits?_paddedDigits {width : Nat} (hwidth : width ≠ 0) (n : Nat) :
    ofDigits? (paddedDigits width n) = some (n % Nat.pow 10 width) := by
  obtain ⟨c, cs, hcons, -⟩ := exists_cons_paddedDigits hwidth n
  rw [ofDigits?_eq (by rw [hcons]; exact List.cons_ne_nil c cs), readOn_paddedDigits]

/-- A number that has no more digits than there is room for is read again. -/
theorem ofDigits?_paddedDigits_of_lt {width n : Nat} (hwidth : width ≠ 0)
    (hn : n < Nat.pow 10 width) : ofDigits? (paddedDigits width n) = some n := by
  rw [ofDigits?_paddedDigits hwidth, Nat.mod_eq_of_lt hn]

end Marginalia.Decimal
