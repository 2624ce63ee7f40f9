/-!
# Decimal digits

The digits of a natural number and the number that digits stand for. All number texts of the
library are put together from these two functions.
-/

namespace Marginalia.Decimal

def digitChar (d : Nat) : Char :=
  Char.ofNat (48 + d)

/-- The decimal digits of a number, most significant first; zero has one digit. -/
def digits (n : Nat) : List Char :=
  if n < 10 then [digitChar n] else digits (n / 10) ++ [digitChar (n % 10)]
termination_by n

/-- The last `width` decimal digits of a number, filled up with zeros. -/
def paddedDigits : (width n : Nat) → List Char
  | 0, _ => []
  | width + 1, n => paddedDigits width (n / 10) ++ [digitChar (n % 10)]

def digitValue? (c : Char) : Option Nat :=
  if '0' ≤ c ∧ c ≤ '9' then some (c.toNat - 48) else none

/-- The number that digits stand for, or `none` when there is no digit or something else. -/
def ofDigits? : List Char → Option Nat
  | [] => none
  | cs => cs.foldl (fun acc c ↦ do some ((← acc) * 10 + (← digitValue? c))) (some 0)

def text (n : Nat) : String :=
  String.ofList (digits n)

def integerText (n : Int) : String :=
  if n < 0 then String.ofList ('-' :: digits n.natAbs) else text n.natAbs

/-- The character of a hexadecimal digit, in lower case. -/
def hexChar (d : Nat) : Char :=
  if d < 10 then digitChar d else Char.ofNat (87 + d)

/-- The last `width` hexadecimal digits of a number, in lower case. -/
def hexDigits : (width n : Nat) → List Char
  | 0, _ => []
  | width + 1, n => hexDigits width (n / 16) ++ [hexChar (n % 16)]

/-- The hexadecimal digits of a number without leading zeros, in lower case. -/
def hex (n : Nat) : List Char :=
  if n < 16 then [hexChar n] else hex (n / 16) ++ [hexChar (n % 16)]
termination_by n

/-- The value of a hexadecimal digit character of either case. -/
def hexValue? (c : Char) : Option Nat :=
  if '0' ≤ c ∧ c ≤ '9' then some (c.toNat - 48)
  else if 'a' ≤ c ∧ c ≤ 'f' then some (c.toNat - 87)
  else if 'A' ≤ c ∧ c ≤ 'F' then some (c.toNat - 55)
  else none

@[simp] theorem length_paddedDigits (width n : Nat) : (paddedDigits width n).length = width := by
  induction width generalizing n with
  | zero => rfl
  | succ width ih => simp [paddedDigits, ih]

@[simp] theorem length_hexDigits (width n : Nat) : (hexDigits width n).length = width := by
  induction width generalizing n with
  | zero => rfl
  | succ width ih => simp [hexDigits, ih]

theorem digits_ne_nil (n : Nat) : digits n ≠ [] := by
  rw [digits]
  split <;> simp

theorem digits_of_lt {n : Nat} (h : n < 10) : digits n = [digitChar n] := by
  rw [digits, if_pos h]

theorem digits_of_not_lt {n : Nat} (h : ¬n < 10) :
    digits n = digits (n / 10) ++ [digitChar (n % 10)] := by
  rw [digits, if_neg h]

theorem eq_of_digitChar_eq {a b : Nat} (ha : a < 10) (hb : b < 10)
    (h : digitChar a = digitChar b) : a = b := by
  have hall : ∀ a < 10, ∀ b < 10, digitChar a = digitChar b → a = b := by decide
  exact hall a ha b hb h

/-- Different numbers have different digits. -/
theorem eq_of_digits_eq {m n : Nat} (h : digits m = digits n) : m = n := by
  induction m using digits.induct generalizing n with
  | case1 m hm =>
    rw [digits_of_lt hm] at h
    by_cases hn : n < 10
    · rw [digits_of_lt hn] at h
      exact eq_of_digitChar_eq hm hn (List.head_eq_of_cons_eq h)
    · rw [digits_of_not_lt hn] at h
      simpa [digits_ne_nil] using List.append_eq_singleton_iff.mp h.symm
  | case2 m hm ih =>
    rw [digits_of_not_lt hm] at h
    by_cases hn : n < 10
    · rw [digits_of_lt hn] at h
      simpa [digits_ne_nil] using List.append_eq_singleton_iff.mp h
    · rw [digits_of_not_lt hn] at h
      obtain ⟨hinit, hlast⟩ := List.append_inj' h rfl
      have hquotient := ih hinit
      have hrest := eq_of_digitChar_eq (Nat.mod_lt m (by decide)) (Nat.mod_lt n (by decide))
        (List.head_eq_of_cons_eq hlast)
      omega

theorem eq_of_text_eq {m n : Nat} (h : text m = text n) : m = n :=
  eq_of_digits_eq (String.ofList_injective h)

/-- A hexadecimal digit reads back, in either case. -/
theorem hexValue?_hexChar {d : Nat} (h : d < 16) :
    hexValue? (hexChar d) = some d ∧ hexValue? (hexChar d).toUpper = some d := by
  have hall : ∀ d < 16,
      hexValue? (hexChar d) = some d ∧ hexValue? (hexChar d).toUpper = some d := by
    decide
  exact hall d h

end Marginalia.Decimal
