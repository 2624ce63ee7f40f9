import Marginalia.Decimal.Digits
import Marginalia.Decimal.FloatValue

/-!
# Numbers with few decimals

Page descriptions hold numbers with at most three digits after the point, without zeros at the end
and without a sign on zero. A number half-way between two such numbers goes to the even one.
-/

namespace Marginalia.Decimal

/-- How many thousandths a number `mantissa * 2 ^ exponent` has; a half goes to the even
neighbour. -/
def thousandths (mantissa : Nat) (exponent : Int) : Nat :=
  if 0 ≤ exponent then 1000 * mantissa * Nat.pow 2 exponent.toNat
  else
    let unit := Nat.pow 2 (-exponent).toNat
    let whole := 1000 * mantissa / unit
    let rest := 1000 * mantissa % unit
    if 2 * rest < unit ∨ (2 * rest = unit ∧ whole % 2 = 0) then whole else whole + 1

/-- Remove a character from the end of a text, as often as it stands there. -/
def trimEndOf (c : Char) (text : List Char) : List Char :=
  (text.reverse.dropWhile (· == c)).reverse

/-- A number of thousandths with three digits after the point. -/
def thousandthsText (n : Nat) : List Char :=
  digits (n / 1000) ++ '.' :: paddedDigits 3 (n % 1000)

/-- Remove the zeros at the end, then a point that they leave there, and the sign of zero. -/
def withoutZeros (text : List Char) : List Char :=
  match trimEndOf '.' (trimEndOf '0' text) with
  | [] | ['-', '0'] => ['0']
  | trimmed => trimmed

/-- The text of a number with at most three decimals. -/
def FloatValue.fixedText : FloatValue → String
  | .nan => "NaN"
  | .infinite negative => if negative then "-inf" else "inf"
  | .finite negative mantissa exponent _ =>
    let text := thousandthsText (thousandths mantissa exponent)
    String.ofList (withoutZeros (if negative then '-' :: text else text))

/-- The text of a single-precision number with at most three decimals. -/
def fixedText (x : Float32) : String :=
  (FloatValue.ofSingle x).fixedText

end Marginalia.Decimal
