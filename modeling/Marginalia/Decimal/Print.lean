import Marginalia.Decimal.Digits
import Marginalia.Decimal.Shortest

/-!
# Number texts

Two ways to write a floating-point number with the fewest digits. Labels and reports write it
positionally, whatever its size. Stored files keep a digit after the point and switch to an
exponent for numbers that are far from one.
-/

namespace Marginalia.Decimal

/-- How a number text is laid out. Positional notation is used while the point falls at most
`mostPlaces` digits right and less than `mostZeros` zeros left of the first digit. -/
structure NumberStyle where
  tie : TieRule
  mostPlaces : Option Nat
  mostZeros : Option Nat
  wholePoint : Bool
  powerSign : Bool

/-- The digits with a point in the right place and no exponent. -/
def positional (wholePoint : Bool) (ds : List Char) (exponent : Int) : List Char :=
  let point : Int := ds.length + exponent
  if 0 ≤ exponent then
    ds ++ List.replicate exponent.toNat '0' ++ if wholePoint then ['.', '0'] else []
  else if 0 < point then
    ds.take point.toNat ++ '.' :: ds.drop point.toNat
  else
    '0' :: '.' :: List.replicate (-point).toNat '0' ++ ds

/-- The digits with a point after the first one and an exponent, whose sign may be left out when it
is positive. -/
def scientific (powerSign : Bool) (ds : List Char) (exponent : Int) : List Char :=
  let place := ds.length + exponent - 1
  let power := (if powerSign ∧ 0 ≤ place then "+" else "").toList ++ (integerText place).toList
  match ds with
  | [] => []
  | [d] => d :: 'e' :: power
  | d :: rest => d :: '.' :: rest ++ 'e' :: power

def NumberStyle.scaledText (style : NumberStyle) (number : Scaled) : List Char :=
  let ds := digits number.coefficient
  let point : Int := ds.length + number.exponent
  let fits := style.mostPlaces.all (fun most ↦ decide (point ≤ most)) &&
    style.mostZeros.all (fun most ↦ decide (-point < most))
  if number.coefficient = 0 then '0' :: if style.wholePoint then ['.', '0'] else []
  else if fits then positional style.wholePoint ds number.exponent
  else scientific style.powerSign ds number.exponent

def NumberStyle.finiteText (style : NumberStyle) (negative : Bool) (mantissa : Nat)
    (exponent : Int) (narrowBelow : Bool) : String :=
  let body := style.scaledText (shortest style.tie mantissa exponent narrowBelow)
  String.ofList (if negative then '-' :: body else body)

/-- Reports write numbers positionally and without a needless point. -/
def NumberStyle.report : NumberStyle := ⟨.up, none, none, false, false⟩

/-- Stored single-precision numbers are positional between a millionth and ten trillion. -/
def NumberStyle.storedSingle : NumberStyle := ⟨.toEven, some 13, some 6, true, true⟩

/-- Stored double-precision numbers are positional between a hundred-thousandth and ten
quadrillion. -/
def NumberStyle.storedDouble : NumberStyle := ⟨.toEven, some 16, some 5, true, true⟩

/-- Descriptions for developers are positional between a ten-thousandth and ten quadrillion. -/
def NumberStyle.description : NumberStyle := ⟨.up, some 16, some 4, true, false⟩

/-- The text of a number in a style; what is not finite has a name. -/
def FloatValue.text (style : NumberStyle) : FloatValue → String
  | .nan => "NaN"
  | .infinite negative => if negative then "-inf" else "inf"
  | .finite negative mantissa exponent narrowBelow =>
    style.finiteText negative mantissa exponent narrowBelow

def FloatValue.reportText : FloatValue → String :=
  FloatValue.text .report

/-- The text of a single-precision number in a report. -/
def singleText (x : Float32) : String :=
  (FloatValue.ofSingle x).reportText

/-- The text of a double-precision number in a report. -/
def doubleText (x : Float) : String :=
  (FloatValue.ofDouble x).reportText

end Marginalia.Decimal
