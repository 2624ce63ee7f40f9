import Marginalia.Decimal.Digits

/-!
# JSON values

Numbers keep the literal they are written with: how a number is laid out is part of a stored file,
and which numbers a field takes depends on whether the literal has a fraction or an exponent.
-/

namespace Marginalia.Json

/-- A JSON value. Members of an object keep their order and may repeat. -/
inductive Value where
  | null
  | bool (value : Bool)
  | number (literal : String)
  | string (text : String)
  | array (items : List Value)
  | object (members : List (String × Value))
  deriving Repr, Inhabited

/-- The number a literal stands for: `± coefficient * 10 ^ exponent`; a whole one has neither a
fraction nor an exponent. -/
structure Numeral where
  negative : Bool
  coefficient : Nat
  exponent : Int
  whole : Bool
  deriving DecidableEq, Repr

/-- The value of a run of digits, after the digits read so far. -/
def digitsValue (start : Nat) (ds : List Char) : Nat :=
  ds.foldl (fun n d ↦ n * 10 + (d.toNat - 48)) start

def Numeral.ofLiteral (literal : String) : Numeral :=
  let chars := literal.toList
  let negative := chars.head? == some '-'
  let unsigned := if negative then chars.drop 1 else chars
  let whole := unsigned.takeWhile Char.isDigit
  let afterWhole := unsigned.drop whole.length
  let fraction := if afterWhole.head? == some '.' then (afterWhole.drop 1).takeWhile Char.isDigit
    else []
  let afterFraction := if afterWhole.head? == some '.' then afterWhole.drop (fraction.length + 1)
    else afterWhole
  let power := afterFraction.drop 1
  let magnitude := digitsValue 0 (power.filter Char.isDigit)
  let exponent : Int := if power.head? == some '-' then -(magnitude : Int) else magnitude
  ⟨negative, digitsValue 0 (whole ++ fraction), exponent - fraction.length, afterWhole.isEmpty⟩

/-- The nearest double-precision number, or `none` when there is no finite one. A huge exponent is
decided without computing the power. -/
def Numeral.toDouble? (n : Numeral) : Option Float :=
  let places : Int := (Decimal.digits n.coefficient).length + n.exponent
  let magnitude : Option Float :=
    if n.coefficient = 0 then some 0
    else if 400 < places then none
    else if places < -400 then some 0
    else
      let x := Float.ofScientific n.coefficient (decide (n.exponent < 0)) n.exponent.natAbs
      if x.isFinite then some x else none
  magnitude.map fun x ↦ if n.negative then -x else x

/-- The integer of a whole numeral. A zero with a sign is no integer. -/
def Numeral.toInt? (n : Numeral) : Option Int :=
  if n.whole && !(n.negative && n.coefficient == 0) then
    some (if n.negative then -(n.coefficient : Int) else n.coefficient)
  else none

end Marginalia.Json
