import Marginalia.Decimal.FloatValue

/-!
# The fewest digits that read back

Among the decimals that round to a given floating-point number, the shortest one nearest to it is
chosen. All decimal grids from the coarsest to the finest are tried in turn; a grid has a hit when
one of the two neighbours of the number on it still rounds to the number, and of two hits the
nearer one wins.
-/

namespace Marginalia.Decimal

/-- The decimal number `coefficient * 10 ^ exponent`. -/
structure Scaled where
  coefficient : Nat
  exponent : Int
  deriving DecidableEq, Repr

/-- Which of two equally near decimals is chosen. -/
inductive TieRule where
  | up
  | toEven
  deriving DecidableEq, Repr

/-- The multiple of `10 ^ k` that rounds to `m * 2 ^ e`, if one does. Numbers are compared in units
of a quarter of `2 ^ e`, multiplied so that both sides are natural: `x * 2 ^ (e - 2)` against
`d * 10 ^ k` becomes `x * a` against `d * b`. -/
def gridHit? (tie : TieRule) (m : Nat) (e : Int) (narrowBelow : Bool) (k : Int) : Option Nat :=
  let a := Nat.pow 2 (e - 2).toNat * Nat.pow 10 (-k).toNat
  let b := Nat.pow 2 (2 - e).toNat * Nat.pow 10 k.toNat
  let value := 4 * m * a
  let low := (4 * m - if narrowBelow then 1 else 2) * a
  let high := (4 * m + 2) * a
  let closed := m % 2 == 0
  let rounds (d : Nat) : Bool :=
    d != 0 && if closed then low ≤ d * b && d * b ≤ high else low < d * b && d * b < high
  let below := value / b
  let above := below + 1
  if rounds below then
    if rounds above then
      let down := value - below * b
      let up := above * b - value
      if down < up then some below
      else if up < down then some above
      else
        match tie with
        | .up => some above
        | .toEven => some (if below % 2 = 0 then below else above)
    else some below
  else if rounds above then some above
  else none

/-- The first hit on the grids `10 ^ k`, `10 ^ (k - 1)`, … -/
def firstHit (tie : TieRule) (m : Nat) (e : Int) (narrowBelow : Bool) : Nat → Int → Scaled
  | 0, k => ⟨0, k⟩
  | steps + 1, k =>
    match gridHit? tie m e narrowBelow k with
    | some d => ⟨d, k⟩
    | none => firstHit tie m e narrowBelow steps (k - 1)

/-- The shortest decimal that reads back as `m * 2 ^ e`. The search starts above the leading digit
and a number of at most 53 bits has a hit within seventeen digits. -/
def shortest (tie : TieRule) (m : Nat) (e : Int) (narrowBelow : Bool) : Scaled :=
  if m = 0 then ⟨0, 0⟩
  else firstHit tie m e narrowBelow 24 ((m.log2 + 1 + e) * 30103 / 100000 + 2)

end Marginalia.Decimal
