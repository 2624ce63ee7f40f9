/-!
# The value of a floating-point number

The bits of a binary floating-point number are decoded once, into a sign, a natural mantissa and a
power of two. Texts of numbers are computed from this exact value and never from rounded
arithmetic.
-/

namespace Marginalia.Decimal

/-- What the bits of a binary floating-point number stand for; a finite one is
`± mantissa * 2 ^ exponent`. A number at the lower end of its binade has closer neighbours below
than above, which `narrowBelow` says. -/
inductive FloatValue where
  | nan
  | infinite (negative : Bool)
  | finite (negative : Bool) (mantissa : Nat) (exponent : Int) (narrowBelow : Bool)
  deriving DecidableEq, Repr

/-- The widths of the two fields below the sign bit. -/
structure BitLayout where
  fractionBits : Nat
  exponentBits : Nat

def BitLayout.single : BitLayout := ⟨23, 8⟩

def BitLayout.double : BitLayout := ⟨52, 11⟩

/-- The exponent of the unit of the smallest numbers. -/
def BitLayout.lowestExponent (layout : BitLayout) : Int :=
  2 - Nat.pow 2 (layout.exponentBits - 1) - layout.fractionBits

def FloatValue.ofBits (layout : BitLayout) (bits : Nat) : FloatValue :=
  let fraction := bits % Nat.pow 2 layout.fractionBits
  let biased := bits / Nat.pow 2 layout.fractionBits % Nat.pow 2 layout.exponentBits
  let negative := bits / Nat.pow 2 (layout.fractionBits + layout.exponentBits) % 2 == 1
  if biased + 1 = Nat.pow 2 layout.exponentBits then
    if fraction = 0 then .infinite negative else .nan
  else if biased = 0 then
    .finite negative fraction layout.lowestExponent false
  else
    .finite negative (Nat.pow 2 layout.fractionBits + fraction)
      (layout.lowestExponent + (biased - 1))
      (fraction == 0 && biased != 1)

def FloatValue.ofSingle (x : Float32) : FloatValue :=
  .ofBits .single x.toBits.toNat

def FloatValue.ofDouble (x : Float) : FloatValue :=
  .ofBits .double x.toBits.toNat

/-- The value truncated toward zero; an infinity or no number at all gives `none`. -/
def FloatValue.truncate? : FloatValue → Option Int
  | .nan => none
  | .infinite _ => none
  | .finite negative mantissa exponent _ =>
    let magnitude : Nat :=
      if 0 ≤ exponent then mantissa * Nat.pow 2 exponent.toNat
      else mantissa / Nat.pow 2 (-exponent).toNat
    some (if negative then -(magnitude : Int) else magnitude)

/-- The nearest integer, where a half goes away from zero; an infinity or no number at all gives
`none`. -/
def FloatValue.round? : FloatValue → Option Int
  | .nan => none
  | .infinite _ => none
  | .finite negative mantissa exponent _ =>
    let magnitude : Nat :=
      if 0 ≤ exponent then mantissa * Nat.pow 2 exponent.toNat
      else (2 * mantissa + Nat.pow 2 (-exponent).toNat) / Nat.pow 2 ((-exponent).toNat + 1)
    some (if negative then -(magnitude : Int) else magnitude)

/-- The nearest integer within bounds that include zero, which stands for no number at all. -/
def FloatValue.roundWithin (lower upper : Int) : FloatValue → Int
  | .infinite negative => if negative then lower else upper
  | value => max lower (min upper (value.round?.getD 0))

/-- The value truncated toward zero and kept within bounds that include zero, which stands for
no number at all. -/
def FloatValue.clampToInt (lower upper : Int) : FloatValue → Int
  | .infinite negative => if negative then lower else upper
  | value => max lower (min upper (value.truncate?.getD 0))

/-- The multiple of a power of two nearest to a number; of two that are equally near, the even
one. -/
def roundToEven (mantissa places : Nat) : Nat :=
  let unit := Nat.pow 2 places
  let below := mantissa / unit
  let rest := 2 * (mantissa % unit)
  if rest < unit ∨ (rest = unit ∧ below % 2 = 0) then below else below + 1

/-- The bits of the positive single-precision number nearest to `mantissa * 2 ^ exponent`. They are
the mantissa with its leading one added to the exponent field, so rounding up to the next power of
two carries into it; the largest numbers become infinite. -/
def singleBits (mantissa : Nat) (exponent : Int) : Nat :=
  let unit := max (exponent + mantissa.log2 - BitLayout.single.fractionBits)
    BitLayout.single.lowestExponent
  let rounded :=
    if unit ≤ exponent then mantissa * Nat.pow 2 (exponent - unit).toNat
    else roundToEven mantissa (unit - exponent).toNat
  min ((unit - BitLayout.single.lowestExponent).toNat * Nat.pow 2 BitLayout.single.fractionBits +
    rounded) 0x7F800000

/-- The single-precision number nearest to a double-precision one. -/
def toSingle (x : Float) : Float32 :=
  let signed (negative : Bool) (bits : Nat) : Float32 :=
    Float32.ofBits (UInt32.ofNat (if negative then 0x80000000 + bits else bits))
  match FloatValue.ofDouble x with
  | .nan => signed false 0x7FC00000
  | .infinite negative => signed negative 0x7F800000
  | .finite negative mantissa exponent _ => signed negative (singleBits mantissa exponent)

end Marginalia.Decimal
