import Marginalia.Decimal.Digits
import Marginalia.Text.Blank
import Marginalia.Text.Quoted

/-!
# Colours

An opaque colour with one byte per channel. Its text is a number sign and two hexadecimal digits
per channel. Reading also takes capital digits and a plus sign in the place of a leading zero.
-/

namespace Marginalia

/-- An opaque colour. -/
structure Color where
  red : UInt8
  green : UInt8
  blue : UInt8
  deriving DecidableEq, Repr, Inhabited

/-- A text that is no colour. -/
structure ColorError where
  text : String
  deriving DecidableEq, Repr

def ColorError.message (e : ColorError) : String :=
  "invalid color " ++ Text.quoted e.text ++ ", expected #rrggbb"

namespace Color

def black : Color := ⟨0, 0, 0⟩

def white : Color := ⟨255, 255, 255⟩

def hex (c : Color) : String :=
  String.ofList ('#' :: [c.red, c.green, c.blue].flatMap fun channel ↦
    Decimal.hexDigits 2 channel.toNat)

/-- A channel from zero to one. -/
def unit (channel : UInt8) : Float32 :=
  channel.toFloat32 / 255

/-- The value of the two characters of a channel. -/
def channel? (high low : Char) : Option UInt8 := do
  let low ← Decimal.hexValue? low
  if high = '+' then return UInt8.ofNat low
  let high ← Decimal.hexValue? high
  return UInt8.ofNat (high * 16 + low)

/-- The colour of a text without surrounding blanks. -/
def ofChars? : List Char → Option Color
  | ['#', r₁, r₀, g₁, g₀, b₁, b₀] => do
    return ⟨← channel? r₁ r₀, ← channel? g₁ g₀, ← channel? b₁ b₀⟩
  | _ => none

/-- Read a colour; blanks around it do not count. -/
def parse (text : String) : Except ColorError Color :=
  match ofChars? (Text.trim text.toList) with
  | some color => .ok color
  | none => .error ⟨text⟩

end Color

end Marginalia
