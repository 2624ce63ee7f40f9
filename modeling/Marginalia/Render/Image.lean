import Marginalia.Color
import Marginalia.Decimal.FloatValue
import Marginalia.Geometry.Basic

/-!
# Images

An image has a size and a pixel at every place. Something is painted over it by a rule for the
places it covers and a paint; a paint that is not opaque lets the pixels below shine through.
-/

namespace Marginalia.Render

/-- A pixel with an opacity. -/
structure Pixel where
  color : Color
  alpha : UInt8
  deriving DecidableEq, Repr

namespace Pixel

/-- An opaque white pixel. -/
def white : Pixel := ⟨.white, 255⟩

/-- The light grey of the edge of a blank page. -/
def edge : Pixel := ⟨⟨220, 220, 220⟩, 255⟩

/-- The text of a pixel: two hexadecimal digits for each of its four bytes. -/
def hex (p : Pixel) : String :=
  String.ofList ([p.color.red, p.color.green, p.color.blue, p.alpha].flatMap fun channel ↦
    Decimal.hexDigits 2 channel.toNat)

end Pixel

/-- A colour laid over pixels with an opacity. -/
structure Paint where
  color : Color
  alpha : UInt8
  deriving DecidableEq, Repr

namespace Paint

/-- One channel of the paint: its share of the light, rounded to the nearest. -/
def share (alpha channel : UInt8) : Nat :=
  (2 * channel.toNat * alpha.toNat + 255) / 510

/-- What is left of a channel under paint. -/
def remainder (alpha channel : UInt8) : Nat :=
  (channel.toNat * (255 - alpha.toNat) + 255) / 256

def blend (alpha paint below : UInt8) : UInt8 :=
  UInt8.ofNat (share alpha paint + remainder alpha below)

def onto (p : Paint) (below : Pixel) : Pixel :=
  if p.alpha = 255 then ⟨p.color, 255⟩
  else
    { color := ⟨blend p.alpha p.color.red below.color.red,
        blend p.alpha p.color.green below.color.green,
        blend p.alpha p.color.blue below.color.blue⟩
      alpha := blend p.alpha 255 below.alpha }

end Paint

/-- An image. Its pixels count from the upper left. -/
structure Image where
  width : Nat
  height : Nat
  pixel : Nat → Nat → Pixel

namespace Image

def filled (width height : Nat) (p : Pixel) : Image := ⟨width, height, fun _ _ ↦ p⟩

/-- The pixel at a place, if it is within the image. -/
def get? (i : Image) (x y : Nat) : Option Pixel :=
  if x < i.width ∧ y < i.height then some (i.pixel x y) else none

/-- All pixels, line by line. -/
def pixels (i : Image) : List Pixel :=
  (List.range i.height).flatMap fun y ↦ (List.range i.width).map fun x ↦ i.pixel x y

/-- The image with paint on the places that a shape covers. -/
def painted (i : Image) (covers : Nat → Nat → Bool) (paint : Paint) : Image :=
  { i with pixel := fun x y ↦ if covers x y then paint.onto (i.pixel x y) else i.pixel x y }

end Image

/-- A length as a number of pixels: rounded to the nearest, and one at least. -/
def pixelCount (length : Scalar) : Nat :=
  ((Decimal.FloatValue.ofSingle length).roundWithin 0 0xffffffff).toNat.max 1

end Marginalia.Render
