import Marginalia.Decimal.Digits
import Marginalia.Geometry.Basic

/-!
# Page rotation

A page is shown turned clockwise by a multiple of ninety degrees. Document units are those of the
displayed page, with `y` downward; a page description uses the unturned page, with `y` upward. The
functions of this file relate the two and are stated for any numbers, so that they can be computed
with and reasoned about alike.
-/

namespace Marginalia

/-- A clockwise turn by a multiple of ninety degrees. -/
inductive Rotation where
  | upright
  | quarter
  | half
  | threeQuarters
  deriving DecidableEq, Repr, Inhabited

/-- A number of degrees that is no page rotation. -/
structure InvalidRotation where
  degrees : Int
  deriving DecidableEq, Repr

def InvalidRotation.message (e : InvalidRotation) : String :=
  "invalid page rotation " ++ Decimal.integerText e.degrees ++ ", expected 0, 90, 180 or 270"

namespace Rotation

def degrees : Rotation → Int
  | upright => 0
  | quarter => 90
  | half => 180
  | threeQuarters => 270

def ofDegrees (n : Int) : Except InvalidRotation Rotation :=
  if n = 0 then .ok upright
  else if n = 90 then .ok quarter
  else if n = 180 then .ok half
  else if n = 270 then .ok threeQuarters
  else .error ⟨n⟩

/-- Whether the displayed page has the sides of the unturned one exchanged. -/
def swapsAxes : Rotation → Bool
  | quarter => true
  | threeQuarters => true
  | _ => false

variable {α : Type}

/-- The point of the unturned page under a point of the displayed page of the given size. -/
def toOutput [Sub α] (page : Size α) (p : Point α) : Rotation → Point α
  | upright => ⟨p.x, page.height - p.y⟩
  | quarter => ⟨p.y, p.x⟩
  | half => ⟨page.width - p.x, p.y⟩
  | threeQuarters => ⟨page.height - p.y, page.width - p.x⟩

/-- The point of the displayed page over a point of the unturned page. -/
def fromOutput [Sub α] (page : Size α) (p : Point α) : Rotation → Point α
  | upright => ⟨p.x, page.height - p.y⟩
  | quarter => ⟨p.y, p.x⟩
  | half => ⟨page.width - p.x, p.y⟩
  | threeQuarters => ⟨page.width - p.y, page.height - p.x⟩

/-- The images of the displayed directions "right" and "up" on the unturned page. -/
structure Axes (α : Type) where
  right : Point α
  up : Point α
  deriving Repr

/-- The axes along which text has to run to be upright on the displayed page. -/
def textAxes [OfNat α 0] [OfNat α 1] [Neg α] : Rotation → Axes α
  | upright => ⟨⟨1, 0⟩, ⟨0, 1⟩⟩
  | quarter => ⟨⟨0, 1⟩, ⟨-1, 0⟩⟩
  | half => ⟨⟨-1, 0⟩, ⟨0, -1⟩⟩
  | threeQuarters => ⟨⟨0, -1⟩, ⟨1, 0⟩⟩

def displayed (page : Size α) (rotation : Rotation) : Size α :=
  if rotation.swapsAxes then ⟨page.height, page.width⟩ else page

end Rotation

end Marginalia
