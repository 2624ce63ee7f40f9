import Marginalia.Color
import Marginalia.Decimal.Fixed
import Marginalia.Geometry.Rotation

/-!
# Content operators

The few operators that markup is made of, and how each is written on a line of its own.
-/

namespace Marginalia.Export

/-- An operator of a page description with its operands. -/
inductive Operator where
  | save
  | restore
  | fillColor (color : Color)
  | fillBox (box : Box Scalar)
  | beginText
  | endText
  | font (resource : String) (size : Scalar)
  | textMatrix (axes : Rotation.Axes Scalar) (origin : Point Scalar)
  | showCodes (codes : List Nat)
  deriving Repr

namespace Operator

/-- Numbers with a space between each two. -/
def operands (numbers : List Scalar) : String :=
  " ".intercalate (numbers.map Decimal.fixedText)

/-- The last four hexadecimal digits of a number, in upper case. -/
def codeDigits (code : Nat) : List Char :=
  (Decimal.hexDigits 4 code).map Char.toUpper

/-- The text of codes: four digits each. -/
def codesText (codes : List Nat) : String :=
  String.ofList (codes.flatMap codeDigits)

/-- The codes that digits stand for, four digits each. -/
def codes? : List Char → Option (List Nat)
  | [] => some []
  | a :: b :: c :: d :: rest => do
    let a ← Decimal.hexValue? a
    let b ← Decimal.hexValue? b
    let c ← Decimal.hexValue? c
    let d ← Decimal.hexValue? d
    return (((a * 16 + b) * 16 + c) * 16 + d) :: (← codes? rest)
  | _ => none

def line : Operator → String
  | save => "q\n"
  | restore => "Q\n"
  | fillColor color => operands ([color.red, color.green, color.blue].map Color.unit) ++ " rg\n"
  | fillBox box => operands [box.x, box.y, box.width, box.height] ++ " re f\n"
  | beginText => "BT\n"
  | endText => "ET\n"
  | font resource size => "/" ++ resource ++ " " ++ operands [size] ++ " Tf\n"
  | textMatrix axes origin =>
    operands [axes.right.x, axes.right.y, axes.up.x, axes.up.y, origin.x, origin.y] ++ " Tm\n"
  | showCodes codes => "<" ++ codesText codes ++ "> Tj\n"

def lines (operators : List Operator) : String :=
  String.join (operators.map line)

end Operator

end Marginalia.Export
