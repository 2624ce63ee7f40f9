import Marginalia.Font.Asset

/-!
# Text measures

How much room a line of text takes. Without a font an average advance for each character is taken.
-/

namespace Marginalia

abbrev TextMeasure := String → TextStyle → Size Scalar

namespace TextMeasure

/-- The average advance of a character of a family, in ems. -/
def averageAdvance : FontFamily → Scalar
  | .serif => 0.5
  | .sans => 0.55

def approximate : TextMeasure := fun text style ↦
  let advance := averageAdvance style.family * style.fontSize
  ⟨Scalar.ofNat text.length * advance, style.fontSize⟩

/-- The measure by the fonts of a library; a family without a font is measured approximately. -/
def ofLibrary (library : Font.Library) : TextMeasure := fun text style ↦
  match library.get? style.family with
  | some asset => asset.measure text style.fontSize
  | none => approximate text style

end TextMeasure

end Marginalia
