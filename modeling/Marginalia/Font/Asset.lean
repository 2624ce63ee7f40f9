import Marginalia.Annotation.Set
import Marginalia.Ascending
import Marginalia.Font.Face

/-!
# Font assets

The fonts that labels are set in, at most one for each family. An asset keeps the bytes of its font,
because documents get a copy of them, next to the measures that are needed all the time.
-/

namespace Marginalia

/-- Something for each of some families. -/
structure FamilyTable (α : Type) where
  serif? : Option α
  sans? : Option α
  deriving Repr

namespace FamilyTable

variable {α β : Type}

def empty : FamilyTable α := ⟨none, none⟩

def get? (t : FamilyTable α) : FontFamily → Option α
  | .serif => t.serif?
  | .sans => t.sans?

def set (t : FamilyTable α) (family : FontFamily) (a : α) : FamilyTable α :=
  match family with
  | .serif => { t with serif? := some a }
  | .sans => { t with sans? := some a }

def ofFunction (f : FontFamily → Option α) : FamilyTable α := ⟨f .serif, f .sans⟩

/-- The families that have something, in their order. -/
def families (t : FamilyTable α) : List FontFamily :=
  FontFamily.all.filter fun family ↦ (t.get? family).isSome

/-- What there is, in the order of the families. -/
def toList (t : FamilyTable α) : List (FontFamily × α) :=
  FontFamily.all.filterMap fun family ↦ (t.get? family).map fun a ↦ (family, a)

@[simp] theorem get?_ofFunction (f : FontFamily → Option α) (family : FontFamily) :
    (ofFunction f).get? family = f family := by
  cases family <;> rfl

@[simp] theorem get?_set_self (t : FamilyTable α) (family : FontFamily) (a : α) :
    (t.set family a).get? family = some a := by
  cases family <;> rfl

theorem get?_set_of_ne {t : FamilyTable α} {family other : FontFamily} {a : α}
    (h : other ≠ family) : (t.set family a).get? other = t.get? other := by
  cases family <;> cases other <;> first | rfl | exact absurd rfl h

end FamilyTable

namespace Font

/-- Measures of a font, in font units. -/
structure Metrics where
  unitsPerEm : Nat
  extent : Extent
  capHeight : Int
  box : FontBox
  deriving DecidableEq, Repr

namespace Metrics

def ofFace (f : Face) : Metrics :=
  ⟨f.header.unitsPerEm, f.extent, f.capHeight, f.header.box⟩

/-- Font units as thousandths of the font size, rounded to the nearest; a half goes away from
zero. -/
def toThousandths (m : Metrics) (units : Int) : Int :=
  let magnitude := (2 * 1000 * units.natAbs + m.unitsPerEm) / (2 * m.unitsPerEm)
  if units < 0 then -(magnitude : Int) else magnitude

def lineHeight (m : Metrics) (fontSize : Scalar) : Scalar :=
  (Float32.ofInt m.extent.ascender - Float32.ofInt m.extent.descender) /
    Scalar.ofNat m.unitsPerEm * fontSize

end Metrics

/-- The hash of some bytes by which fonts and sets of characters are told apart. -/
def hash (bytes : Bytes) : UInt64 :=
  bytes.foldl (fun h b ↦ (h ^^^ b.toUInt64) * 0x100000001b3) 0xcbf29ce484222325

/-- A font that labels of a family are set in. -/
structure Asset where
  family : FontFamily
  bytes : Bytes
  metrics : Metrics
  fingerprint : UInt64
  deriving Repr

namespace Asset

def ofBytes? (family : FontFamily) (bytes : Bytes) : Option Asset := do
  return ⟨family, bytes, .ofFace (← Face.ofBytes? bytes), hash bytes⟩

/-- The width of a text in font units; characters that the font does not have are as wide as the
glyph that stands for them. -/
def textUnits (f : Face) (text : String) : Nat :=
  text.toList.foldl (fun units c ↦ units + (f.advance? ((f.glyph? c).getD 0)).getD 0) 0

/-- The size of a line of text at a font size. -/
def measure (a : Asset) (text : String) (fontSize : Scalar) : Size Scalar :=
  let height := a.metrics.lineHeight fontSize
  match Face.ofBytes? a.bytes with
  | none => ⟨0, height⟩
  | some f =>
    ⟨Scalar.ofNat (textUnits f text) / Scalar.ofNat a.metrics.unitsPerEm * fontSize, height⟩

end Asset

abbrev Library := FamilyTable Asset

namespace Library

/-- The library of the fonts among some files; a file that is missing or no font is passed over. -/
def ofFiles (files : FamilyTable Bytes) : Library :=
  .ofFunction fun family ↦ (files.get? family).bind (Asset.ofBytes? family)

end Library

/-! ## The characters of labels -/

/-- The distinct characters of texts, ascending. -/
def charactersOf (texts : List String) : List Char :=
  Ascending.ofList Char.toNat (texts.flatMap String.toList)

/-- The distinct characters of the labels of each family that is used by a label with a text. -/
def usage (annotations : AnnotationSet) : FamilyTable (List Char) :=
  .ofFunction fun family ↦
    let texts := (annotations.labels.filter fun l ↦ !l.text.isEmpty && l.style.family == family).map
      Label.text
    if texts.isEmpty then none else some (charactersOf texts)

end Font

end Marginalia
