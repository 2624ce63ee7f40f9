import Marginalia.Decimal.Print
import Marginalia.Font.Words
import Marginalia.Geometry.Basic

/-!
# Glyph outlines

A glyph is drawn by closed contours. A contour is a ring of points, some on the curve and some
beside it; between two neighbours beside the curve a point on it is implied half-way. A composite
glyph places other glyphs.
-/

namespace Marginalia.Font

/-- A point of a contour. -/
structure OutlinePoint where
  position : Point Scalar
  onCurve : Bool
  deriving Repr

/-- A step of a path. -/
inductive PathStep where
  | move (stop : Point Scalar)
  | line (stop : Point Scalar)
  | curve (control stop : Point Scalar)
  | close
  deriving Repr

namespace PathStep

/-- The text of two coordinates. -/
def pointText (p : Point Scalar) : String :=
  Decimal.singleText p.x ++ " " ++ Decimal.singleText p.y

def text : PathStep → String
  | move p => "M" ++ pointText p
  | line p => "L" ++ pointText p
  | curve c p => "Q" ++ pointText c ++ " " ++ pointText p
  | close => "Z"

end PathStep

/-! ## Contours -/

namespace Contour

/-- The point half-way between two points. -/
def midpoint (a b : Point Scalar) : Point Scalar :=
  ⟨a.x + 0.5 * (b.x - a.x), a.y + 0.5 * (b.y - a.y)⟩

/-- The steps through some points and back to the start. The control point of a curve that is
under way is given. -/
def walk (start : Point Scalar) : Option (Point Scalar) → List OutlinePoint → List PathStep
  | none, [] => [.line start, .close]
  | some control, [] => [.curve control start, .close]
  | none, p :: rest =>
    if p.onCurve then .line p.position :: walk start none rest
    else walk start (some p.position) rest
  | some control, p :: rest =>
    if p.onCurve then .curve control p.position :: walk start none rest
    else .curve control (midpoint control p.position) :: walk start (some p.position) rest

/-- The path of a contour. It starts at the first point on the curve; when that is an implied one,
or the second one, the walk ends through the first point. -/
def path : List OutlinePoint → List PathStep
  | [] => []
  | first :: rest =>
    if first.onCurve then .move first.position :: walk first.position none rest
    else
      match rest with
      | [] => [.close]
      | second :: rest =>
        let start :=
          if second.onCurve then second.position else midpoint first.position second.position
        let control? := if second.onCurve then none else some second.position
        .move start :: walk start control? (rest ++ [first])

/-- Cut points into contours by the numbers of their last points. A contour has a point even where
the numbers do not ascend. -/
def split : (next : Nat) → (ends : List Nat) → List OutlinePoint → List (List OutlinePoint)
  | _, [], _ => []
  | next, last :: ends, points =>
    let count := max 1 (last + 1 - next)
    points.take count :: split (last + 1) ends (points.drop count)

end Contour

/-! ## Simple glyphs -/

/-- How the coordinates of a point are stored. -/
structure PointFlags where
  byte : Nat

namespace PointFlags

/-- Whether the point lies on the outline. -/
def onCurve (f : PointFlags) : Bool := f.byte.testBit 0

/-- Whether a count of repetitions follows. -/
def repeats (f : PointFlags) : Bool := f.byte.testBit 3

/-- How one coordinate is stored: in a byte or in a word, and whether that byte is added or the
previous value kept. -/
structure Axis where
  short : Bool
  sameOrPositive : Bool

/-- How the horizontal step is written. -/
def horizontal (f : PointFlags) : Axis := ⟨f.byte.testBit 1, f.byte.testBit 4⟩

/-- How the vertical step is written. -/
def vertical (f : PointFlags) : Axis := ⟨f.byte.testBit 2, f.byte.testBit 5⟩

/-- The flags of a number of points, and the bytes behind them. A flag may be followed by the
number of its repetitions. -/
def read? : Nat → Bytes → Option (List PointFlags × Bytes)
  | 0, rest => some ([], rest)
  | _ + 1, [] => none
  | count + 1, b :: rest =>
    let flags : PointFlags := ⟨b.toNat⟩
    if flags.repeats then
      match rest with
      | [] => none
      | extra :: rest =>
        if extra.toNat ≤ count then do
          let (more, rest) ← read? (count - extra.toNat) rest
          return (List.replicate (extra.toNat + 1) flags ++ more, rest)
        else none
    else do
      let (more, rest) ← read? count rest
      return (flags :: more, rest)

end PointFlags

/-- The values of a coordinate of points, each relative to the previous one, and the bytes behind
them. -/
def readAxis? : Int → List PointFlags.Axis → Bytes → Option (List Int × Bytes)
  | _, [], rest => some ([], rest)
  | value, axis :: axes, bytes => do
    let (change, rest) ←
      match axis.short, axis.sameOrPositive, bytes with
      | true, positive, b :: rest =>
        some (if positive then (b.toNat : Int) else -(b.toNat : Int), rest)
      | false, true, rest => some (0, rest)
      | false, false, a :: b :: rest => some (signed (a.toNat * 256 + b.toNat), rest)
      | _, _, _ => none
    let value := (value + change).bmod 65536
    let (values, rest) ← readAxis? value axes rest
    return (value :: values, rest)

/-- The contours of a simple glyph. A glyph of a single point has none. -/
def contours? (contourCount : Nat) (bytes : Bytes) : Option (List (List OutlinePoint)) := do
  let ends ← wordsAt? bytes 0 contourCount
  let total := (← ends.getLast?) + 1
  guard (total < 65536)
  if total = 1 then return []
  let instructions ← word? bytes (2 * contourCount)
  let (flags, rest) ← PointFlags.read? total (bytes.drop (2 * contourCount + 2 + instructions))
  let (xs, rest) ← readAxis? 0 (flags.map PointFlags.horizontal) rest
  let (ys, _) ← readAxis? 0 (flags.map PointFlags.vertical) rest
  let points := ((xs.zip ys).zip flags).map fun ((x, y), f) ↦
    ⟨⟨Float32.ofInt x, Float32.ofInt y⟩, f.onCurve⟩
  return (Contour.split 0 ends points).filter fun contour ↦ !contour.isEmpty

/-! ## Composite glyphs -/

/-- An affine map of the plane; `a b` and `c d` are the images of the two axes. -/
structure Placement where
  a : Scalar
  b : Scalar
  c : Scalar
  d : Scalar
  e : Scalar
  f : Scalar
  deriving Repr

namespace Placement

/-- The placement that moves nothing. -/
def identity : Placement := ⟨1, 0, 0, 1, 0, 0⟩

/-- The inner placement followed by the outer one. -/
def after (outer inner : Placement) : Placement where
  a := outer.a * inner.a + outer.c * inner.b
  b := outer.b * inner.a + outer.d * inner.b
  c := outer.a * inner.c + outer.c * inner.d
  d := outer.b * inner.c + outer.d * inner.d
  e := outer.a * inner.e + outer.c * inner.f + outer.e
  f := outer.b * inner.e + outer.d * inner.f + outer.f

def apply (t : Placement) (p : Point Scalar) : Point Scalar :=
  ⟨t.a * p.x + t.c * p.y + t.e, t.b * p.x + t.d * p.y + t.f⟩

end Placement

/-- A glyph placed in a composite glyph, and where its number stands among the bytes. -/
structure Component where
  glyph : Nat
  place : Nat
  placement : Placement
  deriving Repr

namespace Component

/-- A number between two and minus two, stored in two bytes. -/
def fraction? (bytes : Bytes) (position : Nat) : Option Scalar := do
  return Float32.ofInt (← signedWord? bytes position) / 16384

/-- An offset that is stored in one byte or in two. -/
def offset? (bytes : Bytes) (position : Nat) (wide : Bool) : Option Scalar :=
  if wide then (signedWord? bytes position).map Float32.ofInt
  else (bytes[position]?).map fun b ↦ Float32.ofInt ((b.toNat : Int).bmod 256)

/-- The components listed from a position on, at most a number of them; a list that is cut short
ends with its last whole component. A component without a shift has none stored. -/
def listFrom (bytes : Bytes) : (limit position : Nat) → List Component
  | 0, _ => []
  | limit + 1, position =>
    let read : Option (Component × Nat × Bool) := do
      let flags ← word? bytes position
      let glyph ← word? bytes (position + 2)
      let wide := flags.testBit 0
      let step := if wide then 2 else 1
      let first := position + 4
      let shifts := flags.testBit 1
      let matrix := if shifts then first + 2 * step else first
      let e ← if shifts then offset? bytes first wide else some 0
      let f ← if shifts then offset? bytes (first + step) wide else some 0
      let (placement, next) ←
        if flags.testBit 7 then do
          let a ← fraction? bytes matrix
          let b ← fraction? bytes (matrix + 2)
          let c ← fraction? bytes (matrix + 4)
          let d ← fraction? bytes (matrix + 6)
          some ((⟨a, b, c, d, e, f⟩ : Placement), matrix + 8)
        else if flags.testBit 6 then do
          let a ← fraction? bytes matrix
          let d ← fraction? bytes (matrix + 2)
          some (⟨a, 0, 0, d, e, f⟩, matrix + 4)
        else if flags.testBit 3 then do
          let a ← fraction? bytes matrix
          some (⟨a, 0, 0, a, e, f⟩, matrix + 2)
        else some (⟨1, 0, 0, 1, e, f⟩, matrix)
      return (⟨glyph, position + 2, placement⟩, next, flags.testBit 5)
    match read with
    | none => []
    | some (component, next, more) => component :: if more then listFrom bytes limit next else []

end Component

/-- What the bytes of a glyph describe. -/
inductive GlyphShape where
  | empty
  | simple (contours : List (List OutlinePoint))
  | composite (components : List Component)
  | broken
  deriving Repr

def GlyphShape.ofBytes (bytes : Bytes) : GlyphShape :=
  match signedWord? bytes 0 with
  | none => .broken
  | some count =>
    if 0 < count then
      match contours? count.toNat (bytes.drop 10) with
      | some contours => .simple contours
      | none => .broken
    else if count < 0 then .composite (Component.listFrom bytes bytes.length 10)
    else .empty

/-- A drawing that is under way: the steps so far, and whether it can go on. -/
structure Drawing where
  steps : List PathStep
  sound : Bool

/-- How deep composite glyphs may be nested. -/
def compositeDepth : Nat := 32

/-- Add the path of a glyph to a drawing. Glyphs are given by their bytes; one that has none is
left out, and one that is broken ends the drawing. -/
def Drawing.addGlyph (glyph? : Nat → Option Bytes) :
    Nat → Drawing → Placement → Bytes → Drawing
  | 0, drawing, _, _ => { drawing with sound := false }
  | depth + 1, drawing, placement, bytes =>
    match GlyphShape.ofBytes bytes with
    | .empty => drawing
    | .broken => { drawing with sound := false }
    | .simple contours =>
      let placed := contours.map fun contour ↦
        contour.map fun p ↦ { p with position := placement.apply p.position }
      { drawing with steps := drawing.steps ++ placed.flatMap Contour.path }
    | .composite components =>
      components.foldl (fun drawing component ↦
        if drawing.sound then
          match glyph? component.glyph with
          | none => drawing
          | some bytes =>
            drawing.addGlyph glyph? depth (placement.after component.placement) bytes
        else drawing) drawing

def glyphPath (glyph? : Nat → Option Bytes) (glyph : Nat) : List PathStep :=
  match glyph? glyph with
  | none => []
  | some bytes => (Drawing.addGlyph glyph? compositeDepth ⟨[], true⟩ .identity bytes).steps

end Marginalia.Font
