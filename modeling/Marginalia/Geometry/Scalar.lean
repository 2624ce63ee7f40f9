/-!
# Coordinates

Coordinates are single-precision numbers. Of two numbers, the lesser and the greater are taken so
that something that is no number never wins, and of two equal ones the first is kept.
-/

namespace Marginalia

abbrev Scalar := Float32

namespace Scalar

/-- The lesser of two numbers. -/
def lesser (a b : Scalar) : Scalar :=
  if a.isNaN then b else if b < a then b else a

/-- The greater of two numbers. -/
def greater (a b : Scalar) : Scalar :=
  if a.isNaN then b else if a < b then b else a

/-- The number nearest to `a` between two bounds. -/
def clamp (lower upper a : Scalar) : Scalar :=
  if a < lower then lower else if upper < a then upper else a

/-- The number nearest to a natural number. -/
def ofNat (n : Nat) : Scalar :=
  Float32.ofNat n

end Scalar

end Marginalia
