import Marginalia.Bytes

/-!
# Words of a font

Fonts hold numbers of two and four bytes, the most significant byte first. A reader gives `none`
where the bytes end too early.
-/

namespace Marginalia.Font

/-- The two-byte number at a position. -/
def word? (bytes : Bytes) (position : Nat) : Option Nat :=
  match bytes.drop position with
  | a :: b :: _ => some (a.toNat * 256 + b.toNat)
  | _ => none

/-- A two-byte number read as a number with a sign. -/
def signed (n : Nat) : Int :=
  (n : Int).bmod 65536

/-- The two-byte number with a sign at a position. -/
def signedWord? (bytes : Bytes) (position : Nat) : Option Int :=
  (word? bytes position).map signed

def doubleWord? (bytes : Bytes) (position : Nat) : Option Nat :=
  match bytes.drop position with
  | a :: b :: c :: d :: _ =>
    some (((a.toNat * 256 + b.toNat) * 256 + c.toNat) * 256 + d.toNat)
  | _ => none

/-- A number of bytes from a position on, if there are as many. -/
def slice? (bytes : Bytes) (position count : Nat) : Option Bytes :=
  let taken := (bytes.drop position).take count
  if taken.length = count then some taken else none

/-- The two-byte numbers that the bytes consist of. -/
def words : Bytes → List Nat
  | a :: b :: rest => (a.toNat * 256 + b.toNat) :: words rest
  | _ => []

/-- A number of two-byte numbers from a position on, if there are as many. -/
def wordsAt? (bytes : Bytes) (position count : Nat) : Option (List Nat) :=
  (slice? bytes position (2 * count)).map words

/-- The four-byte numbers that the bytes consist of. -/
def doubleWords : Bytes → List Nat
  | a :: b :: c :: d :: rest =>
    (((a.toNat * 256 + b.toNat) * 256 + c.toNat) * 256 + d.toNat) :: doubleWords rest
  | _ => []

/-- The two bytes of a number. -/
def putWord (n : Nat) : Bytes :=
  [UInt8.ofNat (n / 256), UInt8.ofNat n]

/-- The two bytes of a number with a sign. -/
def putSigned (n : Int) : Bytes :=
  putWord (n.emod 65536).toNat

def putDoubleWord (n : Nat) : Bytes :=
  putWord (n / 65536) ++ putWord (n % 65536)

/-- The bytes filled up with zeros to a multiple of four. -/
def padded (bytes : Bytes) : Bytes :=
  bytes ++ List.replicate ((4 - bytes.length % 4) % 4) 0

end Marginalia.Font
