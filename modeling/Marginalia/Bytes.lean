/-!
# Bytes

Files are lists of bytes. Some texts inside them have one character per byte, so that the first 256
characters stand for the bytes themselves.
-/

namespace Marginalia

abbrev Bytes := List UInt8

namespace Bytes

/-- The bytes of a text with one character per byte. -/
def ofText (text : String) : Bytes :=
  text.toList.map fun c ↦ UInt8.ofNat c.toNat

/-- A text that is given by its characters need not be decoded. -/
theorem ofText_ofList (chars : List Char) :
    ofText (String.ofList chars) = chars.map fun c ↦ UInt8.ofNat c.toNat := by
  rw [ofText, String.toList_ofList]

theorem ofText_append (first second : String) :
    ofText (first ++ second) = ofText first ++ ofText second := by
  rw [ofText, String.toList_append, List.map_append]
  rfl

def toText (bytes : Bytes) : String :=
  String.ofList (bytes.map fun b ↦ Char.ofNat b.toNat)

/-- What follows `pattern` when the bytes start with it. -/
def dropPrefix? : (pattern bytes : Bytes) → Option Bytes
  | [], s => some s
  | _ :: _, [] => none
  | p :: ps, b :: bs => if p = b then dropPrefix? ps bs else none

/-- What follows a text when the bytes start with it. -/
def dropText? (text : String) (bytes : Bytes) : Option Bytes :=
  dropPrefix? (ofText text) bytes

/-- Whether `pattern` occurs in the bytes. -/
def hasInfix (pattern : Bytes) : Bytes → Bool
  | [] => pattern.isEmpty
  | b :: bs => pattern.isPrefixOf (b :: bs) || hasInfix pattern bs

/-- The position of the last occurrence of `pattern` at or after a position. -/
def lastInfix? (pattern : Bytes) : (bytes : Bytes) → (position start : Nat) → Option Nat
  | [], _, _ => none
  | b :: bs, position, start =>
    match lastInfix? pattern bs (position + 1) start with
    | some found => some found
    | none =>
      if start ≤ position ∧ pattern.isPrefixOf (b :: bs) then some position else none

end Bytes

end Marginalia
