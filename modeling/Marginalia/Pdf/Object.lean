import Marginalia.Bytes

/-!
# Objects of a page description

The values a document is made of. Names are texts with one character per byte. A dictionary lists
its entries in the order in which their keys were first set, as long as none is removed, and no key
twice.
-/

namespace Marginalia.Pdf

/-- The number and the generation of an indirect object. -/
structure ObjectId where
  number : Nat
  generation : Nat
  deriving DecidableEq, Repr, Inhabited

namespace ObjectId

/-- Objects are ordered by number and then by generation. -/
def lt (a b : ObjectId) : Bool :=
  a.number < b.number || (a.number == b.number && a.generation < b.generation)

end ObjectId

/-- How a string is written down: as it is, or in hexadecimal digits. -/
inductive StringForm where
  | literal
  | hexadecimal
  deriving DecidableEq, Repr

/-- A value of a document. -/
inductive Object where
  | null
  | boolean (value : Bool)
  | integer (value : Int)
  | real (value : Float32)
  | name (text : String)
  | string (bytes : Bytes) (form : StringForm)
  | array (items : List Object)
  | dictionary (entries : List (String × Object))
  | stream (entries : List (String × Object)) (content : Bytes)
  | reference (id : ObjectId)
  deriving Repr, Inhabited

abbrev Dictionary := List (String × Object)

namespace Dictionary

def get? : Dictionary → String → Option Object
  | [], _ => none
  | (k, v) :: rest, key => if k = key then some v else get? rest key

def has (d : Dictionary) (key : String) : Bool :=
  (d.get? key).isSome

/-- Put a value under a key; a key that is there keeps its place. -/
def set : Dictionary → String → Object → Dictionary
  | [], key, value => [(key, value)]
  | (k, v) :: rest, key, value =>
    if k = key then (k, value) :: rest else (k, v) :: set rest key value

/-- Remove a key. The last entry takes the place of the one that goes. -/
def erase : Dictionary → String → Dictionary
  | [], _ => []
  | (k, v) :: rest, key =>
    if k = key then rest.getLast?.toList ++ rest.dropLast else (k, v) :: erase rest key

@[simp] theorem get?_set_self (d : Dictionary) (key : String) (value : Object) :
    (d.set key value).get? key = some value := by
  induction d with
  | nil => simp [set, get?]
  | cons entry rest ih =>
    obtain ⟨k, v⟩ := entry
    by_cases h : k = key
    · simp [set, get?, h]
    · simp [set, get?, h, ih]

theorem get?_set_of_ne {d : Dictionary} {key other : String} {value : Object} (h : other ≠ key) :
    (d.set key value).get? other = d.get? other := by
  induction d with
  | nil => simp [set, get?, Ne.symm h]
  | cons entry rest ih =>
    obtain ⟨k, v⟩ := entry
    by_cases hk : k = key
    · subst hk
      simp [set, get?, Ne.symm h]
    · by_cases ho : k = other
      · subst ho
        simp [set, get?, h]
      · simp [set, get?, hk, ho, ih]

end Dictionary

namespace Object

def dictionary? : Object → Option Dictionary
  | dictionary entries => some entries
  | _ => none

def array? : Object → Option (List Object)
  | array items => some items
  | _ => none

def reference? : Object → Option ObjectId
  | reference id => some id
  | _ => none

def integer? : Object → Option Int
  | integer value => some value
  | _ => none

def name? : Object → Option String
  | name text => some text
  | _ => none

def contentStream (content : Bytes) : Object :=
  stream [("Length", integer content.length)] content

/-- A stream with some entries; the length is kept right. -/
def streamOf (entries : Dictionary) (content : Bytes) : Object :=
  stream (entries.set "Length" (integer content.length)) content

end Object

end Marginalia.Pdf
