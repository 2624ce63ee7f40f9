import Marginalia.Color
import Marginalia.DocumentId
import Marginalia.Geometry.Basic
import Marginalia.Instant
import Marginalia.Json.Decode

/-!
# Requests

A host asks for something with a JSON object. Its fields are looked up by name; one that is `null`
counts as missing, and a coordinate may also be the name of a value that JSON has no number for.
-/

namespace Marginalia

open Json (Value)

/-- Why a request is refused. -/
inductive Refusal where
  /-- A field is missing or of the wrong kind. -/
  | field (name : String)
  /-- The annotations in the request are malformed. -/
  | annotations
  /-- A font in the request cannot be read. -/
  | font
  /-- A reference names no document. -/
  | documentId (cause : DocumentIdError)
  deriving Repr

/-- What a request says, or why it is refused. -/
abbrev Decoded := Except Refusal

namespace Request

variable {α : Type}

/-! ## Fields -/

def field? (r : Value) (name : String) : Option Value :=
  match r.member? name with
  | some .null => none
  | other => other

/-- The value, or a refusal that names its field. -/
def given (name : String) : Option α → Decoded α
  | some a => .ok a
  | none => .error (.field name)

def required (r : Value) (name : String) (decode : Value → Option α) : Decoded α :=
  given name ((field? r name).bind decode)

def optional (r : Value) (name : String) (decode : Value → Option α) : Decoded (Option α) :=
  match field? r name with
  | none => .ok none
  | some v => (given name (decode v)).map some

def withDefault (r : Value) (name : String) (decode : Value → Option α) (standard : α) :
    Decoded α := do
  return (← optional r name decode).getD standard

def text (r : Value) (name : String) : Decoded String := required r name Value.string?

/-- A truth value that is false when it is missing. -/
def flag (r : Value) (name : String) : Decoded Bool := withDefault r name Value.bool? false

/-! ## Values -/

/-- A coordinate: a number, or the name of one that is not finite. -/
def scalar? : Value → Option Scalar
  | .string "NaN" => some (0 / 0)
  | .string "inf" => some (1 / 0)
  | .string "-inf" => some (-1 / 0)
  | v => v.double?.map Decimal.toSingle

/-- A natural number of 64 bits, of which the low 32 are kept. -/
def wrapped? (v : Value) : Option Nat := v.nat64?.map (· % 0x100000000)

/-- Two coordinates. -/
def point? (v : Value) : Option (Point Scalar) := do
  match ← v.list? scalar? with
  | [x, y] => some ⟨x, y⟩
  | _ => none

def size? (v : Value) : Option (Size Scalar) := do
  match ← v.list? scalar? with
  | [w, h] => some ⟨w, h⟩
  | _ => none

/-- The left, the top, the width and the height. -/
def box? (v : Value) : Option (Box Scalar) := do
  match ← v.list? scalar? with
  | [x, y, w, h] => some ⟨x, y, w, h⟩
  | _ => none

def place? (v : Value) : Option (Int × Int) := do
  match ← v.list? Value.int? with
  | [x, y] => some (x, y)
  | _ => none

def color? (v : Value) : Option Color := do (Color.parse (← v.string?)).toOption

def time? (v : Value) : Option Instant := v.string?.bind Instant.parse?

def table? (decode : Value → Option α) : Value → Option (List (String × α))
  | .object members => members.mapM fun (key, v) ↦ (decode v).map fun a ↦ (key, a)
  | _ => none

/-- Two coordinates under names of their own. -/
def pair (r : Value) (x y : String) : Decoded (Point Scalar) := do
  return ⟨← required r x scalar?, ← required r y scalar?⟩

def documentOf (reference : String) : Decoded DocumentId :=
  (DocumentId.new reference).mapError .documentId

def document (r : Value) : Decoded DocumentId := do documentOf (← text r "id")

end Request

end Marginalia
