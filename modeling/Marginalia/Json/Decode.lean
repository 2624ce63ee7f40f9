import Marginalia.Decimal.FloatValue
import Marginalia.Instant
import Marginalia.Json.Parser

/-!
# Decoding JSON

Records are read from objects, whose unknown members are ignored and whose known ones must not
repeat, or from arrays that list the fields in order. A field is required, has a default, or is
optional; a list may end early only before fields with a default. Times are texts in universal time
and are read in the relaxed format.
-/

namespace Marginalia.Json

namespace Value

def bool? : Value → Option Bool
  | .bool b => some b
  | _ => none

def string? : Value → Option String
  | .string s => some s
  | _ => none

def array? : Value → Option (List Value)
  | .array items => some items
  | _ => none

def int? : Value → Option Int
  | .number literal => (Numeral.ofLiteral literal).toInt?
  | _ => none

/-- A natural number below a bound. -/
def natBelow? (bound : Nat) (value : Value) : Option Nat := do
  let n ← value.int?
  if 0 ≤ n ∧ n.toNat < bound then some n.toNat else none

def nat32? (value : Value) : Option Nat := value.natBelow? 0x100000000

def nat64? (value : Value) : Option Nat := value.natBelow? 0x10000000000000000

def int64? (value : Value) : Option Int := do
  let n ← value.int?
  if -0x8000000000000000 ≤ n ∧ n < 0x8000000000000000 then some n else none

def double? : Value → Option Float
  | .number literal => (Numeral.ofLiteral literal).toDouble?
  | _ => none

/-- A single-precision number: an integer of 64 bits is rounded once, any other number is rounded
to double precision first. -/
def single? (value : Value) : Option Float32 :=
  match value.int? with
  | some n =>
    if -0x8000000000000000 ≤ n ∧ n < 0x10000000000000000 then some (Float32.ofInt n)
    else value.double?.map Decimal.toSingle
  | none => value.double?.map Decimal.toSingle

/-- A value or `null`. -/
def optional? {α : Type} (decode : Value → Option α) : Value → Option (Option α)
  | .null => some none
  | value => (decode value).map some

def list? {α : Type} (decode : Value → Option α) (value : Value) : Option (List α) := do
  (← value.array?).mapM decode

/-- The name of a choice without contents: a text, or an object that holds `null` under it. -/
def choice? : Value → Option String
  | .string name => some name
  | .object [(name, .null)] => some name
  | _ => none

/-- The value of the first member with a key. -/
def member? (key : String) : Value → Option Value
  | .object members => (members.find? fun (k, _) ↦ k == key).map Prod.snd
  | _ => none

def time? : Value → Option Instant
  | .string text => Instant.parseRelaxed? text
  | _ => none

end Value

def ofTime (t : Instant) : Value := .string (t.text .zulu)

/-- A record under way: what each field holds, and whether the fields were listed. -/
structure Record where
  listed : Bool
  values : List (String × Option Value)

namespace Record

/-- The values of the named fields in an object or a list. -/
def ofValue? (names : List String) : Value → Option Record
  | .object members =>
    if names.all fun name ↦ (members.filter fun (key, _) ↦ key == name).length ≤ 1 then
      some ⟨false, names.map fun name ↦
        (name, (members.find? fun (key, _) ↦ key == name).map Prod.snd)⟩
    else none
  | .array items =>
    if items.length ≤ names.length then
      some ⟨true, (names.zip (items.map some ++
        List.replicate (names.length - items.length) none))⟩
    else none
  | _ => none

def value? (r : Record) (name : String) : Option Value :=
  (r.values.find? fun (n, _) ↦ n == name).bind Prod.snd

variable {α : Type}

def required? (r : Record) (name : String) (decode : Value → Option α) : Option α := do
  decode (← r.value? name)

def withDefault? (r : Record) (name : String) (decode : Value → Option α) (default : α) :
    Option α :=
  match r.value? name with
  | none => some default
  | some value => decode value

/-- A field that may be missing from an object and may be `null`. -/
def optional? (r : Record) (name : String) (decode : Value → Option α) : Option (Option α) :=
  match r.value? name with
  | none => if r.listed then none else some none
  | some value => value.optional? decode

end Record

end Marginalia.Json
