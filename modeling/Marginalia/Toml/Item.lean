import Marginalia.Annotation.Stored

/-!
# TOML items

What a TOML document holds. A table knows how it was opened, because that decides whether it can be
opened again; for whoever reads the document that makes no difference.
-/

namespace Marginalia.Toml

/-- How a table was opened: between braces, by its header, by the header of a table inside it, or by
a dotted key. -/
inductive TableKind where
  | braces
  | header
  | passage
  | dotted
  deriving DecidableEq, Repr

/-- An item of a document. A moment is a date, a time or both. -/
inductive Item where
  | text (value : String)
  | integer (value : Int)
  | float (value : Float)
  | boolean (value : Bool)
  | moment
  | array (items : List Item)
  | table (kind : TableKind) (members : List (String × Item))
  | tables (elements : List (List (String × Item)))
  deriving Repr, Inhabited

/-- The members of a table, in the order in which they were opened. -/
abbrev Members := List (String × Item)

namespace Item

def string? : Item → Option String
  | text value => some value
  | _ => none

def nat? : Item → Option Nat
  | integer n => if 0 ≤ n then some n.toNat else none
  | _ => none

def single? : Item → Option Float32
  | integer n => some (Float32.ofInt n)
  | float x => some (Decimal.toSingle x)
  | _ => none

/-- The name of a choice without contents: a text, or a table that holds nothing under it. -/
def choice? : Item → Option String
  | text name => some name
  | table _ [(name, table _ [])] => some name
  | table _ [(name, array [])] => some name
  | _ => none

def color? (item : Item) : Option Color := do
  match Color.parse (← item.string?) with
  | .ok color => some color
  | .error _ => none

def family? (item : Item) : Option FontFamily := do
  FontFamily.ofName? (← item.choice?)

end Item

/-- The fields of a record: what each holds, if anything. -/
abbrev Fields := List (String × Option Item)

namespace Fields

/-- The named fields of a table, or of an array that lists them in order. -/
def ofItem? (names : List String) : Item → Option Fields
  | .table _ members => some (names.map fun name ↦ (name, members.lookup name))
  | .array items => some (names.mapIdx fun i name ↦ (name, items[i]?))
  | .moment => some (names.map fun name ↦ (name, none))
  | _ => none

/-- A field with a value to take when it is missing. -/
def get? {α : Type} (f : Fields) (name : String) (decode : Item → Option α) (default : α) :
    Option α :=
  match (f.lookup name).join with
  | none => some default
  | some item => decode item

end Fields

end Marginalia.Toml
