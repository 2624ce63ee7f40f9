import Marginalia.Decimal.Print
import Marginalia.Json.Value

/-!
# Writing JSON

Compact text has no blanks at all; indented text puts every item on a line of its own. Numbers are
written by their literals, which the encoders of this file make.
-/

namespace Marginalia.Json

def escapedChar (c : Char) : List Char :=
  if c = '"' then ['\\', '"']
  else if c = '\\' then ['\\', '\\']
  else if c = '\n' then ['\\', 'n']
  else if c = '\r' then ['\\', 'r']
  else if c = '\t' then ['\\', 't']
  else if c.toNat = 8 then ['\\', 'b']
  else if c.toNat = 12 then ['\\', 'f']
  else if c.toNat < 0x20 then '\\' :: 'u' :: Decimal.hexDigits 4 c.toNat
  else [c]

/-- A text between quotation marks. -/
def stringText (s : String) : String :=
  String.ofList ('"' :: s.toList.flatMap escapedChar ++ ['"'])

def joined (separator : String) (parts : List String) : String :=
  separator.intercalate parts

mutual

def Value.compact : Value → String
  | .null => "null"
  | .bool true => "true"
  | .bool false => "false"
  | .number literal => literal
  | .string text => stringText text
  | .array items => "[" ++ joined "," (compactItems items) ++ "]"
  | .object members => "\x7b" ++ joined "," (compactMembers members) ++ "\x7d"

def compactItems : List Value → List String
  | [] => []
  | item :: items => item.compact :: compactItems items

def compactMembers : List (String × Value) → List String
  | [] => []
  | (key, value) :: members => (stringText key ++ ":" ++ value.compact) :: compactMembers members

end

mutual

/-- The text of a value with an item a line, indented by two blanks a level. -/
def Value.indentedFrom (margin : String) : Value → String
  | .array [] => "[]"
  | .array items =>
    "[" ++ joined "," (indentedItems (margin ++ "  ") items) ++ "\n" ++ margin ++ "]"
  | .object [] => "\x7b\x7d"
  | .object members =>
    "\x7b" ++ joined "," (indentedMembers (margin ++ "  ") members) ++ "\n" ++ margin ++ "\x7d"
  | value => value.compact

def indentedItems (margin : String) : List Value → List String
  | [] => []
  | item :: items =>
    ("\n" ++ margin ++ item.indentedFrom margin) :: indentedItems margin items

def indentedMembers (margin : String) : List (String × Value) → List String
  | [] => []
  | (key, value) :: members =>
    ("\n" ++ margin ++ stringText key ++ ": " ++ value.indentedFrom margin) ::
      indentedMembers margin members

end

def Value.indented (value : Value) : String :=
  value.indentedFrom ""

/-! ## Encoding -/

def ofNat (n : Nat) : Value := .number (Decimal.text n)

def ofInt (n : Int) : Value := .number (Decimal.integerText n)

/-- A single-precision number; one without a finite value is written as `null`. -/
def ofSingle (x : Float32) : Value :=
  match Decimal.FloatValue.ofSingle x with
  | .finite negative mantissa exponent narrowBelow =>
    .number (Decimal.NumberStyle.storedSingle.finiteText negative mantissa exponent narrowBelow)
  | _ => .null

/-- A double-precision number; one without a finite value is written as `null`. -/
def ofDouble (x : Float) : Value :=
  match Decimal.FloatValue.ofDouble x with
  | .finite negative mantissa exponent narrowBelow =>
    .number (Decimal.NumberStyle.storedDouble.finiteText negative mantissa exponent narrowBelow)
  | _ => .null

/-- A value or `null`. -/
def ofOption {α : Type} (encode : α → Value) : Option α → Value
  | none => .null
  | some a => encode a

end Marginalia.Json
