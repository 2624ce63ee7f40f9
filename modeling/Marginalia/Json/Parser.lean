import Marginalia.Json.Value
import Marginalia.Text.Split

/-!
# Reading JSON

A strict reader: one value, blanks around it and nothing else. Texts hold no raw control characters
and no unpaired surrogates, and values are nested less than 128 deep. A reader of an item gives the
item and the characters that are left.
-/

namespace Marginalia.Json.Parser

/-- Whether a character may stand between the parts of a value. -/
def isSpace (c : Char) : Bool :=
  c == ' ' || c == '\n' || c == '\t' || c == '\r'

def skip (s : List Char) : List Char :=
  s.dropWhile isSpace

/-- The code unit of four hexadecimal digits. -/
def codeUnit? : List Char → Option (Nat × List Char)
  | a :: b :: c :: d :: rest => do
    let n := (((← Decimal.hexValue? a) * 16 + (← Decimal.hexValue? b)) * 16 +
      (← Decimal.hexValue? c)) * 16 + (← Decimal.hexValue? d)
    return (n, rest)
  | _ => none

/-- The character of an escape after `\u`. -/
def unicodeEscape? (s : List Char) : Option (Char × List Char) := do
  let (high, rest) ← codeUnit? s
  if 0xDC00 ≤ high ∧ high ≤ 0xDFFF then none
  else if 0xD800 ≤ high ∧ high ≤ 0xDBFF then
    let rest ← Text.dropPrefix? ['\\', 'u'] rest
    let (low, rest) ← codeUnit? rest
    if 0xDC00 ≤ low ∧ low ≤ 0xDFFF then
      return (Char.ofNat (0x10000 + (high - 0xD800) * 0x400 + (low - 0xDC00)), rest)
    else none
  else return (Char.ofNat high, rest)

def escape? : List Char → Option (Char × List Char)
  | '"' :: rest => some ('"', rest)
  | '\\' :: rest => some ('\\', rest)
  | '/' :: rest => some ('/', rest)
  | 'b' :: rest => some (Char.ofNat 8, rest)
  | 'f' :: rest => some (Char.ofNat 12, rest)
  | 'n' :: rest => some ('\n', rest)
  | 'r' :: rest => some ('\r', rest)
  | 't' :: rest => some ('\t', rest)
  | 'u' :: rest => unicodeEscape? rest
  | _ => none

/-- The characters up to the closing quotation mark, after those read so far in reverse. -/
def stringBody? : Nat → List Char → List Char → Option (String × List Char)
  | 0, _, _ => none
  | _ + 1, _, [] => none
  | fuel + 1, acc, c :: rest =>
    if c = '"' then some (String.ofList acc.reverse, rest)
    else if c = '\\' then do
      let (e, rest) ← escape? rest
      stringBody? fuel (e :: acc) rest
    else if c.toNat < 0x20 then none
    else stringBody? fuel (c :: acc) rest

def string? (s : List Char) : Option (String × List Char) :=
  stringBody? (s.length + 1) [] s

def digits? (s : List Char) : Option (List Char × List Char) :=
  let ds := s.takeWhile Char.isDigit
  if ds.isEmpty then none else some (ds, s.drop ds.length)

/-- The digits before the point: no superfluous zero leads. -/
def wholePart? : List Char → Option (List Char × List Char)
  | '0' :: rest => if (rest.head?.any Char.isDigit) then none else some (['0'], rest)
  | s => digits? s

/-- The point and the digits after it, if there is a point. -/
def fractionPart? : List Char → Option (List Char × List Char)
  | '.' :: rest => (digits? rest).map fun (ds, rest) ↦ ('.' :: ds, rest)
  | s => some ([], s)

/-- The exponent, if there is one. -/
def exponentPart? : List Char → Option (List Char × List Char)
  | e :: rest =>
    if e = 'e' ∨ e = 'E' then
      match rest with
      | '+' :: rest => (digits? rest).map fun (ds, rest) ↦ (e :: '+' :: ds, rest)
      | '-' :: rest => (digits? rest).map fun (ds, rest) ↦ (e :: '-' :: ds, rest)
      | rest => (digits? rest).map fun (ds, rest) ↦ (e :: ds, rest)
    else some ([], e :: rest)
  | [] => some ([], [])

def number? (s : List Char) : Option (Value × List Char) := do
  let (sign, s) := if s.head? == some '-' then (['-'], s.drop 1) else ([], s)
  let (whole, s) ← wholePart? s
  let (fraction, s) ← fractionPart? s
  let (exponent, s) ← exponentPart? s
  return (.number (String.ofList (sign ++ whole ++ fraction ++ exponent)), s)

mutual

/-- A value, nested less than `depth` deep. -/
def value? : (fuel depth : Nat) → List Char → Option (Value × List Char)
  | 0, _, _ => none
  | fuel + 1, depth, s =>
    match skip s with
    | '"' :: rest => (string? rest).map fun (text, rest) ↦ (.string text, rest)
    | 'n' :: 'u' :: 'l' :: 'l' :: rest => some (.null, rest)
    | 't' :: 'r' :: 'u' :: 'e' :: rest => some (.bool true, rest)
    | 'f' :: 'a' :: 'l' :: 's' :: 'e' :: rest => some (.bool false, rest)
    | '[' :: rest =>
      if depth ≤ 1 then none
      else
        match skip rest with
        | ']' :: rest => some (.array [], rest)
        | rest => (items? fuel (depth - 1) rest).map fun (items, rest) ↦ (.array items, rest)
    | '\x7b' :: rest =>
      if depth ≤ 1 then none
      else
        match skip rest with
        | '\x7d' :: rest => some (.object [], rest)
        | rest =>
          (members? fuel (depth - 1) rest).map fun (members, rest) ↦ (.object members, rest)
    | s => number? s

/-- The items of an array up to its closing bracket; there is at least one. -/
def items? : (fuel depth : Nat) → List Char → Option (List Value × List Char)
  | 0, _, _ => none
  | fuel + 1, depth, s => do
    let (item, rest) ← value? fuel depth s
    match skip rest with
    | ',' :: rest =>
      let (items, rest) ← items? fuel depth rest
      return (item :: items, rest)
    | ']' :: rest => return ([item], rest)
    | _ => none

/-- The members of an object up to its closing brace; there is at least one. -/
def members? : (fuel depth : Nat) → List Char → Option (List (String × Value) × List Char)
  | 0, _, _ => none
  | fuel + 1, depth, s =>
    match skip s with
    | '"' :: rest => do
      let (key, rest) ← string? rest
      match skip rest with
      | ':' :: rest =>
        let (value, rest) ← value? fuel depth rest
        match skip rest with
        | ',' :: rest =>
          let (members, rest) ← members? fuel depth rest
          return ((key, value) :: members, rest)
        | '\x7d' :: rest => return ([(key, value)], rest)
        | _ => none
      | _ => none
    | _ => none

end

end Marginalia.Json.Parser

namespace Marginalia.Json

def parse? (text : String) : Option Value := do
  let s := text.toList
  let (value, rest) ← Parser.value? (s.length + 1) 128 s
  if (Parser.skip rest).isEmpty then some value else none

end Marginalia.Json
