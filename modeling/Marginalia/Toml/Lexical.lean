import Marginalia.Instant
import Marginalia.Json.Value
import Marginalia.Text.Split
import Marginalia.Toml.Item

/-!
# The parts of TOML documents

Readers of blanks, texts and plain values. A reader gives what it has read and the characters that
are left.
-/

namespace Marginalia.Toml

/-- Whether a character may stand between the parts of a line. -/
def isSpace (c : Char) : Bool := c == ' ' || c == '\t'

/-- Whether a character may stand in a comment or a text. -/
def isVisible (c : Char) : Bool :=
  c == '\t' || (0x20 ≤ c.toNat && c.toNat ≤ 0x7E) || 0x80 ≤ c.toNat

def skip (s : List Char) : List Char := s.dropWhile isSpace

def newline? : List Char → Option (List Char)
  | '\n' :: rest => some rest
  | '\r' :: '\n' :: rest => some rest
  | _ => none

/-- Skip a comment, if there is one. -/
def skipComment : List Char → List Char
  | '#' :: rest => rest.dropWhile isVisible
  | s => s

/-- What follows the end of a line, before which there may be blanks and a comment. -/
def lineEnd? (s : List Char) : Option (List Char) :=
  match skipComment (skip s) with
  | [] => some []
  | rest => newline? rest

/-- Skip blanks, comments and ends of lines. -/
def skipLines : (fuel : Nat) → List Char → List Char
  | 0, s => s
  | fuel + 1, s =>
    match newline? (skipComment (skip s)) with
    | some rest => skipLines fuel rest
    | none => skip s

/-! ## Texts -/

def scalar? (count : Nat) (s : List Char) : Option (Char × List Char) := do
  let ds := s.take count
  if ds.length < count then none
  let n ← ds.foldlM (fun n d ↦ (Decimal.hexValue? d).map fun v ↦ n * 16 + v) 0
  if n.isValidChar then return (Char.ofNat n, s.drop count) else none

def escape? : List Char → Option (Char × List Char)
  | 'b' :: rest => some (Char.ofNat 8, rest)
  | 't' :: rest => some ('\t', rest)
  | 'n' :: rest => some ('\n', rest)
  | 'f' :: rest => some (Char.ofNat 12, rest)
  | 'r' :: rest => some ('\r', rest)
  | '"' :: rest => some ('"', rest)
  | '\\' :: rest => some ('\\', rest)
  | 'u' :: rest => scalar? 4 rest
  | 'U' :: rest => scalar? 8 rest
  | _ => none

/-- The characters up to the closing quotation mark, after those read so far in reverse. -/
def lineText? (escapes : Bool) (quote : Char) :
    (fuel : Nat) → List Char → List Char → Option (String × List Char)
  | 0, _, _ => none
  | _ + 1, _, [] => none
  | fuel + 1, acc, c :: rest =>
    if c = quote then some (String.ofList acc.reverse, rest)
    else if escapes ∧ c = '\\' then do
      let (e, rest) ← escape? rest
      lineText? escapes quote fuel (e :: acc) rest
    else if isVisible c then lineText? escapes quote fuel (c :: acc) rest
    else none

/-- The characters up to three closing quotation marks; up to two more of them before those belong
to the text. A backslash at the end of a line joins it with the next words. -/
def blockText? (escapes : Bool) (quote : Char) :
    (fuel : Nat) → List Char → List Char → Option (String × List Char)
  | 0, _, _ => none
  | _ + 1, _, [] => none
  | fuel + 1, acc, c :: rest =>
    if c = quote then
      let count := ((c :: rest).takeWhile fun d ↦ d == quote).length
      if count < 3 then blockText? escapes quote fuel (c :: acc) rest
      else
        let inner := min (count - 3) 2
        some (String.ofList (acc.reverse ++ List.replicate inner quote), rest.drop (inner + 2))
    else if escapes ∧ c = '\\' then
      match newline? (skip rest) with
      | some rest =>
        let joined := rest.dropWhile fun d ↦ isSpace d || d == '\n' || d == '\r'
        let skipped := rest.take (rest.length - joined.length)
        if loneReturn skipped then none else blockText? escapes quote fuel acc joined
      | none => do
        let (e, rest) ← escape? rest
        blockText? escapes quote fuel (e :: acc) rest
    else
      match newline? (c :: rest) with
      | some rest => blockText? escapes quote fuel ('\n' :: acc) rest
      | none =>
        if isVisible c then blockText? escapes quote fuel (c :: acc) rest else none
where
  /-- Whether a carriage return is not followed by a line feed. -/
  loneReturn : List Char → Bool
    | '\r' :: '\n' :: rest => loneReturn rest
    | '\r' :: _ => true
    | _ :: rest => loneReturn rest
    | [] => false

/-- A text after the quotation mark that opens it; three marks open a text of several lines. -/
def text? (quote : Char) (s : List Char) : Option (String × List Char) :=
  let escapes := quote == '"'
  match Text.dropPrefix? [quote, quote] s with
  | some rest => blockText? escapes quote (rest.length + 1) [] ((newline? rest).getD rest)
  | none => lineText? escapes quote (s.length + 1) [] s

/-! ## Numbers -/

/-- Digits without the underscores between them. -/
def grouped? (isDigit : Char → Bool) (s : List Char) : Option (List Char) :=
  let groups := Text.fields (· == '_') s
  if groups.all fun g ↦ !g.isEmpty && g.all isDigit then some groups.flatten else none

/-- Digits of a number without superfluous zeros. -/
def whole? (s : List Char) : Option (List Char) := do
  let ds ← grouped? Char.isDigit s
  if 1 < s.length ∧ s.head? = some '0' then none else some ds

def inBase? (base : Nat) (s : List Char) : Option Nat := do
  let isDigit (c : Char) : Bool := (Decimal.hexValue? c).any (· < base)
  let ds ← grouped? isDigit s
  ds.foldlM (fun n d ↦ (Decimal.hexValue? d).map fun v ↦ n * base + v) 0

/-- The sign of a number, and what follows it. -/
def sign : List Char → Bool × List Char
  | '-' :: rest => (true, rest)
  | '+' :: rest => (false, rest)
  | s => (false, s)

def integer? (s : List Char) : Option Int := do
  let n ← match s with
    | '0' :: 'x' :: ds => do pure ((← inBase? 16 ds : Nat) : Int)
    | '0' :: 'o' :: ds => do pure ((← inBase? 8 ds : Nat) : Int)
    | '0' :: 'b' :: ds => do pure ((← inBase? 2 ds : Nat) : Int)
    | s => do
      let (negative, ds) := sign s
      let n ← Decimal.ofDigits? (← whole? ds)
      pure (if negative then -(n : Int) else n)
  if -0x8000000000000000 ≤ n ∧ n < 0x8000000000000000 then some n else none

/-- A number with a fraction or an exponent. One that is too large is refused, but its negative is
infinite. -/
def decimal? (s : List Char) : Option Float := do
  let (negative, s) := sign s
  let ds ← whole? (s.takeWhile fun c ↦ c.isDigit || c == '_')
  let s := s.dropWhile fun c ↦ c.isDigit || c == '_'
  let (fraction, s) ← match s with
    | '.' :: s => do
      let fraction ← grouped? Char.isDigit (s.takeWhile fun c ↦ c.isDigit || c == '_')
      pure (fraction, s.dropWhile fun c ↦ c.isDigit || c == '_')
    | s => some ([], s)
  let exponent : Int ← match s with
    | [] => if fraction.isEmpty then none else some 0
    | e :: s =>
      if e = 'e' ∨ e = 'E' then do
        let (down, s) := sign s
        let n ← Decimal.ofDigits? (← grouped? Char.isDigit s)
        pure (if down then -(n : Int) else n)
      else none
  let number : Json.Numeral :=
    ⟨false, (← Decimal.ofDigits? (ds ++ fraction)), exponent - fraction.length, false⟩
  match number.toDouble? with
  | some x => return if negative then -x else x
  | none => if negative then return -1 / 0 else none

/-- Infinity, or what is no number. -/
def special? (s : List Char) : Option Float :=
  let (negative, s) := sign s
  if s = "inf".toList then some (if negative then -1 / 0 else 1 / 0)
  else if s = "nan".toList then some (0 / 0)
  else none

/-! ## Dates and times -/

/-- Two digits below a bound, and what follows them. -/
def pair? (bound : Nat) (s : List Char) : Option (List Char) := do
  let (n, rest) ← Instant.number? 2 (some 2) s
  if n < bound then some rest else none

def time? (s : List Char) : Option (List Char) := do
  let s ← Instant.expect? ':' (← pair? 24 s)
  let s ← Instant.expect? ':' (← pair? 60 s)
  let (_, s) ← Instant.fraction? (← pair? 61 s)
  return s

/-- What follows an offset from universal time. -/
def offset? : List Char → Option (List Char)
  | 'Z' :: rest => some rest
  | 'z' :: rest => some rest
  | '+' :: rest => do pair? 60 (← Instant.expect? ':' (← pair? 24 rest))
  | '-' :: rest => do pair? 60 (← Instant.expect? ':' (← pair? 24 rest))
  | _ => none

def date? (s : List Char) : Option (List Char) := do
  let (year, s) ← Instant.number? 4 (some 4) s
  let (month, s) ← Instant.number? 2 (some 2) (← Instant.expect? '-' s)
  let (day, s) ← Instant.number? 2 (some 2) (← Instant.expect? '-' s)
  if (CivilDate.mk year month day).isValid then some s else none

/-- Whether a text is a time of day, which may have an offset. -/
def isZonedTime (s : List Char) : Bool :=
  (time? s).any fun rest ↦ rest.isEmpty || offset? rest == some []

/-- Whether a text is a date, a time, or both. -/
def isMoment (s : List Char) : Bool :=
  time? s == some [] ||
    (match date? s with
    | some [] => true
    | some (c :: rest) => (c == 'T' || c == 't') && isZonedTime rest
    | none => false)

/-! ## Plain values -/

/-- Whether a character may belong to a plain value. -/
def isWordChar (c : Char) : Bool :=
  c.isAlphanum || c == '+' || c == '-' || c == '_' || c == '.' || c == ':'

def word? (s : List Char) : Option Item :=
  if s = "true".toList then some (.boolean true)
  else if s = "false".toList then some (.boolean false)
  else if isMoment s then some .moment
  else ((special? s <|> decimal? s).map Item.float) <|> (integer? s).map Item.integer

/-- A plain value; a blank may stand between a date and a time. -/
def plain? (s : List Char) : Option (Item × List Char) := do
  let word := s.takeWhile isWordChar
  let rest := s.dropWhile isWordChar
  let item ← word? word
  match item, rest with
  | .moment, ' ' :: later =>
    if date? word == some [] ∧ isZonedTime (later.takeWhile isWordChar) then
      return (.moment, later.dropWhile isWordChar)
    else return (item, rest)
  | _, _ => return (item, rest)

/-! ## Keys -/

/-- Whether a character may stand in a key without quotation marks. -/
def isKeyChar (c : Char) : Bool := c.isAlphanum || c == '-' || c == '_'

def simpleKey? : List Char → Option (String × List Char)
  | '"' :: rest => lineText? true '"' (rest.length + 1) [] rest
  | '\'' :: rest => lineText? false '\'' (rest.length + 1) [] rest
  | s =>
    let name := s.takeWhile isKeyChar
    if name.isEmpty then none else some (String.ofList name, s.dropWhile isKeyChar)

def keyParts? : (fuel : Nat) → List Char → Option (List String × List Char)
  | 0, _ => none
  | fuel + 1, s => do
    let (part, rest) ← simpleKey? (skip s)
    match skip rest with
    | '.' :: rest =>
      let (parts, rest) ← keyParts? fuel rest
      return (part :: parts, rest)
    | rest => return ([part], rest)

/-- How deep values may be nested, and how many parts a key may have. -/
def depthLimit : Nat := 80

/-- A key: the tables on its way, and the last part. -/
def key? (s : List Char) : Option ((List String × String) × List Char) := do
  let (parts, rest) ← keyParts? depthLimit s
  let last ← parts.getLast?
  if parts.length < depthLimit then return ((parts.dropLast, last), rest) else none

end Marginalia.Toml
