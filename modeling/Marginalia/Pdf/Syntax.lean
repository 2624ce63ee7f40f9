import Marginalia.Decimal.Digits
import Marginalia.Pdf.Object

/-!
# The syntax of objects

Readers for the values of a document. Each gives what it read and the bytes that are left. Blanks
and comments may stand after a value and between its parts; a comment ends with its line.
-/

namespace Marginalia.Pdf.Syntax

def byte (c : Char) : UInt8 :=
  UInt8.ofNat c.toNat

def isSpace (b : UInt8) : Bool :=
  b == 0 || b == 9 || b == 10 || b == 12 || b == 13 || b == 32

def isEol (b : UInt8) : Bool :=
  b == 10 || b == 13

def isDelimiter (b : UInt8) : Bool :=
  b == byte '(' || b == byte ')' || b == byte '<' || b == byte '>' || b == byte '[' ||
    b == byte ']' || b == byte '\x7b' || b == byte '\x7d' || b == byte '/' || b == byte '%'

def isRegular (b : UInt8) : Bool :=
  !isSpace b && !isDelimiter b

def isDigit (b : UInt8) : Bool :=
  48 ≤ b && b ≤ 57

def hexValue? (b : UInt8) : Option Nat :=
  Decimal.hexValue? (Char.ofNat b.toNat)

/-- What follows the end of a line. -/
def eol? : Bytes → Option Bytes
  | 13 :: 10 :: rest => some rest
  | 13 :: rest => some rest
  | 10 :: rest => some rest
  | _ => none

/-- What follows the line under way. -/
def nextLine? : Bytes → Option Bytes
  | [] => none
  | b :: rest => if isEol b then eol? (b :: rest) else nextLine? rest

theorem length_eol? {s rest : Bytes} (h : eol? s = some rest) : rest.length < s.length := by
  unfold eol? at h
  split at h <;> cases h <;> simp only [List.length_cons] <;> omega

theorem length_nextLine? {s rest : Bytes} (h : nextLine? s = some rest) :
    rest.length < s.length := by
  induction s with
  | nil => simp [nextLine?] at h
  | cons b bs ih =>
    rw [nextLine?] at h
    split at h
    · exact length_eol? h
    · have := ih h
      simp only [List.length_cons]
      omega

def skip (s : Bytes) : Bytes :=
  match s with
  | [] => []
  | b :: rest =>
    if isSpace b then skip rest
    else if b = byte '%' then
      match _found : nextLine? rest with
      | some next => skip next
      | none => b :: rest
    else b :: rest
termination_by s.length
decreasing_by
  · simp
  · have := length_nextLine? _found
    simp only [List.length_cons]
    omega

def digitsValue (ds : Bytes) : Nat :=
  ds.foldl (fun n d ↦ n * 10 + (d.toNat - 48)) 0

/-- Digits, of which there is one at least. -/
def digits? (s : Bytes) : Option (Bytes × Bytes) :=
  let ds := s.takeWhile isDigit
  if ds.isEmpty then none else some (ds, s.drop ds.length)

/-- A natural number below a bound. -/
def natural? (bound : Nat) (s : Bytes) : Option (Nat × Bytes) := do
  let (ds, rest) ← digits? s
  let n := digitsValue ds
  if n < bound then some (n, rest) else none

def sign (s : Bytes) : Bool × Bytes :=
  match s with
  | b :: rest =>
    if b = byte '-' then (true, rest)
    else if b = byte '+' then (false, rest)
    else (false, s)
  | [] => (false, [])

def integer? (s : Bytes) : Option (Int × Bytes) := do
  let (negative, s) := sign s
  let (ds, rest) ← digits? s
  let n : Int := if negative then -(digitsValue ds : Int) else digitsValue ds
  if -0x8000000000000000 ≤ n ∧ n < 0x8000000000000000 then some (n, rest) else none

def realValue (negative : Bool) (whole fraction : Bytes) : Float32 :=
  let magnitude := Float32.ofScientific (digitsValue (whole ++ fraction)) true fraction.length
  if negative then -magnitude else magnitude

/-- A number with a point and a digit on either side of it at least. -/
def real? (s : Bytes) : Option (Float32 × Bytes) := do
  let (negative, s) := sign s
  let whole := s.takeWhile isDigit
  let rest ← Bytes.dropText? "." (s.drop whole.length)
  let fraction := rest.takeWhile isDigit
  if whole.isEmpty && fraction.isEmpty then none
  else some (realValue negative whole fraction, rest.drop fraction.length)

/-- The characters of a name: regular bytes, and any byte written by its hexadecimal code. -/
def nameBody : Bytes → List Char × Bytes
  | [] => ([], [])
  | b :: rest =>
    if b = byte '#' then
      match rest with
      | high :: low :: more =>
        match hexValue? high, hexValue? low with
        | some high, some low =>
          let (cs, after) := nameBody more
          (Char.ofNat (high * 16 + low) :: cs, after)
        | _, _ => ([], b :: rest)
      | _ => ([], b :: rest)
    else if isRegular b then
      let (cs, after) := nameBody rest
      (Char.ofNat b.toNat :: cs, after)
    else ([], b :: rest)

def name? (s : Bytes) : Option (String × Bytes) := do
  let rest ← Bytes.dropText? "/" s
  let (cs, rest) := nameBody rest
  return (String.ofList cs, rest)

/-- The value of up to three octal digits, and what follows them. -/
def octal? (s : Bytes) : Option (UInt8 × Bytes) :=
  let ds := (s.take 3).takeWhile fun b ↦ 48 ≤ b && b ≤ 55
  if ds.isEmpty then none
  else some (UInt8.ofNat (ds.foldl (fun n d ↦ n * 8 + (d.toNat - 48)) 0), s.drop ds.length)

/-- The bytes an escape stands for, after the backslash. -/
def escape? (s : Bytes) : Option (Bytes × Bytes) :=
  match octal? s, eol? s, s with
  | some (b, rest), _, _ => some ([b], rest)
  | none, some rest, _ => some ([], rest)
  | none, none, [] => none
  | none, none, b :: rest =>
    let plain :=
      if b = byte 'n' then 10
      else if b = byte 'r' then 13
      else if b = byte 't' then 9
      else if b = byte 'b' then 8
      else if b = byte 'f' then 12
      else b
    some ([plain], rest)

/-- The bytes of a string up to a parenthesis that does not belong to it. Every end of a line
counts as a line feed, and parentheses nest at most `depth` deep. -/
def literalBody : (fuel depth : Nat) → Bytes → Bytes × Bytes
  | 0, _, s => ([], s)
  | _ + 1, _, [] => ([], [])
  | fuel + 1, depth, b :: rest =>
    if b = byte ')' then ([], b :: rest)
    else if b = byte '\\' then
      match escape? rest with
      | none => ([], b :: rest)
      | some (bytes, rest) =>
        let (more, after) := literalBody fuel depth rest
        (bytes ++ more, after)
    else if isEol b then
      match eol? (b :: rest) with
      | none => ([], b :: rest)
      | some rest =>
        let (more, after) := literalBody fuel depth rest
        (10 :: more, after)
    else if b = byte '(' then
      if depth = 0 then ([], b :: rest)
      else
        let (inner, after) := literalBody fuel (depth - 1) rest
        match Bytes.dropText? ")" after with
        | none => ([], b :: rest)
        | some rest =>
          let (more, after) := literalBody fuel depth rest
          (byte '(' :: inner ++ byte ')' :: more, after)
    else
      let (more, after) := literalBody fuel depth rest
      (b :: more, after)

/-- A string between parentheses. -/
def literal? (s : Bytes) : Option (Bytes × Bytes) := do
  let rest ← Bytes.dropText? "(" s
  let (bytes, rest) := literalBody (rest.length + 1) 100 rest
  return (bytes, ← Bytes.dropText? ")" rest)

/-- The hexadecimal digits of a string, between which blanks may stand. -/
def hexBody : Bytes → List Nat × Bytes
  | [] => ([], [])
  | b :: rest =>
    if isSpace b then hexBody rest
    else
      match hexValue? b with
      | none => ([], b :: rest)
      | some digit =>
        let (digits, after) := hexBody rest
        (digit :: digits, after)

/-- The bytes of hexadecimal digits; a missing last digit is zero. -/
def hexBytes : List Nat → Bytes
  | [] => []
  | [high] => [UInt8.ofNat (high * 16)]
  | high :: low :: rest => UInt8.ofNat (high * 16 + low) :: hexBytes rest

/-- A string of hexadecimal digits between angle brackets. -/
def hexString? (s : Bytes) : Option (Bytes × Bytes) := do
  let rest ← Bytes.dropText? "<" s
  let (digits, rest) := hexBody rest
  return (hexBytes digits, ← Bytes.dropText? ">" rest)

/-- The number and the generation of an object, and blanks after each. -/
def objectId? (s : Bytes) : Option (ObjectId × Bytes) := do
  let (number, rest) ← natural? 0x100000000 s
  let (generation, rest) ← natural? 0x10000 (skip rest)
  return (⟨number, generation⟩, skip rest)

def reference? (s : Bytes) : Option (ObjectId × Bytes) := do
  let (id, rest) ← objectId? s
  return (id, ← Bytes.dropText? "R" rest)

def atom? (s : Bytes) : Option (Object × Bytes) :=
  ((Bytes.dropText? "null" s).map fun rest ↦ (Object.null, rest)) <|>
  ((Bytes.dropText? "true" s).map fun rest ↦ (Object.boolean true, rest)) <|>
  ((Bytes.dropText? "false" s).map fun rest ↦ (Object.boolean false, rest)) <|>
  ((reference? s).map fun (id, rest) ↦ (Object.reference id, rest)) <|>
  ((real? s).map fun (x, rest) ↦ (Object.real x, rest)) <|>
  ((integer? s).map fun (n, rest) ↦ (Object.integer n, rest)) <|>
  ((name? s).map fun (n, rest) ↦ (Object.name n, rest)) <|>
  ((literal? s).map fun (bytes, rest) ↦ (Object.string bytes .literal, rest)) <|>
  ((hexString? s).map fun (bytes, rest) ↦ (Object.string bytes .hexadecimal, rest))

mutual

def value? : Nat → Bytes → Option (Object × Bytes)
  | 0, _ => none
  | fuel + 1, s =>
    atom? s <|>
    (do
      let rest ← Bytes.dropText? "[" s
      let (items, rest) := items fuel (skip rest)
      return (.array items, ← Bytes.dropText? "]" rest)) <|>
    (do
      let (entries, rest) ← dictionaryBody? fuel s
      return (.dictionary entries, rest))

def items : Nat → Bytes → List Object × Bytes
  | 0, s => ([], s)
  | fuel + 1, s =>
    match value? fuel s with
    | none => ([], s)
    | some (item, rest) =>
      let (more, after) := items fuel (skip rest)
      (item :: more, after)

def dictionaryBody? : Nat → Bytes → Option (Dictionary × Bytes)
  | 0, _ => none
  | fuel + 1, s => do
    let rest ← Bytes.dropText? "<<" s
    let (entries, rest) := entries fuel [] (skip rest)
    return (entries, ← Bytes.dropText? ">>" rest)

/-- The entries of a dictionary, added to those read so far; of a repeated key the last value
counts. -/
def entries : Nat → Dictionary → Bytes → Dictionary × Bytes
  | 0, acc, s => (acc, s)
  | fuel + 1, acc, s =>
    match name? s with
    | none => (acc, s)
    | some (key, rest) =>
      match value? fuel (skip rest) with
      | none => (acc, s)
      | some (value, rest) => entries fuel (acc.set key value) (skip rest)

end

def dictionary? (s : Bytes) : Option (Dictionary × Bytes) :=
  dictionaryBody? (2 * s.length + 2) s

/-- How the reading of a stream ends: there is none, there is a broken one, there is one, or there
is one whose length could not be told, with all that follows its start. -/
inductive StreamReading where
  | absent
  | broken
  | found (object : Object)
  | unmeasured (entries : Dictionary) (rest : Bytes)

/-- A stream: a dictionary, the keyword, and as many bytes as the dictionary says. -/
def stream (lengthOf : ObjectId → Option Int) (s : Bytes) : StreamReading :=
  let head := do
    let (entries, rest) ← dictionary? s
    let rest ← Bytes.dropText? "stream" (skip rest)
    return (entries, ← eol? rest)
  match head with
  | none => .absent
  | some (entries, rest) =>
    let length := match entries.get? "Length" with
      | some (.reference id) => lengthOf id
      | some (.integer n) => some n
      | _ => none
    match length with
    | none => .unmeasured entries rest
    | some n =>
      if n < 0 then .broken
      else if rest.length < n.toNat then .absent
      else
        let after := rest.drop n.toNat
        match Bytes.dropText? "endstream" ((eol? after).getD after) with
        | none => .absent
        | some _ => .found (.streamOf entries (rest.take n.toNat))

/-- The value of an indirect object. A stream whose length cannot be told is empty, and what follows
its start is given too. -/
def objectBody? (lengthOf : ObjectId → Option Int) (s : Bytes) : Option (Object × Option Bytes) :=
  match stream lengthOf s with
  | .found object => some (object, none)
  | .unmeasured entries rest => some (.stream entries [], some rest)
  | .broken => none
  | .absent => (value? (2 * s.length + 2) s).map fun (object, _) ↦ (object, none)

/-- The id at the head of an indirect object and what follows it. -/
def objectHead? (s : Bytes) : Option (ObjectId × Bytes) := do
  let (id, rest) ← objectId? (skip s)
  let rest ← Bytes.dropText? "obj" rest
  return (id, skip rest)

end Marginalia.Pdf.Syntax
