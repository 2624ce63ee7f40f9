import Marginalia.Decimal.Print
import Marginalia.Pdf.Document
import Marginalia.Pdf.Syntax
import Marginalia.Text.Utf8

/-!
# Writing documents

The file of a document: its objects in order, then where they are and the trailer. A number with a
fraction is written with the fewest digits, so that a whole one reads back as an integer. Blanks
stand only where values would run into each other.
-/

namespace Marginalia.Pdf.Writer

open Syntax (byte)

/-- Whether a character of a name stands for itself. -/
def isPlain (c : Char) : Bool :=
  33 ≤ c.toNat && c.toNat ≤ 126 && !Syntax.isDelimiter (byte c) && c != '#'

def nameText (name : String) : String :=
  String.ofList ('/' :: name.toList.flatMap fun c ↦
    if isPlain c then [c] else '#' :: Decimal.hexDigits 2 c.toNat)

/-- The positions of the parentheses that have no partner. Those in `opened` may still get one, the
last one first. -/
def unpaired : (position : Nat) → (opened : List Nat) → Bytes → List Nat
  | _, opened, [] => opened
  | position, opened, b :: bytes =>
    if b = byte '(' then unpaired (position + 1) (position :: opened) bytes
    else if b = byte ')' then
      match opened with
      | _ :: opened => unpaired (position + 1) opened bytes
      | [] => position :: unpaired (position + 1) [] bytes
    else unpaired (position + 1) opened bytes

/-- The bytes of a string as they stand between its parentheses. Backslashes, carriage returns and
parentheses without a partner are written with a backslash. -/
def literalBytes (bytes : Bytes) : Bytes :=
  let lone := unpaired 0 [] bytes
  bytes.zipIdx.flatMap fun (b, position) ↦
    if b = byte '\r' then [byte '\\', byte 'r']
    else if b = byte '\\' ∨ lone.contains position then [byte '\\', b]
    else [b]

def stringBytes (bytes : Bytes) : StringForm → Bytes
  | .literal => byte '(' :: literalBytes bytes ++ [byte ')']
  | .hexadecimal =>
    byte '<' :: bytes.flatMap (fun b ↦ (Decimal.hexDigits 2 b.toNat).map byte) ++ [byte '>']

def referenceText (id : ObjectId) : String :=
  Decimal.text id.number ++ " " ++ Decimal.text id.generation ++ " R"

/-- The blank before a value that does not start with a delimiter. -/
def blankBefore : Object → Bytes
  | .null | .boolean _ | .integer _ | .real _ | .reference _ => Bytes.ofText " "
  | _ => []

/-- The blank after a value that does not end with a delimiter. -/
def blankAfter : Object → Bytes
  | .name _ | .stream _ _ => Bytes.ofText " "
  | object => blankBefore object

mutual

def objectBytes : Object → Bytes
  | .null => Bytes.ofText "null"
  | .boolean true => Bytes.ofText "true"
  | .boolean false => Bytes.ofText "false"
  | .integer n => Bytes.ofText (Decimal.integerText n)
  | .real x => Bytes.ofText (Decimal.singleText x)
  | .name text => Bytes.ofText (nameText text)
  | .string bytes form => stringBytes bytes form
  | .array [] => Bytes.ofText "[]"
  | .array (item :: items) =>
    Bytes.ofText "[" ++ objectBytes item ++ itemsBytes items ++ Bytes.ofText "]"
  | .dictionary entries => Bytes.ofText "<<" ++ entriesBytes entries ++ Bytes.ofText ">>"
  | .stream entries content =>
    Bytes.ofText "<<" ++ entriesBytes entries ++ Bytes.ofText ">>stream\n" ++ content ++
      Bytes.ofText "\nendstream"
  | .reference id => Bytes.ofText (referenceText id)

/-- The bytes of the items of an array after the first. -/
def itemsBytes : List Object → Bytes
  | [] => []
  | item :: items => blankBefore item ++ objectBytes item ++ itemsBytes items

def entriesBytes : List (String × Object) → Bytes
  | [] => []
  | (key, value) :: entries =>
    Bytes.ofText (nameText key) ++ blankBefore value ++ objectBytes value ++ entriesBytes entries

end

def indirectBytes (id : ObjectId) (object : Object) : Bytes :=
  Bytes.ofText (Decimal.text id.number ++ " " ++ Decimal.text id.generation ++ " obj\n") ++
    blankBefore object ++ objectBytes object ++ blankAfter object ++ Bytes.ofText "\nendobj\n"

/-- Where an object was written. -/
structure Row where
  id : ObjectId
  position : Nat

/-- The bytes of objects that start at a position, and where each of them is. -/
def body : ObjectTable → Nat → Bytes × List Row
  | [], _ => ([], [])
  | (id, object) :: rest, position =>
    if object.isLayout then body rest position
    else
      let bytes := indirectBytes id object
      let (more, rows) := body rest (position + bytes.length)
      (bytes ++ more, ⟨id, position⟩ :: rows)

/-! ## Cross-references -/

/-- Of the rows in ascending order the last one of each number. -/
def lastRows : List Row → List Row
  | row :: next :: rows =>
    if row.id.number = next.id.number then lastRows (next :: rows)
    else row :: lastRows (next :: rows)
  | rows => rows

/-- Rows in sections of consecutive numbers. -/
def sections (rows : List Row) : List (List Row) :=
  rows.splitBy fun row next ↦ row.id.number + 1 == next.id.number

/-- The first number of a section and how many rows it has. -/
def extent (found : List Row) : Nat × Nat :=
  ((found.head?.map fun row ↦ row.id.number).getD 0, found.length)

/-- A number of bytes, the most significant one first. -/
def bigEndian : (width n : Nat) → Bytes
  | 0, _ => []
  | width + 1, n => bigEndian width (n / 256) ++ [UInt8.ofNat n]

/-- The line of an object in a table; the number zero has none. -/
def lineBytes (row : Row) : Bytes :=
  Bytes.ofText (String.ofList (Decimal.paddedDigits 10 row.position) ++ " " ++
    String.ofList (Decimal.paddedDigits 5 row.id.generation) ++
    if row.id.number = 0 then " f \n" else " n \n")

/-- The cross-references of a document in a table, and its trailer. -/
def tableBytes (doc : Document) (rows : List Row) : Bytes :=
  let trailer := doc.trailer.set "Size" (.integer (doc.maxNumber + 1))
  Bytes.ofText "xref\n" ++
    (sections (⟨⟨0, 65535⟩, 0⟩ :: rows)).flatMap (fun found ↦
      let (start, count) := extent found
      Bytes.ofText (Decimal.text start ++ " " ++ Decimal.text count ++ "\n") ++
        found.flatMap lineBytes) ++
    Bytes.ofText "trailer\n" ++ objectBytes (.dictionary trailer)

/-- The cross-references of a document in a stream at a position, whose entries are the trailer. The
stream has a new number and a row of its own. -/
def streamBytes (doc : Document) (rows : List Row) (position : Nat) : Bytes :=
  let id : ObjectId := ⟨doc.maxNumber + 1, 0⟩
  let rows := rows ++ [⟨id, position⟩]
  let content := rows.flatMap fun row ↦
    bigEndian 1 1 ++ bigEndian 4 row.position ++ bigEndian 2 row.id.generation
  let index := (sections rows).flatMap fun found ↦
    let (start, count) := extent found
    [Object.integer start, Object.integer count]
  let trailer := (doc.trailer.set "Type" (.name "XRef")).set "Size" (.integer (id.number + 1))
  let trailer := (trailer.set "W" (.array [.integer 1, .integer 4, .integer 2])).set "Index"
    (.array index)
  indirectBytes id (.streamOf (trailer.erase "Filter") content)

def write (doc : Document) : Bytes :=
  let head := Bytes.ofText "%PDF-" ++ Text.Utf8.encode doc.version ++ Bytes.ofText "\n"
  let (bytes, rows) := body doc.objects head.length
  let rows := lastRows (rows.filter fun row ↦ 1 ≤ row.id.number && row.id.number ≤ doc.maxNumber)
  let position := head.length + bytes.length
  let references := match doc.crossReferences with
    | .table => tableBytes doc rows
    | .stream => streamBytes doc rows position
  head ++ bytes ++ references ++
    Bytes.ofText ("\nstartxref\n" ++ Decimal.text position ++ "\n%%EOF")

end Marginalia.Pdf.Writer
