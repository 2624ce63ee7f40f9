import Marginalia.Pdf.Document
import Marginalia.Pdf.Filter
import Marginalia.Pdf.Syntax

/-!
# Cross-references

A file says where its objects are, either in a table or in the content of a stream. Most objects
stand at a position of the file; those that are packed stand in the content of another stream.
-/

namespace Marginalia.Pdf

open Syntax (skip eol? natural? byte)

/-- Where an object is: at a position, with the generation it is said to have, or in the content of
a stream. -/
inductive Location where
  | position (position generation : Nat)
  | packed
  deriving DecidableEq

/-- Where the objects are by number, in ascending order. -/
abbrev CrossReferences := List (Nat × Location)

namespace CrossReferences

def lookup? (rows : CrossReferences) (number : Nat) : Option Location :=
  (rows.find? fun (n, _) ↦ n == number).map Prod.snd

/-- Insert a row; a row with the same number is replaced. -/
def insert : CrossReferences → Nat → Location → CrossReferences
  | [], number, location => [(number, location)]
  | (n, l) :: rest, number, location =>
    if number < n then (number, location) :: (n, l) :: rest
    else if number = n then (number, location) :: rest
    else (n, l) :: insert rest number location

/-- Add earlier rows for the numbers that have none. -/
def merge (rows earlier : CrossReferences) : CrossReferences :=
  earlier.foldl (fun rows (number, location) ↦
    if (rows.lookup? number).isSome then rows else rows.insert number location) rows

def maxNumber (rows : CrossReferences) : Nat :=
  (rows.map Prod.fst).foldl max 0

end CrossReferences

/-- What a file says at one position about its objects, and the dictionary that goes with it. -/
structure Listing where
  rows : CrossReferences
  trailer : Dictionary
  form : CrossReferenceForm

namespace Listing

/-! ## Tables -/

/-- A line of a table: a position, a generation and whether it is in use. -/
structure Line where
  position : Nat
  generation : Nat
  isUsed : Bool

def lineEnd? (s : Bytes) : Option Bytes :=
  Bytes.dropPrefix? [32, 13] s <|> Bytes.dropPrefix? [32, 10] s <|> Bytes.dropPrefix? [13, 10] s

def line? (s : Bytes) : Option (Line × Bytes) := do
  let (position, s) ← natural? 0x100000000 s
  let (generation, s) ← natural? 0x100000000 (← Bytes.dropText? " " s)
  let s ← Bytes.dropText? " " s
  match s with
  | b :: s =>
    if b = byte 'n' then return (⟨position, generation, true⟩, ← lineEnd? s)
    else if b = byte 'f' then return (⟨position, generation, false⟩, ← lineEnd? s)
    else none
  | [] => none

def lines : Nat → Bytes → List Line × Bytes
  | 0, s => ([], s)
  | fuel + 1, s =>
    match line? s with
    | none => ([], s)
    | some (line, rest) =>
      let (more, after) := lines fuel rest
      (line :: more, after)

/-- A section: the number of its first object and its lines. How many there are is not believed. -/
def section? (s : Bytes) : Option ((Nat × List Line) × Bytes) := do
  let (start, s) ← natural? 0x10000000000000000 s
  let (_, s) ← natural? 0x100000000 (← Bytes.dropText? " " s)
  let s ← eol? ((Bytes.dropText? " " s).getD s)
  let (found, s) := lines s.length s
  return ((start, found), s)

def sections : Nat → Bytes → List (Nat × List Line) × Bytes
  | 0, s => ([], s)
  | fuel + 1, s =>
    match section? s with
    | none => ([], s)
    | some (one, rest) =>
      let (more, after) := sections fuel rest
      (one :: more, after)

def addSection (rows : CrossReferences) (start : Nat) (found : List Line) : CrossReferences :=
  found.zipIdx.foldl (fun rows (line, index) ↦
    if line.isUsed ∧ line.generation < 0x10000 then
      rows.insert ((start + index) % 0x100000000) (.position line.position line.generation)
    else rows) rows

def table? (s : Bytes) : Option (List (Nat × List Line) × Dictionary) := do
  let s ← eol? (← Bytes.dropText? "xref" s)
  let (found, s) := sections s.length s
  if found.isEmpty then none
  let s ← Bytes.dropText? "trailer" (skip s)
  let (trailer, _) ← Syntax.dictionary? (skip s)
  return (found, trailer)

/-! ## Streams -/

/-- A number of some bytes, the most significant one first; the last 32 bits count. -/
def field? (width : Nat) (s : Bytes) : Option (Nat × Bytes) :=
  if s.length < width then none
  else
    let n := (s.take width).foldl (fun n b ↦ n * 256 + b.toNat) 0
    some (n % 0x100000000, s.drop width)

def integers? (d : Dictionary) (key : String) : Option (List Int) := do
  (← (← d.get? key).array?).mapM Object.integer?

/-- How many bytes the fields of a row have. -/
structure Widths where
  kind : Nat
  second : Nat
  third : Nat

def Widths.ofEntries? (entries : Dictionary) : Option Widths := do
  match ← integers? entries "W" with
  | kind :: second :: third :: _ =>
    if 0 ≤ kind ∧ 0 ≤ second ∧ 0 ≤ third then some ⟨kind.toNat, second.toNat, third.toNat⟩ else none
  | _ => none

/-- A row of a stream. Of a row of an unknown kind only the kind is read. -/
def row? (w : Widths) (s : Bytes) : Option (Option Location × Bytes) := do
  let (kind, s) ← if w.kind = 0 then some (1, s) else field? w.kind s
  if 2 < kind then return (none, s)
  let (second, s) ← field? w.second s
  let (third, s) ← field? w.third s
  return (match kind with
    | 0 => none
    | 1 => some (.position second (third % 0x10000))
    | _ => some .packed, s)

def addRows? (w : Widths) : (count number : Nat) → CrossReferences → Bytes →
    Option (CrossReferences × Bytes)
  | 0, _, rows, s => some (rows, s)
  | count + 1, number, rows, s => do
    let (location, s) ← row? w s
    let rows := match location with
      | none => rows
      | some location => rows.insert (number % 0x100000000) location
    addRows? w count (number + 1) rows s

/-- Add the rows of sections that are given by their first numbers and their lengths. -/
def addSections? (w : Widths) : List Int → CrossReferences → Bytes → Option CrossReferences
  | start :: count :: more, rows, s => do
    let (rows, s) ← addRows? w count.toNat (start.emod 0x100000000).toNat rows s
    addSections? w more rows s
  | _, rows, _ => some rows

def ofStream? (entries : Dictionary) (content : Bytes) : Option Listing := do
  let (entries, content) ←
    if entries.has "Filter" then Filter.expand? entries content else some (entries, content)
  let size ← (← entries.get? "Size").integer?
  let sections := (integers? entries "Index").getD [0, size]
  let rows ← addSections? (← Widths.ofEntries? entries) sections [] content
  return ⟨rows, ((entries.erase "Length").erase "W").erase "Index", .stream⟩

/-- What is said at the start of some bytes, by a table that gives a size or by a stream. -/
def read? (s : Bytes) : Option Listing :=
  match table? s with
  | some (found, trailer) => do
    let _ ← (← trailer.get? "Size").integer?
    let rows := found.foldl (fun rows (start, found) ↦ addSection rows start found) []
    return ⟨rows, trailer, .table⟩
  | none => do
    let (_, body) ← Syntax.objectHead? s
    match ← Syntax.objectBody? (fun _ ↦ none) body with
    | (.stream entries content, _) => ofStream? entries content
    | _ => none

end Listing

end Marginalia.Pdf
