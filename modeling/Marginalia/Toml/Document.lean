import Marginalia.Toml.Lexical
import Marginalia.Toml.Table

/-!
# TOML documents

A document is a list of lines: assignments, and headers that open the tables to which the
assignments after them belong.
-/

namespace Marginalia.Toml

mutual

/-- A value, nested less than `depth` deep. -/
def value? : (fuel depth : Nat) → List Char → Option (Item × List Char)
  | 0, _, _ => none
  | fuel + 1, depth, s =>
    match s with
    | '"' :: rest => (text? '"' rest).map fun (text, rest) ↦ (.text text, rest)
    | '\'' :: rest => (text? '\'' rest).map fun (text, rest) ↦ (.text text, rest)
    | '[' :: rest =>
      if depth ≤ 1 then none
      else (items? fuel (depth - 1) rest).map fun (items, rest) ↦ (.array items, rest)
    | '\x7b' :: rest =>
      if depth ≤ 1 then none
      else
        match skip rest with
        | '\x7d' :: rest => some (.table .braces [], rest)
        | rest => do
          let (pairs, rest) ← pairs? fuel (depth - 1) rest
          return (← ofPairs pairs, rest)
    | s => plain? s

def items? : (fuel depth : Nat) → List Char → Option (List Item × List Char)
  | 0, _, _ => none
  | fuel + 1, depth, s =>
    match skipLines s.length s with
    | ']' :: rest => some ([], rest)
    | s => do
      let (item, rest) ← value? fuel depth s
      match skipLines rest.length rest with
      | ',' :: rest =>
        let (items, rest) ← items? fuel depth rest
        return (item :: items, rest)
      | ']' :: rest => return ([item], rest)
      | _ => none

/-- The pairs of a table up to its closing brace; there is at least one. -/
def pairs? : (fuel depth : Nat) → List Char →
    Option (List (List String × String × Item) × List Char)
  | 0, _, _ => none
  | fuel + 1, depth, s => do
    let ((path, key), rest) ← key? s
    match rest with
    | '=' :: rest =>
      let (item, rest) ← value? fuel depth (skip rest)
      match skip rest with
      | ',' :: rest =>
        let (pairs, rest) ← pairs? fuel depth rest
        return ((path, key, item) :: pairs, rest)
      | '\x7d' :: rest => return ([(path, key, item)], rest)
      | _ => none
    | _ => none

end

/-- A line that says something. -/
inductive Line where
  | assignment (path : List String) (key : String) (item : Item)
  | table (path : List String) (key : String)
  | element (path : List String) (key : String)
  deriving Repr

/-- A line that says something, without its end. -/
def line? : List Char → Option (Line × List Char)
  | '[' :: '[' :: rest => do
    let ((path, key), rest) ← key? rest
    return (.element path key, ← Text.dropPrefix? [']', ']'] rest)
  | '[' :: rest => do
    let ((path, key), rest) ← key? rest
    return (.table path key, ← Instant.expect? ']' rest)
  | s => do
    let ((path, key), rest) ← key? s
    let rest ← Instant.expect? '=' rest
    let (item, rest) ← value? (rest.length + 1) depthLimit (skip rest)
    return (.assignment path key item, rest)

def lines? : (fuel : Nat) → List Char → Option (List Line)
  | 0, _ => none
  | fuel + 1, s =>
    match skip s with
    | [] => some []
    | s =>
      match lineEnd? s with
      | some rest => lines? fuel rest
      | none => do
        let (line, rest) ← line? s
        let lines ← lines? fuel (← lineEnd? rest)
        return line :: lines

/-- The tables of a document under way, and the path of the one that is open. -/
structure Draft where
  root : Members
  header : List String

def Draft.add (d : Draft) : Line → Option Draft
  | .assignment path key item => do
    return { d with root := ← assignIn d.header path key item d.root }
  | .table path key => do return ⟨← openTable path key d.root, path ++ [key]⟩
  | .element path key => do return ⟨← openElement path key d.root, path ++ [key]⟩

/-- Read a document; a byte order mark before it does not count. -/
def parse? (text : String) : Option Members := do
  let s := text.toList
  let s := if s.head?.any (·.toNat == 0xFEFF) then s.drop 1 else s
  let lines ← lines? (s.length + 1) s
  return (← lines.foldlM Draft.add ⟨[], []⟩).root

end Marginalia.Toml
