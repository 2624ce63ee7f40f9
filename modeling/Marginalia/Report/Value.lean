import Marginalia.Bytes
import Marginalia.Decimal.Print
import Marginalia.Geometry.Basic
import Marginalia.Instant
import Marginalia.Json.Printer

/-!
# Reports

What the editor is doing can be described as JSON, for hosts that show it and for logs. In a
description, coordinates are texts with the fewest digits, so that every one of them reads back as
the same number.
-/

namespace Marginalia.Report

open Json (Value)

def object (members : List (String × Value)) : Value := .object members

def list {α : Type} (f : α → Value) (items : List α) : Value := .array (items.map f)

def text (s : String) : Value := .string s

def flag (b : Bool) : Value := .bool b

def count (n : Nat) : Value := Json.ofNat n

def integer (n : Int) : Value := Json.ofInt n

def optional {α : Type} (f : α → Value) (a : Option α) : Value := Json.ofOption f a

def member {α : Type} (key : String) (f : α → Value) (a : Option α) : List (String × Value) :=
  (a.map fun a ↦ (key, f a)).toList

/-- What an operation gave, or why it failed. -/
def result {ε α : Type} (f : α → Value) (refuse : ε → Value) : Except ε α → Value
  | .ok a => f a
  | .error e => refuse e

def number (x : Scalar) : Value := .string (Decimal.singleText x)

/-- Two coordinates. -/
def point (p : Point Scalar) : Value := list number [p.x, p.y]

def size (s : Size Scalar) : Value := list number [s.width, s.height]

/-- The left, the top, the width and the height. -/
def box (b : Box Scalar) : Value := list number [b.x, b.y, b.width, b.height]

/-- Bytes as a text with one character per byte. -/
def bytes (b : Bytes) : Value := .string (Bytes.toText b)

def time (t : Instant) : Value := .string (t.text .numeric)

def failure (kind : String) : Value := object [("error", text kind)]

def failureWith (kind message : String) : Value :=
  object [("error", text kind), ("message", text message)]

end Marginalia.Report
