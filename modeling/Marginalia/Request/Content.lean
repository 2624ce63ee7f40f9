import Marginalia.Base64
import Marginalia.Font.Asset
import Marginalia.Font.Sample
import Marginalia.Pdf.Sample
import Marginalia.Request.Field
import Marginalia.Text.Utf8

/-!
# Contents in requests

A file is handed over as a text with one character per byte, in base 64, as the text that it holds,
or as the description of a sample document.
-/

namespace Marginalia.Request

open Json (Value)

/-- The bytes of a text with one character per byte. -/
def bytesOfText? (s : String) : Option Bytes :=
  if s.toList.all fun c ↦ c.toNat < 256 then some (Bytes.ofText s) else none

/-- A page of a sample: width, height, rotation and origin, of which the last may be left out. -/
def pageSpec? (v : Value) : Option Pdf.Sample.PageSpec := do
  let ns ← v.list? Value.int64?
  return ⟨ns[0]?.getD 612, ns[1]?.getD 792, ns[2]?.getD 0, ns[3]?.getD 0, ns[4]?.getD 0⟩

/-- The contents of a file that is no font of this library. -/
def plain? : Value → Option Bytes
  | .string s => bytesOfText? s
  | v =>
    ((field? v "b64").bind fun t ↦ do Base64.decode? (← t.string?).toList) <|>
    ((field? v "utf8").bind fun t ↦ do return Text.Utf8.encode (← t.string?)) <|>
    ((field? v "raw").bind fun t ↦ do bytesOfText? (← t.string?)) <|>
    ((field? v "pages").bind fun t ↦ do return Pdf.Sample.document (← t.list? pageSpec?)) <|>
    ((field? v "inherited").bind fun t ↦ do
      match ← t.list? Value.int64? with
      | [w, h, rotation] => some (Pdf.Sample.inheriting w h rotation)
      | _ => none)

/-- The contents of a font file; the sample font has a name. -/
def font? : Value → Option Bytes
  | .string "synthetic" => some Font.Sample.font
  | v => plain? v

def bytes? (v : Value) : Option Bytes := ((field? v "font").bind font?) <|> plain? v

/-- The font of a family, if it is handed over. -/
def asset (r : Value) (family : FontFamily) : Decoded (Option Font.Asset) := do
  match ← optional r family.name font? with
  | none => return none
  | some bytes =>
    match Font.Asset.ofBytes? family bytes with
    | some a => return some a
    | none => .error .font

/-- The fonts of a request, if it has any. -/
def library? (r : Value) : Decoded (Option Font.Library) := do
  match field? r "fonts" with
  | none => return none
  | some v => return some ⟨← asset v .serif, ← asset v .sans⟩

end Marginalia.Request
