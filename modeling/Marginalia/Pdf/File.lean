import Marginalia.Decimal.Digits
import Marginalia.Pdf.CrossReferences
import Marginalia.Text.Blank
import Marginalia.Text.Utf8

/-!
# Document files

A file starts with a version line and ends with the position where it says where its objects are.
What earlier versions of the file said is followed too. An object that cannot be read is left out.
-/

namespace Marginalia.Pdf.File

open Syntax (eol?)

/-- The version in the first line. -/
def version? (file : Bytes) : Option String := do
  let rest ← Bytes.dropText? "%PDF-" file
  let line := rest.takeWhile fun b ↦ !Syntax.isEol b
  let _ ← eol? (rest.drop line.length)
  Text.Utf8.decode? line

/-- The position that stands at the end of the file. -/
def startPosition? (file : Bytes) : Option Int := do
  let endMark ← Bytes.lastInfix? (Bytes.ofText "%%EOF") file 0 (file.length - 512)
  if endMark ≤ 25 then none
  let mark ← Bytes.lastInfix? (Bytes.ofText "startxref") file 0 (endMark - 25)
  let s ← Bytes.dropText? "startxref" (file.drop mark)
  let (position, s) ← Syntax.integer? (← eol? s)
  let _ ← Bytes.dropText? "%%EOF" (← eol? s)
  return position

/-- What the file says about its objects at a position. -/
def listingAt? (file : Bytes) (position : Int) : Option Listing :=
  if position < 0 ∨ (file.length : Int) < position then none
  else Listing.read? (file.drop position.toNat)

/-- Follow the positions of what was said earlier, each once. Beside the first of them the newest
trailer may name one more position. -/
def withEarlier? (file : Bytes) : (fuel : Nat) → (seen : List Int) →
    (previous beside : Option Object) → CrossReferences → Option CrossReferences
  | 0, _, _, _, rows => some rows
  | fuel + 1, seen, previous, beside, rows =>
    match previous.bind Object.integer? with
    | none => some rows
    | some position =>
      if seen.contains position then some rows
      else do
        let earlier ← listingAt? file position
        let rows := rows.merge earlier.rows
        let rows ← match beside.bind Object.integer? with
          | none => some rows
          | some position => (listingAt? file position).map fun listing ↦ rows.merge listing.rows
        withEarlier? file fuel (position :: seen) (earlier.trailer.get? "Prev") none rows

/-- The trailer of a document, without what led to earlier ones. -/
def ownTrailer (trailer : Dictionary) : Dictionary :=
  if ((trailer.get? "Prev").bind Object.integer?).isSome then
    (trailer.erase "Prev").erase "XRefStm"
  else trailer.erase "Prev"

/-! ## Objects -/

/-- An object that was read, with what follows its start if it is a stream of unknown length. -/
structure Loaded where
  id : ObjectId
  object : Object
  rest : Option Bytes

/-- The object at a position, which must have the expected id if there is one. Lengths of streams
may be objects themselves; `seen` holds the ids that are being read. -/
def objectAt? (file : Bytes) (rows : CrossReferences) :
    Nat → List ObjectId → Option ObjectId → Nat → Option Loaded
  | 0, _, _, _ => none
  | fuel + 1, seen, expected, position =>
    if file.length < position then none
    else do
      let (id, body) ← Syntax.objectHead? (file.drop position)
      if expected.any (· != id) then none
      let lengthOf (id : ObjectId) : Option Int := do
        if seen.contains id then none
        match ← rows.lookup? id.number with
        | .position position generation =>
          if generation != id.generation then none
          (← objectAt? file rows fuel (id :: seen) (some id) position).object.integer?
        | .packed => none
      let (object, rest) ← Syntax.objectBody? lengthOf body
      return ⟨id, object, rest⟩

/-- Whether other objects are packed into a stream with some entries. -/
def isPack (entries : Dictionary) : Bool :=
  (entries.get? "Type").bind Object.name? == some "ObjStm"

/-- A number of 32 bits in decimal digits, before which a plus sign may stand. -/
def plainNumber? (cs : List Char) : Option Nat := do
  let n ← Decimal.ofDigits? (if cs.head? = some '+' then cs.tail else cs)
  if n < 0x100000000 then some n else none

def pairs {α : Type} : List α → List (α × α)
  | a :: b :: rest => (a, b) :: pairs rest
  | _ => []

/-- The objects in the content of a stream. It starts with their numbers and their positions after
that start; of a repeated number the last object counts. -/
def unpack? (entries : Dictionary) (content : Bytes) : Option ObjectTable := do
  if content.isEmpty then return []
  let start ← (← entries.get? "First").integer?
  if start < 0 ∨ (content.length : Int) < start then none
  let words := (← Text.Utf8.decode? (content.take start.toNat)).toList.splitOnP Text.isBlank
  let _ ← (← entries.get? "N").integer?
  let found := (pairs ((words.filter (!·.isEmpty)).map plainNumber?)).filterMap
    fun (number, position) ↦ do
      let id : ObjectId := ⟨← number, 0⟩
      let position := start.toNat + (← position)
      if content.length ≤ position then none
      let s := content.drop position
      let (object, _) ← Syntax.value? (2 * s.length + 2) s
      return (id, object)
  return found.foldl (fun objects (id, object) ↦ ObjectTable.insert objects id object) []

def Loaded.open? (loaded : Loaded) : Option (Loaded × ObjectTable) :=
  match loaded.object with
  | .stream entries content =>
    if isPack entries then do
      let (entries, content) := (Filter.expand? entries content).getD (entries, content)
      return (⟨loaded.id, .stream entries content, none⟩, ← unpack? entries content)
    else some (loaded, [])
  | _ => some (loaded, [])

/-- Give a stream of unknown length its content, if its length can be told by following references
among all objects. -/
def Loaded.measure (doc : Document) (loaded : Loaded) : Document :=
  let measured := do
    let rest ← loaded.rest
    let .stream entries [] ← doc.objects.get? loaded.id | none
    let n ← (doc.resolve (← Dictionary.get? entries "Length")).integer?
    if 0 ≤ n ∧ n.toNat ≤ rest.length then
      some (Object.streamOf entries (rest.take n.toNat))
    else none
  (measured.map (doc.put loaded.id)).getD doc

/-- The document in a file. Packed objects never replace others. -/
def read? (file : Bytes) : Option Document := do
  let version ← version? file
  let newest ← listingAt? file (← startPosition? file)
  let rows ← withEarlier? file (file.length + 2) [] (newest.trailer.get? "Prev")
    (newest.trailer.get? "XRefStm") newest.rows
  let isEncrypted := newest.trailer.has "Encrypt"
  let loaded := rows.filterMap fun (_, location) ↦ do
    let .position position _ := location | none
    let loaded ← objectAt? file rows (rows.length + 1) [] none position
    if isEncrypted then return (loaded, []) else loaded.open?
  let objects := loaded.foldl (fun objects (l, _) ↦ ObjectTable.insert objects l.id l.object) []
  let objects := (loaded.flatMap Prod.snd).foldl (fun objects (id, object) ↦
    if (ObjectTable.get? objects id).isSome then objects
    else ObjectTable.insert objects id object) objects
  let doc : Document := {
    version
    trailer := ownTrailer newest.trailer
    objects
    maxNumber := rows.maxNumber
    crossReferences := newest.form }
  return (loaded.map Prod.fst).foldl Loaded.measure doc

end Marginalia.Pdf.File
