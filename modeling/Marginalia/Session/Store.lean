import Marginalia.Annotation.Stored
import Marginalia.DocumentId
import Marginalia.Folder
import Marginalia.Json.Decode
import Marginalia.Text.Utf8

/-!
# Saved sessions

The last session is kept in one file, so that the user finds the document as it was left. A file
that cannot be understood counts as no session.
-/

namespace Marginalia

open Json (Value Record)

/-- All that is needed to go on where the user left off. -/
structure Session where
  documentId : DocumentId
  displayName : Option String
  annotations : AnnotationSet
  currentPage : Nat
  zoom : Scalar
  savedAt : Instant
  deriving DecidableEq, Repr

namespace Session

def formatVersion : Nat := 1

def toJson (s : Session) : Value := .object [
  ("document_id", .string s.documentId.text),
  ("display_name", Json.ofOption .string s.displayName),
  ("annotations", Stored.ofSet s.annotations),
  ("current_page", Json.ofNat s.currentPage),
  ("zoom", Json.ofSingle s.zoom),
  ("saved_at", Json.ofTime s.savedAt)]

def ofJson? (value : Value) : Option Session := do
  let r ← Record.ofValue?
    ["document_id", "display_name", "annotations", "current_page", "zoom", "saved_at"] value
  return {
    documentId := ⟨← r.required? "document_id" Value.string?⟩
    displayName := ← r.optional? "display_name" Value.string?
    annotations := ← r.required? "annotations" Stored.set?
    currentPage := ← r.required? "current_page" Value.nat32?
    zoom := ← r.required? "zoom" Value.single?
    savedAt := ← r.required? "saved_at" Value.time? }

def encode (s : Session) : Bytes :=
  Text.Utf8.encode (Value.indented (.object [
    ("version", Json.ofNat formatVersion),
    ("session", s.toJson)]))

def decode? (bytes : Bytes) : Option Session := do
  let r ← Record.ofValue? ["version", "session"] (← Json.parse? (← Text.Utf8.decode? bytes))
  let version ← r.required? "version" Value.nat32?
  let session ← r.required? "session" ofJson?
  if version = formatVersion then some session else none

/-! ## The folder -/

def fileName : String := "session.json"

/-- The name of the file that a session is first written to. -/
def temporaryName : String := "session.json.tmp"

def load (folder : Folder) : Except FileError (Option Session) :=
  match folder.read fileName with
  | .ok bytes => .ok (decode? bytes)
  | .error .missing => .ok none
  | .error e => .error e

/-- Save a session; the folder is made if it is missing. -/
def save (folder : Folder) (s : Session) : Except FileError Unit × Folder :=
  match folder.create with
  | .error e => (.error e, folder)
  | .ok folder =>
    match folder.applyAll (Folder.replacing fileName temporaryName s.encode) with
    | (none, folder) => (.ok (), folder)
    | (some e, folder) => (.error e, folder)

def clear (folder : Folder) : Except FileError Unit × Folder :=
  let (answer, folder) := folder.remove fileName
  (answer.map fun _ ↦ (), folder)

end Session

end Marginalia
