import Marginalia.Text.Blank
import Marginalia.Text.Split

/-!
# Document identities

A remotely stored document is known by an opaque id. People paste ids as they are or inside a
sharing address, where the id is a path segment after `/d/` or the value of the query key `id`.
Paths of local files are told apart, because they cannot be opened remotely.
-/

namespace Marginalia

/-- The identity of a remotely stored document. -/
structure DocumentId where
  text : String
  deriving DecidableEq, Repr, Inhabited, Hashable

/-- Why a text names no document. -/
inductive DocumentIdError where
  | empty
  | localPath (reference : String)
  | unrecognized (reference : String)
  deriving DecidableEq, Repr

def DocumentIdError.message : DocumentIdError → String
  | .empty => "document reference is empty"
  | .localPath reference =>
    "local file paths cannot be opened as remote documents: " ++ reference
  | .unrecognized reference => "no document id found in " ++ reference

namespace DocumentId

open Text

/-- Take a text as an id; a blank one is refused. -/
def new (text : String) : Except DocumentIdError DocumentId :=
  if (trim text.toList).isEmpty then .error .empty else .ok ⟨text⟩

/-- Whether a reference looks like an address. -/
def isAddress (s : List Char) : Bool :=
  hasInfix "://".toList s

/-- Whether a reference looks like the path of a local file. -/
def isLocalPath (s : List Char) : Bool :=
  if "file://".toList.isPrefixOf s then true
  else if isAddress s then false
  else
    hasInfix ":\\".toList s || "/".toList.isPrefixOf s || "~".toList.isPrefixOf s ||
      "\\".toList.isPrefixOf s || "./".toList.isPrefixOf s || "../".toList.isPrefixOf s ||
      ".pdf".toList.isSuffixOf (s.map lowerAscii)

def endsSegment (c : Char) : Bool :=
  c == '/' || c == '?' || c == '#'

/-- The path segment after the first `/d/`. -/
def segmentId? (address : List Char) : Option (List Char) := do
  let (_, after) ← splitAtFirst? "/d/".toList address
  let id := after.takeWhile fun c ↦ !endsSegment c
  if id.isEmpty then none else some id

/-- The value of the first query key `id`, up to a fragment. -/
def queryId? (address : List Char) : Option (List Char) := do
  let (_, query) ← splitAtFirst? ['?'] address
  let pairs := (fields (· == '&') query).filterMap (splitAtFirst? ['='])
  let (_, value) ← pairs.find? fun (key, _) ↦ key == "id".toList
  let id := value.takeWhile fun c ↦ c != '#'
  if id.isEmpty then none else some id

/-- The id in a reference without surrounding blanks. -/
def ofReference (s : List Char) : Except DocumentIdError DocumentId :=
  if s.isEmpty then .error .empty
  else if isLocalPath s then .error (.localPath (String.ofList s))
  else if isAddress s then
    match segmentId? s <|> queryId? s with
    | some id => .ok ⟨String.ofList id⟩
    | none => .error (.unrecognized (String.ofList s))
  else if s.any fun c ↦ c == '/' || c == '?' || c == '&' || c == ' ' then
    .error (.unrecognized (String.ofList s))
  else .ok ⟨String.ofList s⟩

/-- Find the id in a bare id or a sharing address. -/
def parse (input : String) : Except DocumentIdError DocumentId :=
  ofReference (trim input.toList)

end DocumentId

end Marginalia
