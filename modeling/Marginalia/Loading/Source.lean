import Marginalia.Pdf.Open
import Marginalia.Retrieval

/-!
# Sources of documents

A source answers two questions about an id: what is known about the document, and what are its
bytes.
-/

namespace Marginalia

/-- A source of documents at some moment. -/
structure Source where
  metadata : DocumentId → Except RetrievalError RemoteMetadata
  bytes : DocumentId → Except RetrievalError Bytes

namespace Source

def offline : Source where
  metadata := fun _ ↦ .error .notConfigured
  bytes := fun _ ↦ .error .notConfigured

end Source

/-- A source that holds its documents itself and can be made to fail. -/
structure Shelf where
  documents : List (DocumentId × Bytes)
  metadata : List (DocumentId × RemoteMetadata)
  metadataError : Option RetrievalError
  bytesError : Option RetrievalError

namespace Shelf

def empty : Shelf := ⟨[], [], none, none⟩

def putDocument (s : Shelf) (id : DocumentId) (bytes : Bytes) : Shelf :=
  { s with documents := (id, bytes) :: s.documents }

def dropDocument (s : Shelf) (id : DocumentId) : Shelf :=
  { s with documents := s.documents.filter fun (other, _) ↦ other ≠ id }

def putMetadata (s : Shelf) (id : DocumentId) (metadata : RemoteMetadata) : Shelf :=
  { s with metadata := (id, metadata) :: s.metadata }

def source (s : Shelf) : Source where
  metadata := fun id ↦
    match s.metadataError with
    | some e => .error e
    | none => .ok ((s.metadata.lookup id).getD ⟨none, none⟩)
  bytes := fun id ↦
    match s.bytesError, s.documents.lookup id with
    | some e, _ => .error e
    | none, some bytes => .ok bytes
    | none, none => .error (.service ("no document " ++ id.text))

end Shelf

/-- A document that was loaded. -/
structure LoadedDocument where
  id : DocumentId
  document : Pdf.OpenDocument
  displayName : Option String
  modifiedAt : Option Instant
  fromCache : Bool
  deriving DecidableEq, Repr

/-- Why a document could not be loaded. -/
inductive LoadError where
  | retrieval (cause : RetrievalError)
  | invalidDocument (cause : Pdf.EngineError)
  deriving DecidableEq, Repr

namespace LoadError

def message : LoadError → String
  | retrieval cause => cause.message
  | invalidDocument cause => "invalid document: " ++ cause.message

/-- Whether another attempt may succeed. -/
def isRetryable : LoadError → Bool
  | retrieval cause => cause.isRetryable
  | invalidDocument _ => false

end LoadError

abbrev LoadResult := Except LoadError LoadedDocument

end Marginalia
