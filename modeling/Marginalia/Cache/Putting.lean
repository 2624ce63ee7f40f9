import Marginalia.Cache.Operation
import Marginalia.Folder.Replacing

/-!
# Putting step by step

A put puts the bytes of the entry together, replaces the file, and counts the write; when the
temporary file cannot be renamed, it is removed if possible. The answers to a history are all that
is given back while it goes on, with what the cache has counted.
-/

namespace Marginalia.Cache

/-- How far a put has come: the file is being replaced, or the write has been counted too. -/
inductive PutStage where
  | replacing (stage : Folder.Stage)
  | counted
  deriving DecidableEq, Repr

/-- A step of putting `bytes` into the file of a document. -/
inductive PutStep (id : DocumentId) (bytes : Bytes) :
    Cache × PutStage → Cache × PutStage → Prop where
  | replace {c : Cache} {f : Folder} {stage stage' : Folder.Stage}
      (h : Folder.ReplacingStep (fileName id) (temporaryName id) bytes
        (c.folder, stage) (f, stage')) :
    PutStep id bytes (c, .replacing stage) ({ c with folder := f }, .replacing stage')
  | count {c : Cache} :
    PutStep id bytes (c, .replacing .renamed)
      ({ c with stats := { c.stats with writes := c.stats.writes + 1 } }, .counted)
  | clean {c : Cache} :
    PutStep id bytes (c, .replacing .unrenamed)
      ((c.removeFile (temporaryName id)).2, .replacing .failed)
  | failCleaning {c : Cache} :
    PutStep id bytes (c, .replacing .unrenamed) (c, .replacing .failed)

def putBytes (now : Instant) (id : DocumentId) (payload : Bytes) (modifiedAt : Option Instant) :
    Bytes :=
  encode ⟨id, now, modifiedAt, payload.length⟩ payload

/-! ## Answers -/

/-- What an operation gives back. -/
inductive Answer where
  | done (result : Except FileError Unit)
  | entry (result : Except FileError (Option Entry))
  | verdict (result : Except FileError Bool)
  | count (result : Except FileError Nat)

def answer (c : Cache) (now : Instant) : Operation → Answer
  | .put id payload modifiedAt => .done (c.put now id payload modifiedAt).1
  | .get id => .entry (c.get now id).1
  | .isValid id modifiedAt => .verdict (c.isValid now id modifiedAt).1
  | .invalidateIfStale id modifiedAt => .verdict (c.invalidateIfStale now id modifiedAt).1
  | .remove id => .verdict (c.remove id).1
  | .clear => .count c.clear.1
  | .purgeExpired => .count (c.purgeExpired now).1

/-- The answers to a history, each with what has been counted since. -/
def answers (c : Cache) : List (Instant × Operation) → List (Answer × CacheStats)
  | [] => []
  | (now, operation) :: rest =>
    let after := (c.perform now operation).2
    (c.answer now operation, after.stats) :: after.answers rest

end Marginalia.Cache
