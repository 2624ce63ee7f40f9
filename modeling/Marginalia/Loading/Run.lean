import Marginalia.Cache.Basic
import Marginalia.Loading.Source

/-!
# The course of a load

A load asks the source what it knows, looks into the cache, and only then asks for the bytes, which
are kept in the cache if they make a document. Each use of the cache is a step of its own, and steps
of others may come between any two steps.
-/

namespace Marginalia

/-- How often a source was asked. -/
structure Fetches where
  metadata : Nat
  bytes : Nat
  deriving DecidableEq, Repr

/-- What loads work on: the cache, if there is one, and the counts of what was asked. -/
structure Depot where
  cache : Option Cache
  fetches : Fetches
  deriving DecidableEq, Repr

/-- The depot after a change of its cache, if it has one. -/
def Depot.withCache (depot : Depot) (change : Cache → Cache) : Depot :=
  { depot with cache := depot.cache.map change }

/-- How far a load has come. It may be about to drop a cached document that its source knows to be
outdated, to look the document up, to open what it found, or to remove what could not be opened; or
it waits for the bytes, and is about to open them or to keep them. -/
inductive LoadStage where
  | start
  | validating (known : RemoteMetadata) (modifiedAt : Instant)
  | looking (known : RemoteMetadata)
  | opening (known : RemoteMetadata) (payload : Bytes)
  | discarding (known : RemoteMetadata)
  | fetching (known : RemoteMetadata) (answer : Except RetrievalError Bytes)
  | probing (known : RemoteMetadata) (bytes : Bytes)
  | storing (known : RemoteMetadata) (document : Pdf.OpenDocument)
  | finished (result : LoadResult)

namespace LoadStage

/-- Whether the next step has to wait for a disk or a processor. -/
def isSlow : LoadStage → Bool
  | start => false
  | fetching _ _ => false
  | finished _ => false
  | _ => true

def result? : LoadStage → Option LoadResult
  | finished result => some result
  | _ => none

/-- Ask what is known about a document; a source that fails knows nothing. -/
def askMetadata (source : Source) (id : DocumentId) (depot : Depot) : RemoteMetadata × Depot :=
  let known := match source.metadata id with
    | .ok known => known
    | .error _ => ⟨none, none⟩
  (known, { depot with fetches := ⟨depot.fetches.metadata + 1, depot.fetches.bytes⟩ })

def askBytes (source : Source) (id : DocumentId) (known : RemoteMetadata) (depot : Depot) :
    LoadStage × Depot :=
  (.fetching known (source.bytes id),
    { depot with fetches := ⟨depot.fetches.metadata, depot.fetches.bytes + 1⟩ })

/-- The next step of the load of a document. What cannot be done in the cache is passed over. -/
def step (format : Pdf.FileFormat) (source : Source) (now : Instant) (id : DocumentId)
    (depot : Depot) : LoadStage → LoadStage × Depot
  | start =>
    let (known, depot) := askMetadata source id depot
    match depot.cache, known.modifiedAt with
    | none, _ => askBytes source id known depot
    | some _, some modifiedAt => (validating known modifiedAt, depot)
    | some _, none => (looking known, depot)
  | validating known modifiedAt =>
    (looking known, depot.withCache fun cache ↦ (cache.invalidateIfStale now id modifiedAt).2)
  | looking known =>
    match depot.cache with
    | none => askBytes source id known depot
    | some cache =>
      match cache.get now id with
      | (.ok (some entry), cache) =>
        (opening known entry.payload, { depot with cache := some cache })
      | (_, cache) => askBytes source id known { depot with cache := some cache }
  | opening known payload =>
    match format.openDocument payload with
    | .ok document => (finished (.ok ⟨id, document, known.name, known.modifiedAt, true⟩), depot)
    | .error _ => (discarding known, depot)
  | discarding known =>
    askBytes source id known (depot.withCache fun cache ↦ (cache.remove id).2)
  | fetching _ (.error e) => (finished (.error (.retrieval e)), depot)
  | fetching known (.ok bytes) => (probing known bytes, depot)
  | probing known bytes =>
    match format.openDocument bytes with
    | .error e => (finished (.error (.invalidDocument e)), depot)
    | .ok document => (storing known document, depot)
  | storing known document =>
    (finished (.ok ⟨id, document, known.name, known.modifiedAt, false⟩),
      depot.withCache fun cache ↦ (cache.put now id document.bytes known.modifiedAt).2)
  | finished result => (finished result, depot)

def steps (format : Pdf.FileFormat) (source : Source) (now : Instant) (id : DocumentId) :
    Nat → LoadStage × Depot → LoadStage × Depot
  | 0, state => state
  | n + 1, (stage, depot) => steps format source now id n (stage.step format source now id depot)

/-- As many steps as a load takes at most. -/
def stepLimit : Nat := 8

end LoadStage

end Marginalia
