import Marginalia.Loading.Run
import Marginalia.Turns

/-!
# The loader

Loads of one document that overlap share a single run. A finished export is put into the cache at
once, without regard to loads under way.
-/

namespace Marginalia

/-- A load under way for a document: how far it has come, and the round in which it came there. -/
structure LoadRun where
  id : DocumentId
  stage : LoadStage
  reached : Option Nat

/-- What loads work on, who waits for which load, and the loads under way by their numbers. -/
structure Loader where
  depot : Depot
  flights : Flights DocumentId LoadResult
  runs : List (Nat × LoadRun)

namespace Loader

def new (cache : Option Cache) : Loader := ⟨⟨cache, ⟨0, 0⟩⟩, .empty, []⟩

/-- The cache of the loader, if it has one. -/
def cache (l : Loader) : Option Cache := l.depot.cache

def withCache (l : Loader) (cache : Cache) : Loader :=
  { l with depot := { l.depot with cache := some cache } }

def isLoading (l : Loader) (id : DocumentId) : Bool := l.flights.isPending id

/-- Ask for a document: join its load, or start one. -/
def enter (l : Loader) (id : DocumentId) : Nat × Loader :=
  match l.flights.enter id with
  | (.joined run, flights) => (run, { l with flights })
  | (.started run, flights) =>
    (run, { l with flights, runs := (run, ⟨id, .start, none⟩) :: l.runs })

/-- Take the next step of a load in a round. -/
def advance (format : Pdf.FileFormat) (source : Source) (now : Instant) (round : Nat) (l : Loader)
    (run : Nat) : Loader :=
  match l.runs.lookup run with
  | none => l
  | some load =>
    let (stage, depot) := load.stage.step format source now load.id l.depot
    match stage.result? with
    | some result =>
      { l with
        depot
        flights := l.flights.finish load.id run result
        runs := l.runs.filter fun (other, _) ↦ other != run }
    | none =>
      { l with
        depot
        runs := l.runs.map fun (other, state) ↦
          if other = run then (other, ⟨load.id, stage, some round⟩) else (other, state) }

/-- Whether a load waits for something that is not done before the next round. -/
def isWaiting (l : Loader) (round run : Nat) : Bool :=
  match l.runs.lookup run with
  | some load => load.stage.isSlow && load.reached == some round
  | none => false

/-- Someone who asks for a document, or waits for a load. -/
inductive Caller where
  | asking (id : DocumentId)
  | waiting (run : Nat)

/-- Go on with a load, and answer when it has ended. -/
def await (source : Source) (now : Instant) (round : Nat) (l : Loader) (run : Nat) :
    Turns.Party Caller LoadResult × Loader :=
  match l.flights.result? run with
  | some result => (.answered result, l)
  | none =>
    let l := if l.isWaiting round run then l else l.advance .standard source now round run
    match l.flights.result? run with
    | some result => (.answered result, l)
    | none => (.waiting (.waiting run), l)

/-- The turn of someone who waits for a document. -/
def turn (source : Source) (now : Instant) (round : Nat) (l : Loader) :
    Caller → Turns.Party Caller LoadResult × Loader
  | .asking id =>
    let (run, l) := l.enter id
    l.await source now round run
  | .waiting run => l.await source now round run

/-- Load some documents at the same time. -/
def loadAll (source : Source) (now : Instant) (l : Loader) (ids : List DocumentId) :
    List (Option LoadResult) × Loader :=
  let parties := ids.map fun id ↦ Turns.Party.waiting (Caller.asking id)
  let (parties, l) :=
    Turns.rounds (turn source now) (LoadStage.stepLimit * ids.length + 1) l parties
  (parties.map Turns.Party.answer?, l)

/-- Load a document while nothing else happens. -/
def load (source : Source) (now : Instant) (l : Loader) (id : DocumentId) :
    Option LoadResult × Loader :=
  let (stage, depot) :=
    LoadStage.steps .standard source now id LoadStage.stepLimit (.start, l.depot)
  (stage.result?, { l with depot })

/-- Put a finished export into the cache; a failure does not matter. -/
def storeExport (now : Instant) (l : Loader) (id : DocumentId) (bytes : Bytes) : Loader :=
  match l.depot.cache with
  | none => l
  | some cache => l.withCache (cache.put now id bytes none).2

end Loader

end Marginalia
