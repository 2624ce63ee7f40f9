import Marginalia.Session.Store

/-!
# Saving in the background

Sessions are queued and written by a loop of their own, which takes all that has come in and writes
only the newest. A flush is answered when everything queued before it has been dealt with. Failures
to save do not matter.
-/

namespace Marginalia

/-- What the loop is told. -/
inductive WriteCommand where
  | save (session : Session)
  | flush (ticket : Nat)
  deriving DecidableEq, Repr

/-- The commands that the loop has taken together: the newest session and the flushes to answer. -/
structure WriteBatch where
  latest : Option Session
  tickets : List Nat
  deriving DecidableEq, Repr

namespace WriteBatch

def empty : WriteBatch := ⟨none, []⟩

def add (b : WriteBatch) : WriteCommand → WriteBatch
  | .save session => { b with latest := some session }
  | .flush ticket => { b with tickets := b.tickets ++ [ticket] }

end WriteBatch

/-- What the loop is doing. -/
inductive WriterPhase where
  | idle
  | collecting (batch : WriteBatch)
  | writing (batch : WriteBatch)
  deriving DecidableEq, Repr

/-- The folder, the commands that wait, the loop, and the flushes so far and those answered. -/
structure SessionWriter where
  folder : Folder
  queue : List WriteCommand
  phase : WriterPhase
  flushes : Nat
  answered : List Nat
  deriving DecidableEq, Repr

namespace SessionWriter

def new (folder : Folder) : SessionWriter := ⟨folder, [], .idle, 0, []⟩

def save (w : SessionWriter) (session : Session) : SessionWriter :=
  { w with queue := w.queue ++ [.save session] }

/-- Save a session at once, where there is no loop. -/
def saveInline (w : SessionWriter) (session : Session) : SessionWriter :=
  { w with folder := (session.save w.folder).2 }

/-- Ask to be told when everything queued so far has been dealt with. -/
def requestFlush (w : SessionWriter) : Nat × SessionWriter :=
  (w.flushes, { w with queue := w.queue ++ [.flush w.flushes], flushes := w.flushes + 1 })

/-- The next step of the loop, if there is anything to do. -/
def step (w : SessionWriter) : Option SessionWriter :=
  match w.phase, w.queue with
  | .idle, [] => none
  | .idle, command :: rest =>
    some { w with phase := .collecting (WriteBatch.empty.add command), queue := rest }
  | .collecting batch, command :: rest =>
    some { w with phase := .collecting (batch.add command), queue := rest }
  | .collecting batch, [] => some { w with phase := .writing batch }
  | .writing batch, _ =>
    some { w with
      phase := .idle
      folder := match batch.latest with
        | some session => (session.save w.folder).2
        | none => w.folder
      answered := w.answered ++ batch.tickets }

/-- Some steps of the loop, until there is nothing to do. -/
def steps : Nat → SessionWriter → SessionWriter
  | 0, w => w
  | n + 1, w =>
    match w.step with
    | some w => steps n w
    | none => w

/-- Let the loop run until it is idle. -/
def settle (w : SessionWriter) : SessionWriter :=
  steps (w.queue.length + 3) w

/-- Wait until everything queued so far is on disk. -/
def flush (w : SessionWriter) : SessionWriter :=
  w.requestFlush.2.settle

/-- The saved session after everything queued so far is on disk. -/
def load (w : SessionWriter) : Except FileError (Option Session) × SessionWriter :=
  let w := w.flush
  (Session.load w.folder, w)

end SessionWriter

end Marginalia
