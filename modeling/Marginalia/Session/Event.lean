import Marginalia.Session.Writer

/-!
# Events of a writer

Everything that can happen to a writer of sessions, as a value: a session is queued, someone asks to
be told when all that was queued is on disk, and the loop takes a step. Whoever loads the session
waits for such an answer and then reads the folder.
-/

namespace Marginalia

def WriteCommand.session? : WriteCommand → Option Session
  | .save session => some session
  | .flush _ => none

namespace SessionWriter

/-- Something that happens to a writer. -/
inductive Event where
  | save (session : Session)
  | flush
  | write
  deriving DecidableEq, Repr

def Event.session? : Event → Option Session
  | save session => some session
  | _ => none

def perform (w : SessionWriter) : Event → SessionWriter
  | .save session => w.save session
  | .flush => w.requestFlush.2
  | .write => w.step.getD w

def run (w : SessionWriter) (events : List Event) : SessionWriter :=
  events.foldl perform w

/-- The sessions that were queued, in order. -/
def queued (events : List Event) : List Session :=
  events.filterMap Event.session?

def writtenBy (w : SessionWriter) : Event → Option Session
  | .write =>
    match w.phase with
    | .writing batch => batch.latest
    | _ => none
  | _ => none

/-- The sessions that were put on disk, in order. -/
def written (w : SessionWriter) : List Event → List Session
  | [] => []
  | event :: rest => (w.writtenBy event).toList ++ (w.perform event).written rest

end SessionWriter

end Marginalia
