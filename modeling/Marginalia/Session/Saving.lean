import Marginalia.Folder.Replacing
import Marginalia.Session.Store

/-!
# Saving step by step

A session is saved by making the folder if it is missing and replacing the file. What is asked of
the store is to load, to save, or to forget the session.
-/

namespace Marginalia.Session

/-- How far saving has come: nothing has been done, the folder could not be made, or the file is
being replaced. -/
inductive SaveStage where
  | started
  | refused
  | replacing (stage : Folder.Stage)
  deriving DecidableEq, Repr

/-- A step of saving a session. -/
inductive SaveStep (s : Session) : Folder × SaveStage → Folder × SaveStage → Prop where
  | create {f f' : Folder} (h : f.create = .ok f') :
    SaveStep s (f, .started) (f', .replacing .preparing)
  | failCreating {f : Folder} : SaveStep s (f, .started) (f, .refused)
  | replace {f f' : Folder} {stage stage' : Folder.Stage}
      (h : Folder.ReplacingStep fileName temporaryName s.encode (f, stage) (f', stage')) :
    SaveStep s (f, .replacing stage) (f', .replacing stage')

/-- Something that is asked of the store. -/
inductive StoreOperation where
  | load
  | save (session : Session)
  | clear
  deriving DecidableEq, Repr

/-- The answer to an operation, with the session if one is asked for, and the folder after it. -/
def perform (folder : Folder) : StoreOperation → Except FileError (Option Session) × Folder
  | .load => (load folder, folder)
  | .save session =>
    let (answer, folder) := session.save folder
    (answer.map fun _ ↦ none, folder)
  | .clear =>
    let (answer, folder) := clear folder
    (answer.map fun _ ↦ none, folder)

/-- The answers to operations one after another. -/
def answers (folder : Folder) : List StoreOperation → List (Except FileError (Option Session))
  | [] => []
  | operation :: rest =>
    (perform folder operation).1 :: answers (perform folder operation).2 rest

end Marginalia.Session
