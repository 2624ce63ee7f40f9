import Marginalia.Folder

/-!
# Replacing a file step by step

A file is replaced by writing its new bytes to a temporary file, as many at a time as the disk
takes, and renaming that one, which takes a single step. Any step may fail, and the program may be
stopped after any step; what is on disk then stays there.
-/

namespace Marginalia.Folder

/-- How far the replacement of a file has come: nothing has been written yet, some bytes have, the
temporary file could not be renamed or was, or the replacement was given up before that. -/
inductive Stage where
  | preparing
  | writing (count : Nat)
  | unrenamed
  | renamed
  | failed
  deriving DecidableEq, Repr

/-- A step of replacing the file `name` by `bytes`. -/
inductive ReplacingStep (name temporary : String) (bytes : Bytes) :
    Folder × Stage → Folder × Stage → Prop where
  | start {f f' : Folder} (h : f.apply (.write temporary []) = .ok f') :
    ReplacingStep name temporary bytes (f, .preparing) (f', .writing 0)
  | write {f f' : Folder} {count more : Nat} (hmore : count < more) (hall : more ≤ bytes.length)
      (h : f.apply (.write temporary (bytes.take more)) = .ok f') :
    ReplacingStep name temporary bytes (f, .writing count) (f', .writing more)
  | rename {f f' : Folder} (h : f.apply (.rename temporary name) = .ok f') :
    ReplacingStep name temporary bytes (f, .writing bytes.length) (f', .renamed)
  | failBefore {f : Folder} : ReplacingStep name temporary bytes (f, .preparing) (f, .failed)
  | failWriting {f : Folder} {count : Nat} :
    ReplacingStep name temporary bytes (f, .writing count) (f, .failed)
  | failRenaming {f : Folder} :
    ReplacingStep name temporary bytes (f, .writing bytes.length) (f, .unrenamed)

end Marginalia.Folder
