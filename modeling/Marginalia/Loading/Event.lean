import Marginalia.Cache.Operation
import Marginalia.Loading.Loader

/-!
# Events of a loader

Everything that can happen to a loader, as a value. Loads take their steps one at a time and in any
order. A finished export is put into the cache between any two of them, and the cache may be used by
others as well.
-/

namespace Marginalia.Loader

/-- Something that happens to a loader. The source is what it is at the step that asks it. -/
inductive Event where
  | ask (id : DocumentId)
  | advance (source : Source) (round run : Nat)
  | storeExport (id : DocumentId) (bytes : Bytes)
  | cache (operation : Cache.Operation)

/-- The document that an event puts, looks up or removes by its id; what a load works on was asked
for before. -/
def Event.id? : Event → Option DocumentId
  | .ask id => some id
  | .advance _ _ _ => none
  | .storeExport id _ => some id
  | .cache operation => operation.id?

def step (format : Pdf.FileFormat) (l : Loader) (now : Instant) : Event → Loader
  | .ask id => (l.enter id).2
  | .advance source round run => l.advance format source now round run
  | .storeExport id bytes => l.storeExport now id bytes
  | .cache operation =>
    match l.cache with
    | none => l
    | some cache => l.withCache (cache.perform now operation).2

def run (format : Pdf.FileFormat) (l : Loader) (events : List (Instant × Event)) : Loader :=
  events.foldl (fun l (now, event) ↦ l.step format now event) l

end Marginalia.Loader
