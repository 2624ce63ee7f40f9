import Marginalia.Cache.Basic

/-!
# Operations on a cache

Everything that can be asked of a cache, as a value. A history is a list of operations with what the
clock shows at each of them; the clock may be set back.
-/

namespace Marginalia.Cache

/-- Something that is asked of a cache. -/
inductive Operation where
  | put (id : DocumentId) (payload : Bytes) (modifiedAt : Option Instant)
  | get (id : DocumentId)
  | isValid (id : DocumentId) (modifiedAt : Instant)
  | invalidateIfStale (id : DocumentId) (modifiedAt : Instant)
  | remove (id : DocumentId)
  | clear
  | purgeExpired
  deriving DecidableEq, Repr

namespace Operation

/-- The document that an operation is about, unless it is about all of them. -/
def id? : Operation → Option DocumentId
  | put id _ _ => some id
  | get id => some id
  | isValid id _ => some id
  | invalidateIfStale id _ => some id
  | remove id => some id
  | clear => none
  | purgeExpired => none

def puts (id : DocumentId) : Operation → Bool
  | put other _ _ => other = id
  | _ => false

/-- Whether an operation looks at the age of the entry of a document. -/
def reads (id : DocumentId) : Operation → Bool
  | get other => other = id
  | isValid other _ => other = id
  | invalidateIfStale other _ => other = id
  | purgeExpired => true
  | _ => false

end Operation

/-- What became of the cache, and whether that is a failure. -/
def forget {α : Type} (answer : Except FileError α × Cache) : Except FileError Unit × Cache :=
  (answer.1.map fun _ ↦ (), answer.2)

def perform (c : Cache) (now : Instant) : Operation → Except FileError Unit × Cache
  | .put id payload modifiedAt => c.put now id payload modifiedAt
  | .get id => forget (c.get now id)
  | .isValid id modifiedAt => forget (c.isValid now id modifiedAt)
  | .invalidateIfStale id modifiedAt => forget (c.invalidateIfStale now id modifiedAt)
  | .remove id => forget (c.remove id)
  | .clear => forget c.clear
  | .purgeExpired => forget (c.purgeExpired now)

def run (c : Cache) (history : List (Instant × Operation)) : Cache :=
  history.foldl (fun c (now, operation) ↦ (c.perform now operation).2) c

end Marginalia.Cache
