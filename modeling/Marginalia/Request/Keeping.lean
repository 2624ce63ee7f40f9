import Marginalia.Environment
import Marginalia.Request.Content
import Marginalia.Request.Editing
import Marginalia.Session.Store
import Marginalia.Turns

/-!
# Keeping and fetching requests

Requests about sessions, the cache and the source of documents. Requests that do not say what time
it is take place at a fixed one.
-/

namespace Marginalia.Request

open Json (Value)

/-- The time of requests that do not name one: noon on the first of March 2024. -/
def standardTime : Instant := (Instant.parse? "2024-03-01T12:00:00Z").getD ⟨0, 0⟩

def now (r : Value) : Decoded Instant := withDefault r "now" time? standardTime

/-- What the clock shows after a step that sets it to a time or advances it by seconds, of which
whole milliseconds count. -/
def clock (now : Instant) (r : Value) : Decoded Instant := do
  match ← optional r "to" time? with
  | some t => return t
  | none =>
    let millis := (← required r "secs" Value.double?) * 1000
    return now.advance ((Decimal.FloatValue.ofDouble millis).truncate?.getD 0 * 1000000)

def cache (r : Value) : Decoded Cache := do
  return ⟨.empty, (← withDefault r "ttl_secs" Value.nat64? 86400) * 1000000000, .zero⟩

/-- The failure that a source is to answer with, if it is to fail. -/
def fault (r : Value) : Decoded (Option RetrievalError) := do
  match field? r "error" with
  | none => return none
  | some (.string "NotConfigured") => return some .notConfigured
  | some (.string s) => return some (.network s)
  | some v => return some (.status (← given "error" v.nat64?))

def session (r : Value) : Decoded Session := do
  let set ← match field? r "set" with
    | none => pure .empty
    | some _ => annotations r "set"
  return ⟨← document r, ← optional r "name" Value.string?, set,
    ← withDefault r "page" wrapped? 1, ← withDefault r "zoom" scalar? 1,
    ← withDefault r "saved_at" time? standardTime⟩

/-- The variables of a request beside the home folder. -/
def environment (r : Value) (home : String) : Decoded Environment := do
  return (← withDefault r "env" (table? Value.string?) []) ++ [("HOME", home)]

/-- A call that is shared with the other calls for its key. -/
def call? (v : Value) : Option (Call String Value) := do
  let failed := Value.object [("error", (field? v "fail").getD .null)]
  let turns (name : String) := ((field? v name).bind Value.nat64?).getD 0
  return ⟨← (field? v "key").bind Value.string?, turns "delay",
    (field? v "probe").bind Value.string?, turns "yields", (field? v "value").getD failed⟩

end Marginalia.Request
