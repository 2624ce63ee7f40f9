import Marginalia.Base64
import Marginalia.Bytes
import Marginalia.DocumentId
import Marginalia.Instant
import Marginalia.Json.Decode

/-!
# Retrieving documents

A document service answers two questions about an id: what bytes the document has, and what it is
called and when it was last modified. Both answers are JSON records that may carry an error of the
service instead.
-/

namespace Marginalia

/-- What is wrong with an answer of the service. -/
inductive ResponseFault where
  | malformed
  | missingData
  | badPayload
  | badTime
  | described (text : String)
  deriving DecidableEq, Repr

def ResponseFault.message : ResponseFault → String
  | .malformed => "not a record of the expected fields"
  | .missingData => "missing `data` field"
  | .badPayload => "bad base64 payload"
  | .badTime => "modifiedTime"
  | .described text => text

/-- Why a document could not be retrieved. -/
inductive RetrievalError where
  | network (text : String)
  | invalidResponse (fault : ResponseFault)
  | status (code : Nat)
  | service (text : String)
  | notConfigured
  deriving DecidableEq, Repr

namespace RetrievalError

def message : RetrievalError → String
  | network text => "network error: " ++ text
  | invalidResponse fault => "invalid response: " ++ fault.message
  | status code => "server responded with status " ++ Decimal.text code
  | service text => "document service error: " ++ text
  | notConfigured => "no remote document source configured"

/-- Transport failures and answers of an overloaded server are worth another attempt. -/
def isRetryable : RetrievalError → Bool
  | network _ => true
  | status code => code == 429 || (500 ≤ code && code < 600)
  | _ => false

end RetrievalError

/-- What the service knows about a document. -/
structure RemoteMetadata where
  name : Option String
  modifiedAt : Option Instant
  deriving DecidableEq, Repr

namespace Retrieval

/-- The error text of an answer counts unless it is blank. -/
def serviceError? (error : Option String) : Option RetrievalError :=
  match error with
  | some text => if (Text.trim text.toList).isEmpty then none else some (.service text)
  | none => none

def textField? (r : Json.Record) (name : String) : Option (Option String) :=
  r.withDefault? name (Json.Value.optional? Json.Value.string?) none

def parseBytes (body : String) : Except RetrievalError Bytes := do
  let fields? := do
    let r ← Json.Record.ofValue? ["data", "error"] (← Json.parse? body)
    return (← textField? r "data", ← textField? r "error")
  match fields? with
  | none => .error (.invalidResponse .malformed)
  | some (data, error) =>
    if let some e := serviceError? error then .error e
    else
      match data with
      | none => .error (.invalidResponse .missingData)
      | some data =>
        match Base64.decode? (Text.trim data.toList) with
        | none => .error (.invalidResponse .badPayload)
        | some bytes => .ok bytes

def parseMetadata (body : String) : Except RetrievalError RemoteMetadata := do
  let fields? := do
    let r ← Json.Record.ofValue? ["name", "modifiedTime", "error"] (← Json.parse? body)
    return (← textField? r "name", ← textField? r "modifiedTime", ← textField? r "error")
  match fields? with
  | none => .error (.invalidResponse .malformed)
  | some (name, time, error) =>
    if let some e := serviceError? error then .error e
    else
      let name := name.filter fun name ↦ !name.isEmpty
      match time with
      | none => .ok ⟨name, none⟩
      | some time =>
        match Instant.parse? time with
        | none => .error (.invalidResponse .badTime)
        | some t => .ok ⟨name, some t⟩

end Retrieval

end Marginalia
