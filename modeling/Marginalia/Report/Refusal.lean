import Marginalia.Report.Storage
import Marginalia.Request.Field

/-!
# Reports on refused requests

A request that is not understood is answered with the field that is at fault.
-/

namespace Marginalia.Report

open Json (Value)

def refusal (r : Refusal) : Value :=
  match r with
  | .field name => failureWith "BadRequest" name
  | .annotations => failure "Json"
  | .font => fontError
  | .documentId cause => documentIdError cause

end Marginalia.Report
