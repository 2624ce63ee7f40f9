import Marginalia.Json.Value

/-!
# Repeated members

The members of a JSON object may repeat. A reader that looks members up by their keys keeps the last
one of each key, at every depth.
-/

namespace Marginalia.Json.Value

mutual

/-- The value in which every object has only the last member of each key. -/
def withoutRepeats : Value → Value
  | .array items => .array (itemsWithoutRepeats items)
  | .object members => .object (membersWithoutRepeats members)
  | v => v

/-- The items, each without repeats. -/
def itemsWithoutRepeats : List Value → List Value
  | [] => []
  | v :: rest => v.withoutRepeats :: itemsWithoutRepeats rest

/-- The last member of each key, each without repeats. -/
def membersWithoutRepeats : List (String × Value) → List (String × Value)
  | [] => []
  | (key, v) :: rest =>
    if rest.any fun other ↦ other.1 == key then membersWithoutRepeats rest
    else (key, v.withoutRepeats) :: membersWithoutRepeats rest

end

end Marginalia.Json.Value
