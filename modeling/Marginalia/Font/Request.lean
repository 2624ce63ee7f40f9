import Marginalia.Font.Payload

/-!
# Requests to a builder

Everything that can be asked of a builder of payloads, as a value, and what it answers. A run of a
builder is a list of requests.
-/

namespace Marginalia.Font.SubsetBuilder

/-- A request for the payload of some characters of a font, or for those of all families in use. -/
inductive Request where
  | build (asset : Asset) (characters : List Char)
  | buildAll (library : Library) (usage : FamilyTable (List Char))

/-- What a builder answers. -/
inductive Answer where
  | payload (value : Option Payload)
  | payloads (value : FamilyTable Payload)

/-- The fonts that a request is about, each with its characters. -/
def Request.parts : Request → List (Asset × List Char)
  | .build asset characters => [(asset, characters)]
  | .buildAll library usage => FontFamily.all.filterMap fun family ↦ do
    return (← library.get? family, ← usage.get? family)

def apply (b : SubsetBuilder) : Request → Answer × SubsetBuilder
  | .build asset characters => (b.build asset characters).map .payload id
  | .buildAll library usage => (b.buildAll library usage).map .payloads id

def run (b : SubsetBuilder) (requests : List Request) : SubsetBuilder :=
  requests.foldl (fun b request ↦ (b.apply request).2) b

end Marginalia.Font.SubsetBuilder
