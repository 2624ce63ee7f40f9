import Marginalia.Text.Blank
import Marginalia.Text.Split

/-!
# Artifact names

A saved document is offered under the name of its source with `_edited` added. Of a path only the
last component counts.
-/

namespace Marginalia

/-- The name of a saved document whose source has no usable name. -/
def defaultArtifactName : String := "edited.pdf"

def separatesPath (c : Char) : Bool :=
  c == '/' || c == '\\'

/-- The last component of a path. -/
def lastComponent (path : List Char) : List Char :=
  (path.reverse.takeWhile fun c ↦ !separatesPath c).reverse

/-- A name without one ending `.pdf`, whose letters may be of either case. -/
def withoutPdfEnding (name : List Char) : List Char :=
  let stem := name.take (name.length - 4)
  if 4 ≤ name.length ∧ (name.drop (name.length - 4)).map Text.lowerAscii = ".pdf".toList then stem
  else name

def artifactName (displayName : Option String) : String :=
  let stem := displayName.map fun name ↦
    withoutPdfEnding (Text.trim (lastComponent name.toList))
  match stem.filter fun stem ↦ !stem.isEmpty with
  | some stem => String.ofList (stem ++ "_edited.pdf".toList)
  | none => defaultArtifactName

end Marginalia
