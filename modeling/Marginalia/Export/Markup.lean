import Marginalia.Annotation.Set
import Marginalia.Export.Operator
import Marginalia.Export.PageFrame
import Marginalia.Font.Payload

/-!
# Page markup

The operators that paint the annotations of a page: first the patches and then the labels, each
kind in the order of the set. The content that is there already is wrapped in a saved state, so
that markup starts from the state in which the page starts.
-/

namespace Marginalia.Export

open Font (Payload)

def patchOperators (frame : PageFrame Scalar) (p : Patch) : List Operator :=
  [.fillColor p.color, .fillBox (frame.mapBox Scalar.lesser Float32.abs p.bounds)]

/-- The operators that paint a label with a font under the name of a resource. -/
def labelOperators (frame : PageFrame Scalar) (payload : Payload) (resource : String) (l : Label) :
    List Operator :=
  [.beginText, .font resource l.style.fontSize, .fillColor l.style.color,
    .textMatrix frame.rotation.textAxes (frame.map ⟨l.x, l.y⟩), .showCodes (payload.encode l.text),
    .endText]

def openingOperators : List Operator := [.save]

/-- The operators after the content of a page: they take back what it left behind and paint the
annotations of the page. Labels without text are nowhere to be seen. -/
def markup (annotations : AnnotationSet) (page : Nat) (frame : PageFrame Scalar)
    (fonts : FamilyTable Payload) (resources : FamilyTable String) : List Operator :=
  let labels := (annotations.labelsOn page).filter fun l ↦ !l.text.isEmpty
  [.restore, .save] ++ (annotations.patchesOn page).flatMap (patchOperators frame) ++
    labels.flatMap (fun l ↦
      match fonts.get? l.style.family, resources.get? l.style.family with
      | some payload, some resource => labelOperators frame payload resource l
      | _, _ => []) ++
    [.restore]

end Marginalia.Export
