import Marginalia.Json.Repeats
import Marginalia.Main
import Marginalia.Proofs.Annotation.Listing
import Marginalia.Proofs.ArtifactName
import Marginalia.Proofs.Cache.Headers
import Marginalia.Proofs.Cache.Lacking
import Marginalia.Proofs.Cache.Reach
import Marginalia.Proofs.Cache.Validity
import Marginalia.Proofs.Decimal.Fixed
import Marginalia.Proofs.DocumentId
import Marginalia.Proofs.Editor.Changes
import Marginalia.Proofs.Editor.Hits
import Marginalia.Proofs.Editor.Restoring
import Marginalia.Proofs.Editor.Sizes
import Marginalia.Proofs.Export.Coverage
import Marginalia.Proofs.Export.GraphicsState
import Marginalia.Proofs.Export.Placement
import Marginalia.Proofs.Export.Repeated
import Marginalia.Proofs.Export.Resources
import Marginalia.Proofs.Loading.Fresh
import Marginalia.Proofs.Loading.Sharing
import Marginalia.Proofs.Render.Redraw
import Marginalia.Proofs.Session.Interruption
import Marginalia.Proofs.Workbench.Effects
import Marginalia.Proofs.Workbench.Gestures
import Marginalia.Proofs.Workbench.Pinching
import Marginalia.Proofs.Workbench.Reloading
import Marginalia.Proofs.Workbench.Retiring
import Marginalia.Proofs.Workbench.Stale
import Marginalia.Proofs.Workbench.Views
import Marginalia.Report.Refusal
import Marginalia.Report.Workbench
import Marginalia.Request.Keeping
import Marginalia.Workbench.Description
