import Marginalia.ArtifactName
import Marginalia.Workbench.Basic

/-!
# Documents on the workbench

Opening, closing, drawing and exporting. A load counts only if it is the last one that was begun, an
export only for the revision it was begun for, and a page image only if it was asked for last.
-/

namespace Marginalia

open Pdf (EngineError OpenDocument)

/-- A load that was begun. -/
structure LoadTicket where
  generation : Nat
  id : DocumentId
  deriving DecidableEq, Repr

/-- What came of a load. -/
structure LoadOutcome where
  ticket : LoadTicket
  result : LoadResult

/-- A page image to be drawn. -/
structure BaseJob where
  ticket : Render.BaseTicket
  rasterizer : Render.Rasterizer
  document : OpenDocument

def BaseJob.run (job : BaseJob) : Render.BaseResult :=
  job.ticket.run job.rasterizer job.document

/-- All that an export needs. -/
structure ExportJob where
  documentId : DocumentId
  revision : Nat
  displayName : Option String
  annotations : AnnotationSet
  source : Bytes
  library : Font.Library

/-- What came of an export. -/
structure ExportOutcome where
  job : ExportJob
  result : Except Export.ExportError Export.Composed

def ExportJob.run (job : ExportJob) (builder : Font.SubsetBuilder) :
    ExportOutcome × Font.SubsetBuilder :=
  let (result, builder) := Export.compose job.source job.annotations job.library builder
  (⟨job, result⟩, builder)

/-- A file to be offered for download. -/
structure ExportArtifact where
  documentId : DocumentId
  fileName : String
  bytes : Bytes
  deriving DecidableEq, Repr

namespace Workbench

/-! ## Opening and closing -/

/-- Begin to load a document; loads begun before do not count any more. -/
def beginLoad (w : Workbench) (id : DocumentId) : LoadTicket × Workbench :=
  let w := { w with loadGeneration := w.loadGeneration + 1 }
  (⟨w.loadGeneration, id⟩, w)

def close (w : Workbench) : Workbench :=
  let w := w.cancelGesture
  { w with
    active := none
    store := w.store.loadDocument 0
    pipeline := w.pipeline.invalidate }

/-- The revision of a document that is opened now. -/
def nextRevision (w : Workbench) : Nat :=
  (w.active.map ActiveDocument.revision).getD 0 + 1

/-- Put a loaded document in the place of the one that is open. -/
def install (w : Workbench) (now : Instant) (loaded : LoadedDocument) : Workbench :=
  let revision := w.nextRevision
  let w := w.cancelGesture
  let w := { w with
    store := w.store.loadDocument loaded.document.info.pageCount
    pipeline := w.pipeline.invalidate
    active := some ⟨loaded.id, loaded.displayName, loaded.document, revision⟩ }
  w.resume.persist now

/-- Apply a load. One that is not the last does nothing. A document that cannot be used closes the
one that is open; a source that fails leaves it open. -/
def applyLoad (w : Workbench) (now : Instant) (outcome : LoadOutcome) :
    Except WorkbenchError Effects × Workbench :=
  if outcome.ticket.generation ≠ w.loadGeneration then (.ok .none, w)
  else
    match outcome.result with
    | .ok loaded => (.ok .viewChange, w.install now loaded)
    | .error (.invalidDocument cause) => (.error (.load (.invalidDocument cause)), w.close)
    | .error (.retrieval cause) => (.error (.load (.retrieval cause)), w)

/-! ## Drawing -/

def requestBase (w : Workbench) : Except WorkbenchError BaseJob × Workbench :=
  match w.document with
  | none => (.error .noDocument, w)
  | some document =>
    let (ticket, pipeline) :=
      w.pipeline.requestBase w.store.state.currentPage w.store.state.zoom
    (.ok ⟨ticket, w.rasterizer, document⟩, { w with pipeline })

/-- Take over a page image; the answer says whether it was still wanted. -/
def applyBase (w : Workbench) (result : Render.BaseResult) :
    Except WorkbenchError Bool × Workbench :=
  let (answer, pipeline) := w.pipeline.acceptBase result
  (answer.mapError .render, { w with pipeline })

def scene (w : Workbench) : Option Render.Scene := do
  let live := w.controller.liveRect.map fun box ↦ (box, w.controller.rectColor)
  return .capture w.store (← w.pageSize) live

def paint (w : Workbench) : Option Render.Image × Workbench :=
  match w.scene with
  | none => (none, w)
  | some scene =>
    let (image, pipeline) := w.pipeline.paintFrame w.store.version scene
    (image, { w with pipeline })

/-! ## Exporting -/

/-- Begin to export the open document with its annotations. -/
def beginExport (w : Workbench) : Except WorkbenchError ExportJob :=
  match w.active with
  | none => .error .noDocument
  | some active =>
    .ok ⟨active.id, active.revision, active.displayName, w.store.annotations,
      active.document.bytes, w.library⟩

/-- Whether an export is one of the open document as it is. -/
def isCurrent (w : Workbench) (job : ExportJob) : Bool :=
  w.active.any fun active ↦ active.id = job.documentId && active.revision = job.revision

/-- Put the exported bytes in the place of the open document; the annotations that were painted into
it go. -/
def replaceDocument (w : Workbench) (now : Instant) (active : ActiveDocument) (job : ExportJob)
    (document : OpenDocument) : Workbench :=
  let w := { w with
    active := some { active with document, revision := active.revision + 1 } }.cancelGesture
  let w := { w with
    store := w.store.retireExported job.annotations
    pipeline := w.pipeline.invalidate }.persist now
  { w with loader := w.loader.map fun loader ↦
      loader.storeExport now job.documentId document.bytes }

/-- Apply an export. One that is not of the open document as it is does nothing. -/
def applyExport (w : Workbench) (now : Instant) (outcome : ExportOutcome) :
    Except WorkbenchError (Option ExportArtifact) × Workbench :=
  match w.active with
  | none => (.ok none, w)
  | some active =>
    if !w.isCurrent outcome.job then (.ok none, w)
    else
      match outcome.result with
      | .error e => (.error (.exporting e), w)
      | .ok composed =>
        match OpenDocument.ofBytes composed.bytes with
        | .error e => (.error (.render e), w)
        | .ok document =>
          (.ok (some ⟨active.id, artifactName active.displayName, document.bytes⟩),
            w.replaceDocument now active outcome.job document)

end Workbench

end Marginalia
