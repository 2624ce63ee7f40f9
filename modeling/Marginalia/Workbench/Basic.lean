import Marginalia.Editor.Controller
import Marginalia.Export.Compose
import Marginalia.Loading.Loader
import Marginalia.Render.Pipeline
import Marginalia.Session.Writer
import Marginalia.Settings.Basic

/-!
# The workbench

A document on the workbench is edited, shown and saved. The slow work, which is loading, drawing
pages and composing exports, is handed out as jobs; what comes of a job is applied later, unless it
no longer fits the document that is open then.
-/

namespace Marginalia

open Pdf (EngineError OpenDocument)

/-- The document that is open; the revision is another one whenever its bytes are. -/
structure ActiveDocument where
  id : DocumentId
  displayName : Option String
  document : OpenDocument
  revision : Nat
  deriving DecidableEq, Repr

/-- Why something was not done. -/
inductive WorkbenchError where
  | noDocument
  | load (cause : LoadError)
  | exporting (cause : Export.ExportError)
  | render (cause : EngineError)

def WorkbenchError.message : WorkbenchError → String
  | .noDocument => "no document is open"
  | .load cause => cause.message
  | .exporting cause => cause.message
  | .render cause => "render failed: " ++ cause.message

/-- The store, the controller and the pipeline with the document they work on, and whom to ask for
fonts, for page images, and to save the session and the exports. -/
structure Workbench where
  settings : Settings
  store : Store
  controller : Controller
  pipeline : Render.Pipeline
  library : Font.Library
  builder : Font.SubsetBuilder
  rasterizer : Render.Rasterizer
  sessions : Option SessionWriter
  loader : Option Loader
  active : Option ActiveDocument
  loadGeneration : Nat

namespace Workbench

def new (settings : Settings) (library : Font.Library) (rasterizer : Render.Rasterizer)
    (sessions : Option Folder) : Workbench :=
  let store := Store.new (.ofLibrary library) settings.storeOptions
  { settings
    store
    controller := .new settings.textStyle settings.rectColor
    pipeline := .new store.version library settings.pixelRatio
    library
    builder := .empty
    rasterizer
    sessions := sessions.map SessionWriter.new
    loader := none
    active := none
    loadGeneration := 0 }

/-- The workbench by its settings: the fonts among the files named there, and empty sheets for
pages. -/
def ofSettings (settings : Settings) (fonts : FamilyTable Bytes) (sessions : Option Folder) :
    Workbench :=
  new settings (.ofFiles fonts) Render.blank sessions

/-- The workbench with a loader, whose cache gets every export. -/
def withLoader (w : Workbench) (loader : Loader) : Workbench :=
  { w with loader := some loader }

def documentId (w : Workbench) : Option DocumentId := w.active.map ActiveDocument.id

def displayName (w : Workbench) : Option String := w.active.bind ActiveDocument.displayName

def document (w : Workbench) : Option OpenDocument := w.active.map ActiveDocument.document

def pageSize (w : Workbench) : Option (Size Scalar) := do
  match (← w.document).info.page w.store.state.currentPage with
  | .ok geometry => some (Render.shownSize geometry)
  | .error _ => none

/-! ## Sessions -/

/-- What a session holds of a document at some moment. -/
def sessionOf (active : ActiveDocument) (s : Store) (now : Instant) : Session where
  documentId := active.id
  displayName := active.displayName
  annotations := s.annotations
  currentPage := s.state.currentPage
  zoom := s.state.zoom
  savedAt := now

def persist (w : Workbench) (now : Instant) : Workbench :=
  match w.sessions, w.active with
  | some writer, some active =>
    { w with sessions := some (writer.save (sessionOf active w.store now)) }
  | _, _ => w

/-- Go back to where the saved session left off, if it is one of the open document. -/
def resume (w : Workbench) : Workbench :=
  match w.sessions, w.active with
  | some writer, some active =>
    let (answer, writer) := writer.load
    let w := { w with sessions := some writer }
    match answer with
    | .ok (some session) =>
      if session.documentId = active.id then
        let store := w.store.restore session.annotations
        let (_, store) := store.setPage session.currentPage
        let (_, store) := store.setZoom session.zoom
        { w with store }
      else w
    | _ => w
  | _, _ => w

def flushSession (w : Workbench) : Workbench :=
  { w with sessions := w.sessions.map SessionWriter.flush }

def cancelGesture (w : Workbench) : Workbench :=
  { w with controller := w.controller.cancel.1 }

end Workbench

end Marginalia
