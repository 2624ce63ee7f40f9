import Marginalia.CommandLine.Run
import Marginalia.Report.Render
import Marginalia.Report.Storage
import Marginalia.Workbench.Document

/-!
# Reports on the workbench

Descriptions of the workbench, of exports, and of what commands print.
-/

namespace Marginalia.Report

open Json (Value)

def workbenchError (e : WorkbenchError) : Value :=
  match e with
  | .noDocument => failureWith "NoDocument" e.message
  | .load cause => loadError cause
  | .exporting cause => exportError cause
  | .render cause => object [("error", text "Render"), ("cause", engineError cause)]

/-- The document, the store, the controller and the pipeline. -/
def workbench (w : Workbench) : Value := object [
  ("id", optional (fun id ↦ text id.text) w.documentId),
  ("name", optional text w.displayName),
  ("page_size", optional size w.pageSize),
  ("doc_pages", optional (fun d ↦ count d.info.pageCount) w.document),
  ("store", object (store w.store)),
  ("ctl", controller w.controller),
  ("pipe", pipeline w.pipeline w.store)]

def exportJob (job : ExportJob) : Value := object [
  ("id", text job.documentId.text),
  ("revision", count job.revision),
  ("name", optional text job.displayName),
  ("ann", annotations job.annotations)]

def fonts (c : Export.Composed) : Value :=
  list (fun (_, p) ↦ text p.baseFont) c.fonts.toList

/-- A finished export, with the graph of its objects and the content of one of its pages, if they
are asked for. -/
def artifact (withGraph : Bool) (page : Option Nat) (a : ExportArtifact) : Value :=
  object ([("id", text a.documentId.text), ("file", text a.fileName)] ++
    (if withGraph then [("dump", graph a.bytes)] else []) ++
    member "content" (fun p ↦ (content? a.bytes p).getD .null) page)

def printedPage (page : Nat) (g : Pdf.PageGeometry) : Value := object [
  ("page", count page),
  ("width", number g.size.width),
  ("height", number g.size.height),
  ("rotation", integer g.rotation)]

/-- What a command prints. The size of a subset depends on how its tables are laid out. -/
def output (o : CommandLine.Output) : Value :=
  match o with
  | .layout path info => object [
    ("path", text path),
    ("page_count", count info.pageCount),
    ("pages", .array (info.pages.mapIdx fun i g ↦ printedPage (i + 1) g))]
  | .subset path payload characters glyphs wholeSize => object [
    ("output", text path),
    ("kind", text (CommandLine.Output.kindName payload.kind)),
    ("codepoints", count characters),
    ("glyphs", count glyphs),
    ("original_bytes", count wholeSize),
    ("subset_bytes", match payload.kind with
      | .subset => text "subset"
      | .full => count payload.bytes.length)]
  | .loaded d => object [
    ("id", text d.id.text),
    ("name", optional text d.displayName),
    ("page_count", count d.document.info.pageCount),
    ("from_cache", flag d.fromCache),
    ("modified_at", optional time d.modifiedAt)]
  | o => text o.text

/-- What a file holds: the graph of a document, or the glyphs of a font. -/
def file (b : Bytes) : Value :=
  if (Bytes.dropText? "%PDF" b).isSome then graph b else face b

def outcome (result : Except CommandLine.Failure CommandLine.Output) : List (String × Value) :=
  match result with
  | .ok o => [("ok", flag true), ("stdout", output o)]
  | .error f => [("error", text "Cli"), ("message", text f.message),
    ("causes", list text f.causes), ("stdout", text "")]

end Marginalia.Report
