import Marginalia.Workbench.Document
import Marginalia.Workbench.Input

/-!
# Events of a workbench

Everything that can happen to a workbench, as a value. Loads, page images and exports are finished
by others, so what came of them is part of the event, whatever it is. A run of a workbench is a list
of events with the times at which they happen.
-/

namespace Marginalia

/-- Something that happens to a workbench. The loop that writes sessions takes its steps between any
two others. -/
inductive Event where
  | setLoader (loader : Loader)
  | beginLoad (id : DocumentId)
  | applyLoad (outcome : LoadOutcome)
  | close
  | requestBase
  | applyBase (result : Render.BaseResult)
  | paint
  | runExport (job : ExportJob)
  | applyExport (outcome : ExportOutcome)
  | input (input : Input)
  | setPendingText (text : String)
  | setTextStyle (style : TextStyle)
  | setRectColor (color : Color)
  | flushSession
  | writeSession

namespace Workbench

/-- Let the loop that writes sessions take a step, if it has anything to do. -/
def writeSession (w : Workbench) : Workbench :=
  { w with sessions := w.sessions.map fun writer ↦ writer.step.getD writer }

def step (w : Workbench) (now : Instant) : Event → Workbench
  | .setLoader loader => w.withLoader loader
  | .beginLoad id => (w.beginLoad id).2
  | .applyLoad outcome => (w.applyLoad now outcome).2
  | .close => w.close
  | .requestBase => w.requestBase.2
  | .applyBase result => (w.applyBase result).2
  | .paint => w.paint.2
  | .runExport job => { w with builder := (job.run w.builder).2 }
  | .applyExport outcome => (w.applyExport now outcome).2
  | .input input => (w.handle now input).2
  | .setPendingText text => w.setPendingText text
  | .setTextStyle style => w.setTextStyle style
  | .setRectColor color => w.setRectColor color
  | .flushSession => w.flushSession
  | .writeSession => w.writeSession

def run (w : Workbench) (events : List (Instant × Event)) : Workbench :=
  events.foldl (fun w (now, event) ↦ w.step now event) w

end Workbench

end Marginalia
