import Marginalia.Editor.Store.Operation
import Marginalia.Render.Pipeline

/-!
# A store on display

A pipeline watches the version of a store. Scenes of the store are captured at some moments and
painted at others, as often as one likes, while the store goes on changing. Everything that can
happen is a value, and a run is a list of events.
-/

namespace Marginalia.Render

/-- A store, the pipeline that watches it, and the scenes captured of it, in their order. -/
structure Display where
  store : Store
  pipeline : Pipeline
  scenes : List Scene

namespace Display

def new (measure : TextMeasure) (options : StoreOptions) (fonts : Font.Library)
    (pixelRatio : Scalar) : Display :=
  let store := Store.new measure options
  ⟨store, .new store.version fonts pixelRatio, []⟩

/-- Something that happens to a store on display. -/
inductive Event where
  | operate (operation : Store.Operation)
  | capture (pageSize : Size Scalar) (live : Option (Box Scalar × Color))
  | paint (scene : Nat)
  | requestBase (page : Nat) (zoom : Scalar)
  | acceptBase (result : BaseResult)
  | invalidate

def paint (d : Display) (scene : Scene) : Option Image × Display :=
  let (image, pipeline) := d.pipeline.paintFrame d.store.version scene
  (image, { d with pipeline })

def step (d : Display) : Event → Display
  | .operate operation => { d with store := (d.store.apply operation).2 }
  | .capture pageSize live => { d with scenes := d.scenes ++ [.capture d.store pageSize live] }
  | .paint scene =>
    match d.scenes[scene]? with
    | some scene => (d.paint scene).2
    | none => d
  | .requestBase page zoom => { d with pipeline := (d.pipeline.requestBase page zoom).2 }
  | .acceptBase result => { d with pipeline := (d.pipeline.acceptBase result).2 }
  | .invalidate => { d with pipeline := d.pipeline.invalidate }

def run (d : Display) (events : List Event) : Display := events.foldl step d

end Display

end Marginalia.Render
