import Marginalia.Proofs.Render.Frames

/-!
# Redraws

A pipeline notes the version of the store whenever a scene is painted, also when the scene is stale
and dropped. It asks for a redraw as long as the latest version has not been noted. So it never asks
for a frame that is there already, and it asks for the one that is missing unless a scene was
dropped at this very version: then nothing asks for a frame until the store changes again.
-/

namespace Marginalia.Render

namespace Display

/-- The display with a new pipeline, which watches the store from now on. -/
def rewatched (d : Display) (fonts : Font.Library) (pixelRatio : Scalar) : Display :=
  { d with pipeline := .new d.store.version fonts pixelRatio }

/-- What came of the scenes that were painted: the version of the scene in the latest frame, and the
version that the store had when a scene was last dropped. -/
structure PaintLog where
  painted : Nat
  dropped : Option Nat

/-- What an event adds to the log. -/
def noted (d : Display) (log : PaintLog) : Event → PaintLog
  | .paint scene =>
    match d.scenes[scene]? with
    | none => log
    | some scene =>
      match (d.paint scene).1 with
      | some _ => { log with painted := scene.version }
      | none => { log with dropped := some d.store.version }
  | _ => log

/-- The log after some events. -/
def notedIn (d : Display) (log : PaintLog) : List Event → PaintLog
  | [] => log
  | event :: rest => (d.step event).notedIn (d.noted log event) rest

/-- The version that the pipeline has noted is not above that of the store, and at it a frame was
drawn or a scene dropped. Nothing was drawn or dropped at a later version. -/
structure Tracks (d : Display) (log : PaintLog) : Prop where
  captured : d.HoldsCaptured
  seen_le : d.pipeline.seenVersion ≤ d.store.version
  painted_le : log.painted ≤ d.pipeline.seenVersion
  dropped_le : ∀ version ∈ log.dropped, version ≤ d.pipeline.seenVersion
  seen : log.painted = d.pipeline.seenVersion ∨ log.dropped = some d.pipeline.seenVersion

theorem tracks_rewatched {d : Display} (h : d.HoldsCaptured) (fonts : Font.Library)
    (pixelRatio : Scalar) : (d.rewatched fonts pixelRatio).Tracks ⟨d.store.version, none⟩ where
  captured := h
  seen_le := Nat.le_refl _
  painted_le := Nat.le_refl _
  dropped_le := nofun
  seen := .inl rfl

/-- A captured scene is drawn at its own version and dropped at every other one. -/
theorem HoldsCaptured.paint_cases {d : Display} (h : d.HoldsCaptured) {scene : Scene}
    (hscene : scene ∈ d.scenes) :
    ((d.paint scene).1.isSome ∧ scene.version = d.store.version) ∨
      ((d.paint scene).1 = none ∧ scene.version < d.store.version) := by
  obtain ⟨past, pageSize, live, hpast, rfl⟩ := h scene hscene
  have hle : past.version ≤ d.store.version := hpast.version_le
  have hdrawn := d.pipeline.paintFrame_isSome d.store.version (.capture past pageSize live)
  rcases Nat.lt_or_ge past.version d.store.version with hstale | hfresh
  · refine .inr ⟨Option.not_isSome_iff_eq_none.mp fun hsome ↦ ?_, hstale⟩
    exact Nat.not_le_of_lt hstale (hdrawn.mp hsome)
  · exact .inl ⟨hdrawn.mpr hfresh, Nat.le_antisymm hle hfresh⟩

theorem paint_seenVersion (d : Display) (scene : Scene) :
    (d.paint scene).2.pipeline.seenVersion = d.store.version := by
  unfold paint Pipeline.paintFrame
  dsimp only
  split <;> rfl

theorem acceptBase_seenVersion (p : Pipeline) (result : BaseResult) :
    (p.acceptBase result).2.seenVersion = p.seenVersion := by
  unfold Pipeline.acceptBase
  split
  · rfl
  · split <;> rfl

namespace Tracks

variable {d : Display} {log : PaintLog}

/-- Events that leave the noted version alone and paint nothing. -/
theorem of_seenVersion_eq (h : d.Tracks log) (event : Event)
    (hseen : (d.step event).pipeline.seenVersion = d.pipeline.seenVersion) :
    (d.step event).Tracks log where
  captured := h.captured.step event
  seen_le := by
    rw [hseen]
    exact Nat.le_trans h.seen_le (d.step_follows event).version_le
  painted_le := by
    rw [hseen]
    exact h.painted_le
  dropped_le := by
    rw [hseen]
    exact h.dropped_le
  seen := by
    rw [hseen]
    exact h.seen

theorem paint (h : d.Tracks log) (scene : Nat) :
    (d.step (.paint scene)).Tracks (d.noted log (.paint scene)) := by
  have hcaptured := h.captured.step (.paint scene)
  simp only [step, noted] at hcaptured ⊢
  cases hscene : d.scenes[scene]? with
  | none => exact h
  | some scene =>
    simp only [hscene] at hcaptured ⊢
    have hseen := d.paint_seenVersion scene
    rcases h.captured.paint_cases (List.mem_of_getElem? hscene) with
      ⟨hdrawn, hversion⟩ | ⟨hdropped, -⟩
    · obtain ⟨frame, hframe⟩ := Option.isSome_iff_exists.mp hdrawn
      simp only [hframe]
      refine ⟨hcaptured, Nat.le_of_eq hseen, Nat.le_of_eq (hversion.trans hseen.symm),
        fun version hmem ↦ ?_, .inl (hversion.trans hseen.symm)⟩
      calc version ≤ d.pipeline.seenVersion := h.dropped_le version hmem
        _ ≤ d.store.version := h.seen_le
        _ = (d.paint scene).2.pipeline.seenVersion := hseen.symm
    · simp only [hdropped]
      refine ⟨hcaptured, Nat.le_of_eq hseen, ?_, fun version hmem ↦ ?_,
        .inr (congrArg some hseen.symm)⟩
      · calc log.painted ≤ d.pipeline.seenVersion := h.painted_le
          _ ≤ d.store.version := h.seen_le
          _ = (d.paint scene).2.pipeline.seenVersion := hseen.symm
      · exact Nat.le_of_eq ((Option.some.inj hmem).symm.trans hseen.symm)

theorem step (h : d.Tracks log) (event : Event) :
    (d.step event).Tracks (d.noted log event) := by
  cases event with
  | paint scene => exact h.paint scene
  | acceptBase result =>
    exact h.of_seenVersion_eq (.acceptBase result) (acceptBase_seenVersion d.pipeline result)
  | operate operation => exact h.of_seenVersion_eq (.operate operation) rfl
  | capture pageSize live => exact h.of_seenVersion_eq (.capture pageSize live) rfl
  | requestBase page zoom => exact h.of_seenVersion_eq (.requestBase page zoom) rfl
  | invalidate => exact h.of_seenVersion_eq .invalidate rfl

theorem run (h : d.Tracks log) (events : List Event) :
    (d.run events).Tracks (d.notedIn log events) := by
  induction events generalizing d log with
  | nil => exact h
  | cons event rest ih => exact ih (h.step event)

/-- A redraw is asked for if the latest version is neither in the latest frame nor dropped. -/
theorem needsRedraw_iff (h : d.Tracks log) :
    d.pipeline.needsRedraw d.store.version = true ↔
      log.painted < d.store.version ∧ log.dropped ≠ some d.store.version := by
  have hseen_le := h.seen_le
  have hpainted_le := h.painted_le
  rw [Pipeline.needsRedraw, bne_iff_ne]
  constructor
  · intro hmoved
    refine ⟨by omega, fun hdropped ↦ ?_⟩
    have hdropped_le := h.dropped_le d.store.version hdropped
    omega
  · rintro ⟨hpainted, hdropped⟩ hnoted
    rcases h.seen with hseen | hseen
    · omega
    · exact hdropped (hnoted ▸ hseen)

end Tracks

/-- In every run of a store and a pipeline that comes to watch it at any moment, the latest frame is
of no later version than the store. As long as it is of an earlier one, a redraw is asked for
exactly if no scene has been dropped since the store reached its version; and none is asked for when
the latest frame shows this version. -/
theorem needsRedraw_unless_dropped (measure : TextMeasure) (options : StoreOptions)
    (fonts laterFonts : Font.Library) (pixelRatio laterRatio : Scalar)
    (earlier events : List Event) :
    let watched := (new measure options fonts pixelRatio).run earlier
    let start := watched.rewatched laterFonts laterRatio
    let d := start.run events
    let log := start.notedIn ⟨start.store.version, none⟩ events
    log.painted ≤ d.store.version ∧
      (d.pipeline.needsRedraw d.store.version = true ↔
        log.painted < d.store.version ∧ log.dropped ≠ some d.store.version) := by
  intro watched start d log
  have hcaptured := (holdsCaptured_new measure options fonts pixelRatio).run earlier
  have htracks : d.Tracks log := (tracks_rewatched hcaptured laterFonts laterRatio).run events
  exact ⟨Nat.le_trans htracks.painted_le htracks.seen_le, htracks.needsRedraw_iff⟩

/-- A scene is captured, the mode is changed, and the scene is painted late: it is dropped, nothing
has been drawn, and no redraw is asked for. -/
theorem needsRedraw_after_drop :
    let loaded := (new .approximate .standard .empty 1).run [.operate (.loadDocument 1)]
    let start := loaded.rewatched .empty 1
    let events := [.capture ⟨100, 100⟩ none, .operate (.setMode .addRect), .paint 0]
    let d := start.run events
    let log := start.notedIn ⟨start.store.version, none⟩ events
    log.painted = 1 ∧ log.dropped = some 2 ∧ d.store.version = 2 ∧
      d.pipeline.needsRedraw d.store.version = false :=
  ⟨rfl, rfl, rfl, rfl⟩

end Display

end Marginalia.Render
