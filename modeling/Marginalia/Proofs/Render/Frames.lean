import Marginalia.Proofs.Editor.Edits
import Marginalia.Render.Display

/-!
# Frames and the version of the store

Every operation that changes the annotations or the view raises the version of the store, and none
lowers it. So two moments with the same version show the same, and a frame is painted only from a
scene that shows the store as it is.
-/

namespace Marginalia

namespace Store

/-! ## Versions -/

/-- A later store has a higher version, or still the annotations and the view of the earlier one. -/
structure Follows (earlier later : Store) : Prop where
  version_le : earlier.version ≤ later.version
  same : later.version = earlier.version →
    later.annotations = earlier.annotations ∧ later.state = earlier.state

theorem Follows.refl (s : Store) : s.Follows s := ⟨Nat.le_refl _, fun _ ↦ ⟨rfl, rfl⟩⟩

theorem Follows.trans {a b c : Store} (hab : a.Follows b) (hbc : b.Follows c) : a.Follows c := by
  refine ⟨Nat.le_trans hab.version_le hbc.version_le, fun heq ↦ ?_⟩
  have hab_le := hab.version_le
  have hbc_le := hbc.version_le
  -- The version in between is caught between two equal ones.
  obtain ⟨hannotations, hstate⟩ := hab.same (by omega)
  obtain ⟨hannotations', hstate'⟩ := hbc.same (by omega)
  exact ⟨hannotations'.trans hannotations, hstate'.trans hstate⟩

theorem follows_of_higher {s s' : Store} (h : s.version < s'.version) : s.Follows s' :=
  ⟨Nat.le_of_lt h, fun heq ↦ by omega⟩

/-- What has changed can be told by the version. -/
theorem Follows.version_lt {s s' : Store} (h : s.Follows s')
    (hchanged : s'.annotations ≠ s.annotations ∨ s'.state ≠ s.state) : s.version < s'.version := by
  refine Nat.lt_of_le_of_ne h.version_le fun heq ↦ ?_
  obtain ⟨hannotations, hstate⟩ := h.same heq.symm
  rcases hchanged with hne | hne
  · exact hne hannotations
  · exact hne hstate

/-- Every edit raises the version, apart from those that change nothing but the history. -/
theorem Edit.follows {s s' : Store} {kind : EditKind} (h : Edit s kind s') : s.Follows s' := by
  cases h with
  | same => exact .refl s
  | sameZoom => exact .refl s
  | beginDrag _ => exact ⟨Nat.le_refl _, fun _ ↦ ⟨rfl, rfl⟩⟩
  | _ => exact follows_of_higher (Nat.lt_succ_self _)

theorem follows_apply (s : Store) (operation : Operation) : s.Follows (s.apply operation).2 := by
  rcases (s.answered_apply operation).same_or_done with hsame | ⟨_, hedit⟩
  · have hstay : (s.apply operation).2 = s := hsame
    rw [hstay]
    exact .refl s
  · exact hedit.follows

end Store

namespace Render

/-! ## Scenes -/

/-- A scene shows the current page of a store, its zoom, what is selected and hovered, and the
annotations of the page. -/
structure Scene.Shows (scene : Scene) (s : Store) : Prop where
  page : scene.page = s.state.currentPage
  zoom : scene.zoom = s.state.zoom
  selected : scene.selected = s.state.selected
  hovered : scene.hovered = s.state.hovered
  labels : scene.annotations.labels = s.annotations.labelsOn s.state.currentPage
  patches : scene.annotations.patches = s.annotations.patchesOn s.state.currentPage

/-- A scene shows every store that looks like the one it was captured of. -/
theorem Scene.shows_capture {past s : Store} (pageSize : Size Scalar)
    (live : Option (Box Scalar × Color)) (hannotations : s.annotations = past.annotations)
    (hstate : s.state = past.state) : (capture past pageSize live).Shows s := by
  constructor <;> simp only [capture, hannotations, hstate]

/-- A scene is painted unless the store is at a later version than the scene. -/
theorem Pipeline.paintFrame_isSome (p : Pipeline) (version : Nat) (scene : Scene) :
    (p.paintFrame version scene).1.isSome = true ↔ version ≤ scene.version := by
  unfold paintFrame
  dsimp only
  split
  · next hstale => simpa using hstale
  · next hfresh => simpa using hfresh

namespace Display

/-- Every event leaves the store alone or carries out an operation on it. -/
theorem step_follows (d : Display) (event : Event) : d.store.Follows (d.step event).store := by
  cases event with
  | operate operation => exact d.store.follows_apply operation
  | paint scene =>
    simp only [step]
    split
    · exact .refl d.store
    · exact .refl d.store
  | _ => exact .refl d.store

/-- The scenes of a display were captured of stores that its own one has come after. -/
def HoldsCaptured (d : Display) : Prop :=
  ∀ scene ∈ d.scenes, ∃ past pageSize live,
    past.Follows d.store ∧ scene = .capture past pageSize live

theorem HoldsCaptured.step {d : Display} (h : d.HoldsCaptured) (event : Event) :
    (d.step event).HoldsCaptured := by
  have hold (scene : Scene) (hscene : scene ∈ d.scenes) : ∃ past pageSize live,
      past.Follows (d.step event).store ∧ scene = .capture past pageSize live := by
    obtain ⟨past, pageSize, live, hpast, heq⟩ := h scene hscene
    exact ⟨past, pageSize, live, hpast.trans (d.step_follows event), heq⟩
  cases event with
  | capture pageSize live =>
    intro scene hscene
    rcases List.mem_append.mp hscene with hbefore | hnew
    · exact hold scene hbefore
    · exact ⟨d.store, pageSize, live, .refl d.store, List.mem_singleton.mp hnew⟩
  | paint scene =>
    simp only [Display.step] at hold ⊢
    split at hold
    · exact hold
    · exact hold
  | _ => exact hold

theorem HoldsCaptured.run {d : Display} (h : d.HoldsCaptured) (events : List Event) :
    (d.run events).HoldsCaptured := by
  induction events generalizing d with
  | nil => exact h
  | cons event rest ih => exact ih (h.step event)

theorem holdsCaptured_new (measure : TextMeasure) (options : StoreOptions) (fonts : Font.Library)
    (pixelRatio : Scalar) : (new measure options fonts pixelRatio).HoldsCaptured :=
  fun _ hscene ↦ nomatch hscene

/-- A frame that is painted of a scene shows the store as it is. -/
theorem HoldsCaptured.shows {d : Display} (h : d.HoldsCaptured) {scene : Scene}
    (hscene : scene ∈ d.scenes) (hpainted : (d.paint scene).1.isSome = true) :
    scene.Shows d.store := by
  obtain ⟨past, pageSize, live, hpast, rfl⟩ := h scene hscene
  have hle : d.store.version ≤ past.version :=
    (d.pipeline.paintFrame_isSome _ _).mp hpainted
  obtain ⟨hannotations, hstate⟩ := hpast.same (Nat.le_antisymm hle hpast.version_le)
  exact Scene.shows_capture pageSize live hannotations hstate

theorem run_append (d : Display) (before after : List Event) :
    d.run (before ++ after) = (d.run before).run after :=
  List.foldl_append

/-- What has been captured is kept. -/
theorem mem_scenes_run {d : Display} {scene : Scene} (events : List Event)
    (h : scene ∈ d.scenes) : scene ∈ (d.run events).scenes := by
  induction events generalizing d with
  | nil => exact h
  | cons event rest ih =>
    refine ih (d := d.step event) ?_
    cases event with
    | capture pageSize live => exact List.mem_append_left _ h
    | paint other =>
      simp only [step]
      split
      · exact h
      · exact h
    | _ => exact h

/-- In every run of a store on display, an operation that changes the annotations or the view raises
the version; a frame is painted of a captured scene only if the scene shows the store as it is; and
the scene of a capture after which the version has stayed the same is painted. -/
theorem paint_shows_store (measure : TextMeasure) (options : StoreOptions) (fonts : Font.Library)
    (pixelRatio : Scalar) (events : List Event) :
    let start := new measure options fonts pixelRatio
    let d := start.run events
    (∀ operation,
      let next := (d.store.apply operation).2
      next.annotations ≠ d.store.annotations ∨ next.state ≠ d.store.state →
        d.store.version < next.version) ∧
      (∀ scene ∈ d.scenes, ∀ frame, (d.paint scene).1 = some frame → scene.Shows d.store) ∧
      ∀ before pageSize live after, events = before ++ .capture pageSize live :: after →
        let past := (start.run before).store
        .capture past pageSize live ∈ d.scenes ∧
          (d.store.version = past.version →
            ∃ frame, (d.paint (.capture past pageSize live)).1 = some frame) := by
  intro start d
  have hcaptured : d.HoldsCaptured := (holdsCaptured_new _ _ _ _).run events
  refine ⟨fun operation ↦ (d.store.follows_apply operation).version_lt, ?_, ?_⟩
  · intro scene hscene frame hframe
    exact hcaptured.shows hscene (Option.isSome_of_eq_some hframe)
  · intro before pageSize live after hevents past
    have hd : d = ((start.run before).step (.capture pageSize live)).run after := by
      rw [show d = start.run events from rfl, hevents, run_append]
      rfl
    refine ⟨?_, fun hversion ↦ ?_⟩
    · rw [hd]
      exact mem_scenes_run after (List.mem_append_right _ (List.mem_singleton.mpr rfl))
    · exact Option.isSome_iff_exists.mp
        ((d.pipeline.paintFrame_isSome _ _).mpr (Nat.le_of_eq hversion))

end Display

end Render

end Marginalia
