import Marginalia.Proofs.Editor.Invariant
import Marginalia.Proofs.Workbench.Requests
import Marginalia.Workbench.Event

/-!
# What every workbench keeps

However loads, inputs, page images and exports follow each other, the store of a workbench keeps its
invariant, and an annotation that is dragged is the selected one.
-/

namespace Marginalia

/-! ## The selection during a drag -/

/-- The operations that leave the selection alone. -/
def Store.Operation.keepsSelection : Store.Operation → Bool
  | .setZoom _ => true
  | .updateText _ => true
  | .updateFontSize _ => true
  | .updateFamily _ => true
  | .updateColor _ => true
  | .nudge _ _ => true
  | .beginDrag => true
  | .drag _ _ => true
  | _ => false

namespace Store

/-- The kinds of edits that leave the selection alone. -/
def EditKind.keepsSelection : EditKind → Bool
  | .zoom => true
  | .rewrite => true
  | .beginDrag => true
  | .drag => true
  | _ => false

theorem Operation.keepsSelection_editKind (operation : Operation)
    (h : operation.keepsSelection = true) : operation.editKind.keepsSelection = true := by
  cases operation <;> first | rfl | cases h

theorem Edit.selected_eq {s s' : Store} {kind : EditKind} (h : Edit s kind s')
    (hkind : kind.keepsSelection = true) : s'.state.selected = s.state.selected := by
  cases h with
  | sameZoom => rfl
  | zoom zoom => rfl
  | rewrite set _ => rfl
  | beginDrag _ => rfl
  | drag r dx dy _ => rfl
  | _ => cases hkind

theorem selected_apply (s : Store) (operation : Operation)
    (h : operation.keepsSelection = true) :
    (s.apply operation).2.state.selected = s.state.selected := by
  rcases (s.answered_apply operation).same_or_done with hsame | ⟨_, hedit⟩
  · exact congrArg (fun s ↦ s.state.selected) hsame
  · exact hedit.selected_eq (operation.keepsSelection_editKind h)

theorem selected_run (s : Store) (operations : List Operation)
    (h : ∀ operation ∈ operations, operation.keepsSelection = true) :
    (s.run operations).state.selected = s.state.selected := by
  induction operations generalizing s with
  | nil => rfl
  | cons operation rest ih =>
    have hfirst := s.selected_apply operation (h operation List.mem_cons_self)
    have hrest := ih (s.apply operation).2 fun other hmem ↦ h other (List.mem_cons_of_mem _ hmem)
    exact hrest.trans hfirst

end Store

namespace Controller

/-- The annotation that is being dragged. -/
def dragTarget? (c : Controller) : Option AnnotationRef :=
  match c.gesture with
  | .dragging target _ _ => some target
  | _ => none

/-- Whether a drag is under way that has moved something. -/
def hasDragged (c : Controller) : Bool :=
  match c.gesture with
  | .dragging _ _ moved => moved
  | _ => false

/-- Nothing but a drag has a target. -/
theorem dragTarget?_eq_none (c : Controller)
    (h : ∀ target last moved, c.gesture ≠ .dragging target last moved) : c.dragTarget? = none := by
  unfold dragTarget?
  split
  · next target last moved hgesture => exact absurd hgesture (h target last moved)
  · rfl

theorem track_gesture (c : Controller) (e : PointerEvent) (change : Touches → Nat → Touches) :
    (c.track e change).gesture = c.gesture := by
  unfold track
  split
  · rfl
  · rfl

theorem track_dragTarget? (c : Controller) (e : PointerEvent) (change : Touches → Nat → Touches) :
    (c.track e change).dragTarget? = c.dragTarget? := by
  unfold dragTarget?
  rw [track_gesture]

theorem startPinch_dragTarget? (c : Controller) (s : Store) :
    (c.startPinch s).controller.dragTarget? = none := by
  unfold startPinch cancel
  dsimp only
  cases c.touches.distance? with
  | none => rfl
  | some distance =>
    dsimp only [dragTarget?]
    by_cases hdistance : 0 < distance
    · rw [if_pos hdistance]
    · rw [if_neg hdistance]

/-- A press begins to drag nothing but the selected annotation. -/
theorem press_dragTarget? (c : Controller) (s : Store) (place : Point Scalar)
    (target : AnnotationRef) (hidle : c.gesture = .idle)
    (h : (c.press s place).controller.dragTarget? = some target) :
    s.state.selected = some target ∧ c.pressRequests s place = [] := by
  have hnone := c.dragTarget?_eq_none (by simp [hidle])
  unfold press at h
  unfold pressRequests
  cases hmode : s.state.mode with
  | addText =>
    simp only [hmode, placeText] at h
    split at h
    · exact absurd (hnone.symm.trans h) (by simp)
    · exact absurd (hnone.symm.trans h) (by simp)
  | addRect =>
    simp only [hmode] at h
    exact absurd h (by simp [dragTarget?])
  | select =>
    simp only [hmode, pressSelect] at h
    split at h
    · next hit hselected =>
      obtain rfl := Option.some.inj h
      refine ⟨(Option.filter_eq_some_iff.mp hselected).1, ?_⟩
      simp only [selectRequests, hselected]
      rfl
    · split at h
      · split at h
        · exact absurd (hnone.symm.trans h) (by simp)
        · exact absurd (hnone.symm.trans h) (by simp)
      · exact absurd (hnone.symm.trans h) (by simp)

/-- An annotation is being dragged already, and the selection is left alone. -/
def DragsOn (c : Controller) (requests : List Store.Operation) (target : AnnotationRef) : Prop :=
  c.dragTarget? = some target ∧ ∀ operation ∈ requests, operation.keepsSelection = true

/-- What a drag goes back to: one under way, or a press on the selected annotation. -/
def DragSource (c : Controller) (s : Store) (requests : List Store.Operation)
    (target : AnnotationRef) : Prop :=
  c.DragsOn requests target ∨ (s.state.selected = some target ∧ requests = [])

theorem pointerDown_dragSource (c : Controller) (s : Store) (e : PointerEvent)
    (target : AnnotationRef) (h : (c.pointerDown s e).controller.dragTarget? = some target) :
    c.DragSource s (c.pointerDownRequests s e) target := by
  have htrack := c.track_dragTarget? e fun touches finger ↦ touches.press finger e.place
  unfold pointerDown at h
  unfold pointerDownRequests
  dsimp only at h ⊢
  generalize c.track e (fun touches finger ↦ touches.press finger e.place) = tracked at h htrack ⊢
  split at h
  · exact absurd ((startPinch_dragTarget? tracked s).symm.trans h) (by simp)
  · next hpinch =>
    rw [if_neg hpinch]
    split at h
    · exact absurd h (by simp [startPan, cancel, dragTarget?])
    · next hpan =>
      rw [if_neg hpan]
      split at h
      · next hidle =>
        rw [if_pos hidle]
        exact Or.inr (press_dragTarget? tracked s e.place target hidle h)
      · next hbusy =>
        rw [if_neg hbusy]
        refine Or.inl ⟨htrack.symm.trans h, ?_⟩
        intro operation hmem
        exact absurd hmem List.not_mem_nil

theorem keepsSelection_of_dragRequests (last : Point Scalar) (moved : Bool) (point : Point Scalar)
    (operation : Store.Operation) (h : operation ∈ dragRequests last moved point) :
    operation.keepsSelection = true := by
  unfold dragRequests at h
  split at h
  · cases moved with
    | true =>
      obtain rfl := List.mem_singleton.mp h
      rfl
    | false =>
      rcases List.mem_cons.mp h with rfl | hdrag
      · rfl
      · obtain rfl := List.mem_singleton.mp hdrag
        rfl
  · exact absurd h List.not_mem_nil

theorem moveDrag_dragTarget? (c : Controller) (s : Store) (target : AnnotationRef)
    (last : Point Scalar) (moved : Bool) (point : Point Scalar) :
    (c.moveDrag s target last moved point).controller.dragTarget? = some target := by
  unfold moveDrag
  dsimp only
  split
  · rfl
  · rfl

theorem pointerMove_dragsOn (c : Controller) (s : Store) (e : PointerEvent)
    (target : AnnotationRef) (h : (c.pointerMove s e).controller.dragTarget? = some target) :
    c.DragsOn (c.pointerMoveRequests s e) target := by
  have htrack := c.track_dragTarget? e fun touches finger ↦ touches.move finger e.place
  unfold pointerMove at h
  unfold pointerMoveRequests
  dsimp only at h ⊢
  generalize c.track e (fun touches finger ↦ touches.move finger e.place) = tracked at h htrack ⊢
  cases hgesture : tracked.gesture with
  | idle =>
    have hnone := tracked.dragTarget?_eq_none (by simp [hgesture])
    simp only [hgesture] at h
    split at h
    · exact absurd (hnone.symm.trans h) (by simp)
    · exact absurd (hnone.symm.trans h) (by simp)
  | drawing origin current =>
    simp only [hgesture] at h
    exact absurd h (by simp [dragTarget?])
  | dragging dragged last moved =>
    simp only [hgesture] at h
    rw [moveDrag_dragTarget?] at h
    refine ⟨?_, keepsSelection_of_dragRequests _ _ _⟩
    rw [← htrack]
    unfold dragTarget?
    rw [hgesture]
    exact h
  | panning origin initialScroll =>
    have hnone := tracked.dragTarget?_eq_none (by simp [hgesture])
    simp only [hgesture, movePan] at h
    split at h
    · exact absurd (hnone.symm.trans h) (by simp)
    · exact absurd h (by simp [dragTarget?])
  | pinching initialDistance initialZoom =>
    have hnone := tracked.dragTarget?_eq_none (by simp [hgesture])
    simp only [hgesture, movePinch] at h
    split at h
    · exact absurd (hnone.symm.trans h) (by simp)
    · exact absurd (hnone.symm.trans h) (by simp)

theorem pointerUp_dragTarget? (c : Controller) (s : Store) (e : PointerEvent) :
    (c.pointerUp s e).controller.dragTarget? = none := by
  unfold pointerUp
  dsimp only
  generalize c.track e Touches.lift = tracked
  cases hgesture : tracked.gesture with
  | idle => simp [isPinching, release, hgesture, dragTarget?]
  | drawing origin current => simp [isPinching, release, hgesture, dragTarget?]
  | dragging target last moved =>
    cases moved with
    | true => simp [isPinching, release, hgesture, dragTarget?]
    | false => simp [isPinching, release, hgesture, dragTarget?]
  | panning origin initialScroll => simp [isPinching, release, hgesture, dragTarget?]
  | pinching initialDistance initialZoom =>
    simp only [isPinching, release, hgesture]
    split
    · split
      · rfl
      · simp [dragTarget?, hgesture]
    · simp [dragTarget?, hgesture]

theorem keyDown_dragsOn (c : Controller) (s : Store) (key : Key) (shift : Bool)
    (target : AnnotationRef) (h : (c.keyDown s key shift).controller.dragTarget? = some target) :
    c.DragsOn (keyRequests key shift) target := by
  -- the keys that do not move the selection give up the gesture
  cases key with
  | delete => cases h
  | backspace => cases h
  | escape => cases h
  | undo => cases h
  | left => exact ⟨h, by simp [keyRequests, Store.Operation.keepsSelection]⟩
  | right => exact ⟨h, by simp [keyRequests, Store.Operation.keepsSelection]⟩
  | up => exact ⟨h, by simp [keyRequests, Store.Operation.keepsSelection]⟩
  | down => exact ⟨h, by simp [keyRequests, Store.Operation.keepsSelection]⟩

end Controller

namespace Workbench

open Controller (DragSource)

theorem react_dragSource (c : Controller) (s : Store) (input : Input) (target : AnnotationRef)
    (h : (react c s input).controller.dragTarget? = some target) :
    c.DragSource s (inputRequests c s input) target := by
  cases input with
  | pointerDown e => exact c.pointerDown_dragSource s e target h
  | pointerMove e => exact Or.inl (c.pointerMove_dragsOn s e target h)
  | pointerUp e => exact absurd ((c.pointerUp_dragTarget? s e).symm.trans h) (by simp)
  | keyDown key shift => exact Or.inl (c.keyDown_dragsOn s key shift target h)
  | setMode mode => cases h
  | setPage page => cases h
  | setZoom zoom => exact Or.inl ⟨h, by simp [inputRequests, Store.Operation.keepsSelection]⟩
  | updateText text => exact Or.inl ⟨h, by simp [inputRequests, Store.Operation.keepsSelection]⟩
  | updateFontSize fontSize =>
    exact Or.inl ⟨h, by simp [inputRequests, Store.Operation.keepsSelection]⟩
  | updateFamily family =>
    exact Or.inl ⟨h, by simp [inputRequests, Store.Operation.keepsSelection]⟩
  | updateColor color => exact Or.inl ⟨h, by simp [inputRequests, Store.Operation.keepsSelection]⟩

/-! ## Saving and resuming -/

/-- Saving changes the queue of sessions alone. -/
theorem persist_eq (w : Workbench) (now : Instant) :
    ∃ sessions, w.persist now = { w with sessions } := by
  unfold persist
  split
  · exact ⟨_, rfl⟩
  · exact ⟨_, rfl⟩

/-- Resuming changes the queue of sessions, and the store by some operations. -/
theorem resume_eq (w : Workbench) :
    ∃ sessions operations, sessions.isSome = w.sessions.isSome ∧
      w.resume = { w with sessions, store := w.store.run operations } := by
  unfold resume
  split
  · next writer active hsessions _ =>
    refine ⟨some writer.load.2, ?_⟩
    dsimp only
    split
    · next session _ =>
      split
      · refine ⟨[.restore session.annotations, .setPage session.currentPage,
          .setZoom session.zoom], ?_, rfl⟩
        rw [hsessions]
        rfl
      · exact ⟨[], by rw [hsessions]; rfl, rfl⟩
    · exact ⟨[], by rw [hsessions]; rfl, rfl⟩
  · exact ⟨w.sessions, [], rfl, rfl⟩

@[simp]
theorem persist_store (w : Workbench) (now : Instant) : (w.persist now).store = w.store := by
  obtain ⟨_, h⟩ := w.persist_eq now
  rw [h]

@[simp]
theorem persist_controller (w : Workbench) (now : Instant) :
    (w.persist now).controller = w.controller := by
  obtain ⟨_, h⟩ := w.persist_eq now
  rw [h]

@[simp]
theorem persist_active (w : Workbench) (now : Instant) : (w.persist now).active = w.active := by
  obtain ⟨_, h⟩ := w.persist_eq now
  rw [h]

@[simp]
theorem resume_controller (w : Workbench) : w.resume.controller = w.controller := by
  obtain ⟨_, _, _, h⟩ := w.resume_eq
  rw [h]

@[simp]
theorem resume_active (w : Workbench) : w.resume.active = w.active := by
  obtain ⟨_, _, _, h⟩ := w.resume_eq
  rw [h]

theorem resume_store_invariant (w : Workbench) (hw : w.store.Invariant) :
    w.resume.store.Invariant := by
  obtain ⟨_, operations, _, h⟩ := w.resume_eq
  rw [h]
  exact hw.run operations

/-! ## Coherence -/

/-- The store is sound, and the annotation that is dragged is the selected one. -/
structure Coherent (w : Workbench) : Prop where
  store : w.store.Invariant
  drag : ∀ target, w.controller.dragTarget? = some target → w.store.state.selected = some target

theorem coherent_new (settings : Settings) (library : Font.Library)
    (rasterizer : Render.Rasterizer) (sessions : Option Folder) :
    (new settings library rasterizer sessions).Coherent := by
  refine ⟨Store.invariant_new _ _, ?_⟩
  intro target h
  cases h

/-- A workbench without a gesture is coherent as soon as its store is sound. -/
theorem coherent_of_idle (w : Workbench) (hstore : w.store.Invariant)
    (hidle : w.controller.gesture = .idle) : w.Coherent := by
  refine ⟨hstore, ?_⟩
  intro target h
  rw [w.controller.dragTarget?_eq_none (by simp [hidle])] at h
  cases h

@[simp]
theorem handle_store (w : Workbench) (now : Instant) (input : Input) :
    (w.handle now input).2.store = (react w.controller w.store input).store := by
  unfold handle
  dsimp only
  split
  · rw [persist_store]
  · rfl

@[simp]
theorem handle_controller (w : Workbench) (now : Instant) (input : Input) :
    (w.handle now input).2.controller = (react w.controller w.store input).controller := by
  unfold handle
  dsimp only
  split
  · rw [persist_controller]
  · rfl

@[simp]
theorem handle_active (w : Workbench) (now : Instant) (input : Input) :
    (w.handle now input).2.active = w.active := by
  unfold handle
  dsimp only
  split
  · rw [persist_active]
  · rfl

theorem Coherent.handle {w : Workbench} (h : w.Coherent) (now : Instant) (input : Input) :
    (w.handle now input).2.Coherent := by
  refine ⟨?_, ?_⟩
  · rw [handle_store, react_store]
    exact h.store.run _
  · intro target htarget
    rw [handle_controller] at htarget
    rw [handle_store, react_store]
    rcases react_dragSource _ _ _ _ htarget with ⟨hdrag, hkeeps⟩ | ⟨hselected, hnothing⟩
    · rw [Store.selected_run _ _ hkeeps]
      exact h.drag target hdrag
    · rw [hnothing]
      exact hselected

theorem Coherent.close {w : Workbench} (h : w.Coherent) : w.close.Coherent :=
  coherent_of_idle _ (h.store.edit (.loadDocument 0)) rfl

theorem Coherent.install {w : Workbench} (h : w.Coherent) (now : Instant)
    (loaded : LoadedDocument) : (w.install now loaded).Coherent := by
  unfold Workbench.install
  dsimp only
  apply coherent_of_idle
  · rw [persist_store]
    exact resume_store_invariant _ (h.store.edit (.loadDocument _))
  · rw [persist_controller, resume_controller]
    rfl

theorem Coherent.applyLoad {w : Workbench} (h : w.Coherent) (now : Instant)
    (outcome : LoadOutcome) : (w.applyLoad now outcome).2.Coherent := by
  unfold Workbench.applyLoad
  split
  · exact h
  · split
    · exact h.install now _
    · exact h.close
    · exact h

theorem Coherent.replaceDocument {w : Workbench} (h : w.Coherent) (now : Instant)
    (active : ActiveDocument) (job : ExportJob) (document : Pdf.OpenDocument) :
    (w.replaceDocument now active job document).Coherent := by
  unfold Workbench.replaceDocument
  dsimp only
  apply coherent_of_idle
  · dsimp only
    rw [persist_store]
    exact h.store.edit (.retireExported job.annotations)
  · dsimp only
    rw [persist_controller]
    rfl

theorem Coherent.applyExport {w : Workbench} (h : w.Coherent) (now : Instant)
    (outcome : ExportOutcome) : (w.applyExport now outcome).2.Coherent := by
  unfold Workbench.applyExport
  split
  · exact h
  · split
    · exact h
    · split
      · exact h
      · split
        · exact h
        · exact h.replaceDocument now _ _ _

/-- Every event keeps a workbench coherent. -/
theorem Coherent.step {w : Workbench} (h : w.Coherent) (now : Instant) (event : Event) :
    (w.step now event).Coherent := by
  cases event with
  | setLoader loader => exact ⟨h.store, h.drag⟩
  | beginLoad id => exact ⟨h.store, h.drag⟩
  | applyLoad outcome => exact h.applyLoad now outcome
  | close => exact h.close
  | requestBase =>
    simp only [Workbench.step, Workbench.requestBase]
    split
    · exact h
    · exact ⟨h.store, h.drag⟩
  | applyBase result => exact ⟨h.store, h.drag⟩
  | paint =>
    simp only [Workbench.step, Workbench.paint]
    split
    · exact h
    · exact ⟨h.store, h.drag⟩
  | runExport job => exact ⟨h.store, h.drag⟩
  | applyExport outcome => exact h.applyExport now outcome
  | input input => exact h.handle now input
  | setPendingText text => exact ⟨h.store, h.drag⟩
  | setTextStyle style => exact ⟨h.store, h.drag⟩
  | setRectColor color => exact ⟨h.store, h.drag⟩
  | flushSession => exact ⟨h.store, h.drag⟩
  | writeSession => exact ⟨h.store, h.drag⟩

theorem Coherent.run {w : Workbench} (h : w.Coherent) (events : List (Instant × Event)) :
    (w.run events).Coherent := by
  induction events generalizing w with
  | nil => exact h
  | cons first rest ih => exact ih (h.step first.1 first.2)

/-- The workbenches that some run leads to. -/
def Reachable (w : Workbench) : Prop :=
  ∃ settings library rasterizer sessions events,
    w = (new settings library rasterizer sessions).run events

theorem Reachable.coherent {w : Workbench} (h : w.Reachable) : w.Coherent := by
  obtain ⟨settings, library, rasterizer, sessions, events, rfl⟩ := h
  exact (coherent_new settings library rasterizer sessions).run events

theorem Reachable.run {w : Workbench} (h : w.Reachable) (events : List (Instant × Event)) :
    (w.run events).Reachable := by
  obtain ⟨settings, library, rasterizer, sessions, before, rfl⟩ := h
  exact ⟨settings, library, rasterizer, sessions, before ++ events, List.foldl_append.symm⟩

/-- A document of one empty page is opened. -/
def opening : List (Instant × Event) := [
  (⟨0, 0⟩, .beginLoad ⟨"a"⟩),
  (⟨0, 0⟩, .applyLoad ⟨⟨1, ⟨"a"⟩⟩, .ok ⟨⟨"a"⟩, ⟨[], ⟨[.letter]⟩⟩, none, none, false⟩⟩)]

/-- A workbench with that document. -/
def onePage : Workbench := (new (.standard []) .empty Render.blank none).run opening

theorem onePage_reachable : onePage.Reachable := ⟨_, _, _, _, opening, rfl⟩

/-- A pointer at a point, with its primary button. -/
def pointerAt (x y : Scalar) : PointerEvent := ⟨⟨x, y⟩, .primary, none⟩

/-- A patch is drawn and selected. -/
def drawing : List (Instant × Input) :=
  [.setMode .addRect, .pointerDown (pointerAt 10 10), .pointerUp (pointerAt 40 40),
    .setMode .select, .pointerDown (pointerAt 20 20), .pointerUp (pointerAt 20 20)].map
      fun input ↦ (⟨0, 0⟩, input)

end Workbench

end Marginalia
