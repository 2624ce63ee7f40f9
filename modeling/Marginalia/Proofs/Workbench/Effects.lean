import Marginalia.Proofs.Geometry.Equality
import Marginalia.Proofs.Workbench.Autosave
import Marginalia.Proofs.Workbench.Gestures
import Marginalia.Proofs.Workbench.Views

/-!
# What inputs report

Whatever an input changes is reported by its effects: the overlay has to be drawn again whenever it
shows something else, the page is asked for again and the scroll position announced exactly when
they are others, and the session is saved after every change that does not belong to a gesture that
goes on.
-/

namespace Marginalia

/-! ## Kinds of effects -/

namespace Effects

/-- Effects that ask for no other page image and announce no scroll position. -/
structure IsLocal (e : Effects) : Prop where
  base : e.rerenderBase = false
  scroll : e.scrollTo = .none

theorem isLocal_none : none.IsLocal := ⟨rfl, rfl⟩

theorem isLocal_overlay : overlay.IsLocal := ⟨rfl, rfl⟩

theorem isLocal_mutation : mutation.IsLocal := ⟨rfl, rfl⟩

theorem IsLocal.merge {a b : Effects} (ha : a.IsLocal) (hb : b.IsLocal) : (a.merge b).IsLocal := by
  refine ⟨?_, ?_⟩
  · simp only [Effects.merge, ha.base, hb.base, Bool.or_false]
  · simp only [Effects.merge, ha.scroll, hb.scroll]
    rfl

end Effects

namespace Controller

open Effects (isLocal_none isLocal_overlay isLocal_mutation)

theorem scrollTo_when {effects : Effects} (h : effects.scrollTo = none) (changed : Bool) :
    (when changed effects).scrollTo = none := by
  cases changed with
  | true => exact h
  | false => rfl

theorem isLocal_when {effects : Effects} (h : effects.IsLocal) (changed : Bool) :
    (when changed effects).IsLocal := by
  cases changed with
  | true => exact h
  | false => exact isLocal_none

theorem isLocal_cancelEffects (gesture : Gesture) : (cancelEffects gesture).IsLocal := by
  unfold cancelEffects
  split <;> exact ⟨rfl, rfl⟩

/-! ## Reports -/

/-- The overlay is drawn again, or shows the same; and the session is saved, or holds the same. -/
structure Reports (c : Controller) (s : Store) (handled : Handled) : Prop where
  overlay : handled.effects.redrawOverlay = true ∨
    (handled.controller.liveRect = c.liveRect ∧ handled.store.annotations = s.annotations ∧
      handled.store.state = s.state)
  persist : handled.effects.persist = true ∨ handled.store.content = s.content

/-- An input that does not move the page reports everything by effects that are local. -/
structure ReportsLocally (c : Controller) (s : Store) (handled : Handled) : Prop
    extends c.Reports s handled where
  isLocal : handled.effects.IsLocal
  scroll : handled.controller.scroll = c.scroll

/-- The rectangle that is being drawn depends on the gesture alone. -/
theorem liveRect_congr {c other : Controller} (h : c.gesture = other.gesture) :
    c.liveRect = other.liveRect := by
  unfold liveRect
  rw [h]

theorem liveRect_eq_none {c : Controller}
    (h : ∀ origin current, c.gesture ≠ .drawing origin current) : c.liveRect = none := by
  unfold liveRect
  split
  · next origin current hgesture => exact absurd hgesture (h origin current)
  · rfl

/-- Giving up a rectangle that is being drawn is reported. -/
theorem cancelEffects_overlay (c : Controller) :
    (cancelEffects c.gesture).redrawOverlay = true ∨ c.liveRect = none := by
  cases hgesture : c.gesture with
  | drawing origin current => exact Or.inl rfl
  | _ => exact Or.inr (liveRect_eq_none (by simp [hgesture]))

/-- A change of the store that is not refused is reported by effects that draw the overlay again. -/
theorem overlay_or_same {kind : Store.EditKind} {s : Store} {change : Bool × Store}
    (h : Store.Answered kind s change) {effects : Effects}
    (hoverlay : effects.redrawOverlay = true) :
    (when change.1 effects).redrawOverlay = true ∨
      (change.2.annotations = s.annotations ∧ change.2.state = s.state) := by
  rcases h.same_or_done with hsame | ⟨hdone, _⟩
  · rw [hsame]
    exact Or.inr ⟨rfl, rfl⟩
  · rw [hdone]
    exact Or.inl hoverlay

/-- What effects have to do to report an edit: draw the overlay again, and save the session unless
the edit only marks something. -/
structure Answers (effects : Effects) (kind : Store.EditKind) : Prop where
  overlay : effects.redrawOverlay = true
  persist : kind = .mark ∨ effects.persist = true

theorem answers_overlay : Answers .overlay .mark := ⟨rfl, Or.inl rfl⟩

theorem answers_mutation (kind : Store.EditKind) : Answers .mutation kind := ⟨rfl, Or.inr rfl⟩

theorem answers_viewChange (kind : Store.EditKind) : Answers .viewChange kind := ⟨rfl, Or.inr rfl⟩

theorem Answers.persist_or_same {effects : Effects} {kind : Store.EditKind}
    (h : Answers effects kind) {s : Store} {change : Bool × Store}
    (hanswered : Store.Answered kind s change) :
    (when change.1 effects).persist = true ∨ change.2.content = s.content := by
  rcases h.persist with rfl | hpersist
  · exact Or.inr hanswered.content_eq
  · exact Controller.persist_or_same hanswered effects hpersist

variable (c : Controller) (s : Store)

theorem reports_change {kind : Store.EditKind} {change : Bool × Store}
    (h : Store.Answered kind s change) {effects : Effects} (heffects : Answers effects kind) :
    c.Reports s ⟨c, change.2, when change.1 effects⟩ where
  overlay := (overlay_or_same h heffects.overlay).imp id fun hsame ↦ ⟨rfl, hsame⟩
  persist := heffects.persist_or_same h

theorem reports_cancelThen {kind : Store.EditKind} {change : Bool × Store}
    (h : Store.Answered kind s change) {effects : Effects} (heffects : Answers effects kind) :
    c.Reports s (c.cancelThen change effects) where
  overlay := by
    simp only [cancelThen, cancel, Effects.merge, Bool.or_eq_true]
    rcases c.cancelEffects_overlay with hgiven | hlive
    · exact Or.inl (Or.inl hgiven)
    · rcases overlay_or_same h heffects.overlay with hoverlay | hsame
      · exact Or.inl (Or.inr hoverlay)
      · exact Or.inr ⟨hlive.symm, hsame⟩
  persist := by
    simp only [cancelThen, cancel, Effects.merge, Bool.or_eq_true]
    exact (heffects.persist_or_same h).imp Or.inr id

theorem reportsLocally_change {kind : Store.EditKind} {change : Bool × Store}
    (h : Store.Answered kind s change) {effects : Effects} (heffects : Answers effects kind)
    (hlocal : effects.IsLocal) : c.ReportsLocally s ⟨c, change.2, when change.1 effects⟩ :=
  ⟨c.reports_change s h heffects, isLocal_when hlocal _, rfl⟩

theorem reportsLocally_cancelThen {kind : Store.EditKind} {change : Bool × Store}
    (h : Store.Answered kind s change) {effects : Effects} (heffects : Answers effects kind)
    (hlocal : effects.IsLocal) : c.ReportsLocally s (c.cancelThen change effects) :=
  ⟨c.reports_cancelThen s h heffects, (isLocal_cancelEffects _).merge (isLocal_when hlocal _), rfl⟩

/-- Where neither the store nor the rectangle changes, there is nothing to report. -/
theorem reportsLocally_same {c' : Controller} {effects : Effects} (hlocal : effects.IsLocal)
    (hlive : effects.redrawOverlay = true ∨ c'.liveRect = c.liveRect)
    (hscroll : c'.scroll = c.scroll) : c.ReportsLocally s ⟨c', s, effects⟩ :=
  ⟨⟨hlive.imp id fun hsame ↦ ⟨hsame, rfl, rfl⟩, Or.inr rfl⟩, hlocal, hscroll⟩

/-- One gesture takes the place of another that is given up. -/
theorem reportsLocally_given {c' : Controller} (hlive : c'.liveRect = none)
    (hscroll : c'.scroll = c.scroll) : c.ReportsLocally s ⟨c', s, cancelEffects c.gesture⟩ :=
  c.reportsLocally_same s (isLocal_cancelEffects _)
    (c.cancelEffects_overlay.imp id fun hnone ↦ hlive.trans hnone.symm) hscroll

variable {c s}

theorem track_scroll (e : PointerEvent) (change : Touches → Nat → Touches) :
    (c.track e change).scroll = c.scroll := by
  unfold track
  split <;> rfl

/-- Noting what a finger does makes no difference to what has to be reported. -/
theorem ReportsLocally.of_track {handled : Handled} {e : PointerEvent}
    {change : Touches → Nat → Touches} (h : (c.track e change).ReportsLocally s handled) :
    c.ReportsLocally s handled := by
  obtain ⟨⟨hoverlay, hpersist⟩, hlocal, hscroll⟩ := h
  rw [liveRect_congr (c.track_gesture e change)] at hoverlay
  rw [track_scroll] at hscroll
  exact ⟨⟨hoverlay, hpersist⟩, hlocal, hscroll⟩

variable (c s)

/-! ## Pointers -/

theorem reports_press (place : Point Scalar) (hidle : c.gesture = .idle) :
    c.ReportsLocally s (c.press s place) := by
  unfold press
  cases s.state.mode with
  | addText =>
    simp only [placeText]
    split
    · exact c.reportsLocally_same s isLocal_none (Or.inr rfl) rfl
    · exact c.reportsLocally_change s (s.answered_addText _ c.pendingText c.textStyle)
        (answers_mutation _) isLocal_mutation
  | addRect => exact c.reportsLocally_same s isLocal_overlay (Or.inl rfl) rfl
  | select =>
    simp only [pressSelect]
    split
    · have hnone : c.liveRect = none := liveRect_eq_none (by simp [hidle])
      exact c.reportsLocally_same s isLocal_none (Or.inr hnone.symm) rfl
    · split
      · split
        · exact c.reportsLocally_same s isLocal_none (Or.inr rfl) rfl
        · exact c.reportsLocally_change s (s.answered_select _) answers_overlay isLocal_overlay
      · exact c.reportsLocally_change s s.answered_deselect answers_overlay isLocal_overlay

theorem reports_startPinch : c.ReportsLocally s (c.startPinch s) := by
  unfold startPinch cancel
  dsimp only
  refine c.reportsLocally_given s (liveRect_eq_none ?_) rfl
  intro origin current
  dsimp only
  split
  · split <;> simp
  · simp

theorem reports_pointerDown (e : PointerEvent) : c.ReportsLocally s (c.pointerDown s e) := by
  apply ReportsLocally.of_track
  unfold pointerDown
  dsimp only
  generalize c.track e (fun touches finger ↦ touches.press finger e.place) = tracked
  split
  · exact tracked.reports_startPinch s
  · split
    · exact tracked.reportsLocally_given s rfl rfl
    · split
      · next hidle => exact tracked.reports_press s e.place hidle
      · exact tracked.reportsLocally_same s isLocal_none (Or.inr rfl) rfl

theorem reports_release (point : Point Scalar) : c.ReportsLocally s (c.release s point) := by
  have hstill (h : ∀ origin current, c.gesture ≠ .drawing origin current) (effects : Effects)
      (hlocal : effects.IsLocal) :
      c.ReportsLocally s ⟨{ c with gesture := .idle }, s, effects⟩ :=
    c.reportsLocally_same s hlocal (Or.inr (liveRect_eq_none h).symm) rfl
  unfold release
  cases hgesture : c.gesture with
  | idle => exact hstill (by simp [hgesture]) _ isLocal_none
  | drawing origin current =>
    -- the rectangle has gone, whether it has become a patch or not
    have hanswered := s.answered_addRect (Box.ofCorners origin point) c.rectColor
    dsimp only
    rcases hanswered.same_or_done with hsame | ⟨hdone, _⟩
    · have hstore : (s.addRect (Box.ofCorners origin point) c.rectColor).2 = s := hsame
      split
      · exact ⟨⟨Or.inl rfl, Or.inl rfl⟩, isLocal_mutation, rfl⟩
      · exact ⟨⟨Or.inl rfl, Or.inr (congrArg Store.content hstore)⟩, isLocal_overlay, rfl⟩
    · have hadded : (s.addRect (Box.ofCorners origin point) c.rectColor).1.isSome = true := hdone
      rw [if_pos hadded]
      exact ⟨⟨Or.inl rfl, Or.inl rfl⟩, isLocal_mutation, rfl⟩
  | dragging target last moved =>
    cases moved with
    | true => exact hstill (by simp [hgesture]) _ isLocal_mutation
    | false => exact hstill (by simp [hgesture]) _ isLocal_none
  | panning origin initialScroll => exact hstill (by simp [hgesture]) _ isLocal_none
  | pinching distance zoom => exact c.reportsLocally_same s isLocal_none (Or.inr rfl) rfl

theorem reports_pointerUp (e : PointerEvent) : c.ReportsLocally s (c.pointerUp s e) := by
  apply ReportsLocally.of_track
  unfold pointerUp
  dsimp only
  generalize c.track e Touches.lift = tracked
  split
  · split
    · exact tracked.reportsLocally_given s rfl rfl
    · exact tracked.reportsLocally_same s isLocal_none (Or.inr rfl) rfl
  · exact tracked.reports_release s _

/-! ## Keys -/

theorem reports_nudge (dx dy : Scalar) : c.ReportsLocally s (c.nudge s dx dy) :=
  c.reportsLocally_change s (s.answered_nudge dx dy) (answers_mutation _) isLocal_mutation

theorem reports_keyDown (key : Key) (shift : Bool) :
    c.ReportsLocally s (c.keyDown s key shift) := by
  cases key with
  | delete =>
    exact c.reportsLocally_cancelThen s s.answered_delete (answers_mutation _) isLocal_mutation
  | backspace =>
    exact c.reportsLocally_cancelThen s s.answered_delete (answers_mutation _) isLocal_mutation
  | escape =>
    exact c.reportsLocally_cancelThen s s.answered_deselect answers_overlay isLocal_overlay
  | undo =>
    exact c.reportsLocally_cancelThen s s.answered_undo (answers_mutation _) isLocal_mutation
  | left => exact c.reports_nudge s _ _
  | right => exact c.reports_nudge s _ _
  | up => exact c.reports_nudge s _ _
  | down => exact c.reports_nudge s _ _

end Controller

/-! ## The view -/

namespace Store

/-- Going to a page says whether it is another one. -/
theorem setPage_view (s : Store) (page : Nat) :
    (s.setPage page).1 = true ↔ (s.setPage page).2.view ≠ s.view := by
  unfold setPage
  dsimp only
  split
  · exact ⟨fun h ↦ (nomatch h), fun h ↦ absurd rfl h⟩
  · next hother =>
    exact ⟨fun _ heq ↦ hother (Prod.mk.inj heq).1, fun _ ↦ rfl⟩

/-- Zooming leads to another view and changes nothing else, or it is the same zoom and nothing
changes at all. -/
theorem setZoom_cases (s : Store) (zoom : Scalar) (h : IsZoom s.state.zoom) :
    ((s.setZoom zoom).1 != s.state.zoom) = false ∧ (s.setZoom zoom).2 = s ∨
      ((s.setZoom zoom).1 != s.state.zoom) = true ∧ (s.setZoom zoom).2.view ≠ s.view := by
  unfold setZoom
  dsimp only
  split
  · next hsame => exact Or.inl ⟨by simp [bne, hsame], rfl⟩
  · next hother =>
    refine Or.inr ⟨by simpa [bne] using hother, fun heq ↦ ?_⟩
    have hzoom : clampZoom zoom = s.state.zoom := (Prod.mk.inj heq).2
    rw [hzoom] at hother
    exact hother (Scalar.beq_self (Scalar.isNaN_of_isFinite _ h.finite))

/-- Zooming leaves the annotations and the page alone. -/
theorem setZoom_keeps (s : Store) (zoom : Scalar) :
    (s.setZoom zoom).2.annotations = s.annotations ∧
      (s.setZoom zoom).2.state.currentPage = s.state.currentPage := by
  unfold setZoom
  dsimp only
  split <;> exact ⟨rfl, rfl⟩

end Store

namespace Controller

open Effects (isLocal_overlay)

/-! ## Moves of a pointer -/

/-- The store as a drag finds it: the first move records the annotations. -/
theorem beginDrag_keeps (s : Store) :
    s.beginDrag.2.annotations = s.annotations ∧ s.beginDrag.2.state = s.state := by
  unfold Store.beginDrag
  split <;> exact ⟨rfl, rfl⟩

theorem moveDrag_overlay (c : Controller) (s : Store) (target : AnnotationRef)
    (last : Point Scalar) (moved : Bool) (point : Point Scalar) :
    (c.moveDrag s target last moved point).effects.redrawOverlay = true ∨
      ((c.moveDrag s target last moved point).store.annotations = s.annotations ∧
        (c.moveDrag s target last moved point).store.state = s.state) := by
  have hdrag (s : Store) : (when (s.drag (point.x - last.x) (point.y - last.y)).1
      Effects.overlay).redrawOverlay = true ∨ _ :=
    overlay_or_same (s.answered_drag (point.x - last.x) (point.y - last.y)) rfl
  unfold moveDrag
  dsimp only
  split
  · exact Or.inr ⟨rfl, rfl⟩
  · cases moved with
    | true => exact hdrag s
    | false =>
      refine (hdrag s.beginDrag.2).imp id fun hsame ↦ ?_
      exact ⟨hsame.1.trans (beginDrag_keeps s).1, hsame.2.trans (beginDrag_keeps s).2⟩

/-- A pointer that moves has the overlay drawn again, unless it shows the same. -/
theorem pointerMove_overlay (c : Controller) (s : Store) (e : PointerEvent)
    (hzoom : IsZoom s.state.zoom) :
    (c.pointerMove s e).effects.redrawOverlay = true ∨
      ((c.pointerMove s e).controller.liveRect = c.liveRect ∧
        (c.pointerMove s e).store.annotations = s.annotations ∧
        (c.pointerMove s e).store.state = s.state) := by
  rw [← liveRect_congr (c.track_gesture e fun touches finger ↦ touches.move finger e.place)]
  unfold pointerMove
  dsimp only
  generalize c.track e (fun touches finger ↦ touches.move finger e.place) = tracked
  cases hgesture : tracked.gesture with
  | idle =>
    dsimp only
    split
    · exact (overlay_or_same (s.answered_setHovered _) rfl).imp id fun hsame ↦ ⟨rfl, hsame⟩
    · exact Or.inr ⟨rfl, rfl, rfl⟩
  | drawing origin current => exact Or.inl rfl
  | dragging target last moved =>
    refine (tracked.moveDrag_overlay s target last moved _).imp id fun hsame ↦ ⟨?_, hsame⟩
    rw [liveRect_eq_none (by simp [moveDrag_gesture]), liveRect_eq_none (by simp [hgesture])]
  | panning origin initialScroll =>
    simp only [movePan]
    split
    · exact Or.inr ⟨rfl, rfl, rfl⟩
    · exact Or.inr ⟨rfl, rfl, rfl⟩
  | pinching initialDistance initialZoom =>
    simp only [movePinch]
    cases tracked.touches.distance? with
    | none => exact Or.inr ⟨rfl, rfl, rfl⟩
    | some distance =>
      dsimp only
      rcases s.setZoom_cases (initialZoom * distance / initialDistance) hzoom with
        ⟨_, hsame⟩ | ⟨hother, _⟩
      · rw [hsame]
        exact Or.inr ⟨rfl, rfl, rfl⟩
      · rw [hother]
        exact Or.inl rfl

/-- A pointer that moves asks for another page image if and only if it changes the view. -/
theorem pointerMove_base (c : Controller) (s : Store) (e : PointerEvent)
    (hzoom : IsZoom s.state.zoom) :
    (c.pointerMove s e).effects.rerenderBase = true ↔ (c.pointerMove s e).store.view ≠ s.view := by
  refine ⟨?_, fun hother ↦ (c.pointerMove_view s e).resolve_right hother⟩
  unfold pointerMove
  dsimp only
  generalize c.track e (fun touches finger ↦ touches.move finger e.place) = tracked
  cases tracked.gesture with
  | idle =>
    dsimp only
    split
    · rw [(isLocal_when isLocal_overlay _).base]
      rintro ⟨⟩
    · rintro ⟨⟩
  | drawing origin current => rintro ⟨⟩
  | dragging target last moved =>
    simp only [moveDrag]
    split
    · rintro ⟨⟩
    · rw [(isLocal_when isLocal_overlay _).base]
      rintro ⟨⟩
  | panning origin initialScroll =>
    simp only [movePan]
    split <;> rintro ⟨⟩
  | pinching initialDistance initialZoom =>
    simp only [movePinch]
    cases tracked.touches.distance? with
    | none => rintro ⟨⟩
    | some distance =>
      dsimp only
      rcases s.setZoom_cases (initialZoom * distance / initialDistance) hzoom with
        ⟨hsame, _⟩ | ⟨_, hother⟩
      · rw [hsame]
        rintro ⟨⟩
      · exact fun _ ↦ hother

/-- The scroll position is announced if and only if it is another one. -/
def Announces (c : Controller) (handled : Handled) : Prop :=
  ∀ place, handled.effects.scrollTo = some place ↔
    handled.controller.scroll ≠ c.scroll ∧ place = handled.controller.scroll

theorem announces_of_same {c : Controller} {handled : Handled}
    (hnone : handled.effects.scrollTo = none) (hscroll : handled.controller.scroll = c.scroll) :
    c.Announces handled := by
  intro place
  rw [hnone, hscroll]
  simp

theorem announces_movePan {c : Controller} (s : Store) (hx : c.scroll.x.isNaN = false)
    (hy : c.scroll.y.isNaN = false) (origin initialScroll place : Point Scalar) :
    c.Announces (c.movePan s origin initialScroll place) := by
  unfold movePan
  dsimp only
  split
  · exact announces_of_same rfl rfl
  · next hother =>
    intro announced
    refine ⟨fun h ↦ ⟨fun heq ↦ hother ?_, (Option.some.inj h).symm⟩, fun h ↦ by rw [h.2]⟩
    -- A position that is made of numbers is equal to itself.
    dsimp only at heq
    rw [← heq] at hx hy
    rw [← heq, Scalar.beq_self hx, Scalar.beq_self hy]
    rfl

theorem announces_pointerMove {c : Controller} (s : Store) (e : PointerEvent)
    (hx : c.scroll.x.isNaN = false) (hy : c.scroll.y.isNaN = false) :
    c.Announces (c.pointerMove s e) := by
  have hscroll := c.track_scroll e fun touches finger ↦ touches.move finger e.place
  unfold pointerMove Announces
  dsimp only
  generalize c.track e (fun touches finger ↦ touches.move finger e.place) = tracked at hscroll ⊢
  rw [← hscroll] at hx hy ⊢
  change tracked.Announces _
  cases tracked.gesture with
  | idle =>
    dsimp only
    split
    · exact announces_of_same (isLocal_when isLocal_overlay _).scroll rfl
    · exact announces_of_same rfl rfl
  | drawing origin current => exact announces_of_same rfl rfl
  | dragging target last moved =>
    simp only [moveDrag]
    split
    · exact announces_of_same rfl rfl
    · exact announces_of_same (isLocal_when isLocal_overlay _).scroll rfl
  | panning origin initialScroll => exact announces_movePan s hx hy origin initialScroll e.place
  | pinching initialDistance initialZoom =>
    simp only [movePinch]
    split
    · exact announces_of_same rfl rfl
    · exact announces_of_same (scrollTo_when rfl _) rfl

/-- A pointer that moves stays on the page, moves annotations by a drag only, and zooms by two
fingers only. -/
theorem pointerMove_keeps (c : Controller) (s : Store) (e : PointerEvent) :
    (c.pointerMove s e).store.state.currentPage = s.state.currentPage ∧
      (c.dragTarget? = none → (c.pointerMove s e).store.annotations = s.annotations) ∧
      (c.isPinching = false → (c.pointerMove s e).store.state.zoom = s.state.zoom) := by
  have hgesture := c.track_gesture e fun touches finger ↦ touches.move finger e.place
  rw [pointerMove_store]
  unfold dragTarget? isPinching
  rw [← hgesture]
  unfold pointerMoveRequests
  dsimp only
  generalize c.track e (fun touches finger ↦ touches.move finger e.place) = tracked
  cases tracked.gesture with
  | idle =>
    dsimp only
    split
    · have hcontent := (s.answered_setHovered (s.hit? e.place)).content_eq
      obtain ⟨hannotations, hrest⟩ := Prod.mk.inj hcontent
      obtain ⟨hpage, hzoom⟩ := Prod.mk.inj hrest
      exact ⟨hpage, fun _ ↦ hannotations, fun _ ↦ hzoom⟩
    · exact ⟨rfl, fun _ ↦ rfl, fun _ ↦ rfl⟩
  | drawing origin current => exact ⟨rfl, fun _ ↦ rfl, fun _ ↦ rfl⟩
  | dragging target last moved =>
    have hview := s.view_run _
      (keepsView_of_dragRequests last moved (e.place.toDocument s.state.zoom))
    obtain ⟨hpage, hzoom⟩ := Prod.mk.inj hview
    exact ⟨hpage, fun h ↦ (nomatch h), fun _ ↦ hzoom⟩
  | panning origin initialScroll => exact ⟨rfl, fun _ ↦ rfl, fun _ ↦ rfl⟩
  | pinching initialDistance initialZoom =>
    dsimp only
    split
    · obtain ⟨hannotations, hpage⟩ := s.setZoom_keeps _
      exact ⟨hpage, fun _ ↦ hannotations, fun h ↦ (nomatch h)⟩
    · exact ⟨rfl, fun _ ↦ rfl, fun h ↦ (nomatch h)⟩

end Controller

namespace Workbench

open Controller (Announces)
open Effects (isLocal_overlay isLocal_mutation)

/-! ## Inputs -/

/-- The inputs that neither move a pointer nor set the page or the zoom report all that they do by
local effects. -/
theorem reportsLocally_or (c : Controller) (s : Store) (input : Input) :
    (∃ e, input = .pointerMove e) ∨ (∃ page, input = .setPage page) ∨
      (∃ zoom, input = .setZoom zoom) ∨ c.ReportsLocally s (react c s input) := by
  have hlocal (h : c.ReportsLocally s (react c s input)) :
      (∃ e, input = .pointerMove e) ∨ (∃ page, input = .setPage page) ∨
        (∃ zoom, input = .setZoom zoom) ∨ c.ReportsLocally s (react c s input) :=
    Or.inr (Or.inr (Or.inr h))
  have hmutation {change : Bool × Store} (h : Store.Answered .rewrite s change) :
      c.ReportsLocally s ⟨c, change.2, Controller.when change.1 .mutation⟩ :=
    c.reportsLocally_change s h (Controller.answers_mutation _) isLocal_mutation
  cases input with
  | pointerDown e => exact hlocal (c.reports_pointerDown s e)
  | pointerMove e => exact Or.inl ⟨e, rfl⟩
  | pointerUp e => exact hlocal (c.reports_pointerUp s e)
  | keyDown key shift => exact hlocal (c.reports_keyDown s key shift)
  | setMode mode =>
    exact hlocal (c.reportsLocally_cancelThen s (s.answered_setMode mode)
      Controller.answers_overlay isLocal_overlay)
  | setPage page => exact Or.inr (Or.inl ⟨page, rfl⟩)
  | setZoom zoom => exact Or.inr (Or.inr (Or.inl ⟨zoom, rfl⟩))
  | updateText text => exact hlocal (hmutation (s.answered_updateText text))
  | updateFontSize fontSize => exact hlocal (hmutation (s.answered_updateFontSize fontSize))
  | updateFamily family => exact hlocal (hmutation (s.answered_updateFamily family))
  | updateColor color => exact hlocal (hmutation (s.answered_updateColor color))

theorem reports_setPage (c : Controller) (s : Store) (page : Nat) :
    c.Reports s (react c s (.setPage page)) :=
  c.reports_cancelThen s (s.answered_setPage page) (Controller.answers_viewChange _)

theorem reports_setZoom (c : Controller) (s : Store) (zoom : Scalar)
    (hzoom : IsZoom s.state.zoom) : c.Reports s (react c s (.setZoom zoom)) := by
  simp only [react]
  rcases s.setZoom_cases zoom hzoom with ⟨_, hsame⟩ | ⟨hother, _⟩
  · rw [hsame]
    exact ⟨Or.inr ⟨rfl, rfl, rfl⟩, Or.inr rfl⟩
  · rw [hother]
    exact ⟨Or.inl rfl, Or.inl rfl⟩

/-- What the overlay shows changes only if it is drawn again. -/
theorem react_overlay (c : Controller) (s : Store) (hzoom : IsZoom s.state.zoom) (input : Input) :
    (react c s input).effects.redrawOverlay = true ∨
      ((react c s input).controller.liveRect = c.liveRect ∧
        (react c s input).store.annotations = s.annotations ∧
        (react c s input).store.state = s.state) := by
  rcases reportsLocally_or c s input with ⟨e, rfl⟩ | ⟨page, rfl⟩ | ⟨zoom, rfl⟩ | hlocal
  · exact c.pointerMove_overlay s e hzoom
  · exact (reports_setPage c s page).overlay
  · exact (reports_setZoom c s zoom hzoom).overlay
  · exact hlocal.overlay

/-- Another page image is asked for exactly when the view has changed. -/
theorem react_base (c : Controller) (s : Store) (hzoom : IsZoom s.state.zoom) (input : Input) :
    (react c s input).effects.rerenderBase = true ↔ (react c s input).store.view ≠ s.view := by
  refine ⟨?_, fun hother ↦ (react_view c s input).resolve_right hother⟩
  rcases reportsLocally_or c s input with ⟨e, rfl⟩ | ⟨page, rfl⟩ | ⟨zoom, rfl⟩ | hlocal
  · exact (c.pointerMove_base s e hzoom).mp
  · intro hbase
    refine (s.setPage_view page).mp ?_
    simp only [react, Controller.cancelThen, Controller.cancel, Effects.merge,
      (Controller.isLocal_cancelEffects c.gesture).base, Bool.false_or] at hbase
    cases hchanged : (s.setPage page).1 with
    | true => rfl
    | false =>
      rw [hchanged] at hbase
      cases hbase
  · simp only [react]
    rcases s.setZoom_cases zoom hzoom with ⟨hsame, _⟩ | ⟨_, hother⟩
    · rw [hsame]
      rintro ⟨⟩
    · exact fun _ ↦ hother
  · rw [hlocal.isLocal.base]
    rintro ⟨⟩

/-- The scroll position is announced exactly when it has changed. -/
theorem react_announces {c : Controller} {mode : EditMode} (h : c.Fits mode) (s : Store)
    (input : Input) : c.Announces (react c s input) := by
  rcases reportsLocally_or c s input with ⟨e, rfl⟩ | ⟨page, rfl⟩ | ⟨zoom, rfl⟩ | hlocal
  · exact Controller.announces_pointerMove s e h.left.isNaN h.top.isNaN
  · refine Controller.announces_of_same ?_ rfl
    have hchange : (Controller.when (s.setPage page).1 .viewChange).scrollTo = none :=
      Controller.scrollTo_when rfl _
    simp only [react, Controller.cancelThen, Controller.cancel, Effects.merge, hchange,
      (Controller.isLocal_cancelEffects c.gesture).scroll]
    rfl
  · exact Controller.announces_of_same (Controller.scrollTo_when rfl _) rfl
  · exact Controller.announces_of_same hlocal.isLocal.scroll hlocal.scroll

/-- Whatever does not move a pointer saves what it changes. -/
theorem react_persist (c : Controller) (s : Store) (hzoom : IsZoom s.state.zoom) (input : Input)
    (hmove : input.isPointerMove = false) :
    (react c s input).effects.persist = true ∨ (react c s input).store.content = s.content := by
  rcases reportsLocally_or c s input with ⟨e, rfl⟩ | ⟨page, rfl⟩ | ⟨zoom, rfl⟩ | hlocal
  · cases hmove
  · exact (reports_setPage c s page).persist
  · exact (reports_setZoom c s zoom hzoom).persist
  · exact hlocal.persist

/-- Whatever an input does to a workbench of any run is reported by its effects. If the overlay
shows anything else, it is to be drawn again. Another page image is to be asked for if and only if
the page or the zoom has changed. A scroll position is announced if and only if it is another one,
and it is the one announced. And the session is saved if the page has changed, or the annotations
by anything but a move of a drag, or the zoom by anything but a move of two fingers. -/
theorem effects_report {w : Workbench} (h : w.Reachable) (now : Instant) (input : Input) :
    let effects := (w.handle now input).1
    let next := (w.handle now input).2
    (next.store.annotations ≠ w.store.annotations ∨ next.store.state ≠ w.store.state ∨
        next.controller.liveRect ≠ w.controller.liveRect → effects.redrawOverlay = true) ∧
      (effects.rerenderBase = true ↔
        next.store.state.currentPage ≠ w.store.state.currentPage ∨
          next.store.state.zoom ≠ w.store.state.zoom) ∧
      (∀ place, effects.scrollTo = some place ↔
        next.controller.scroll ≠ w.controller.scroll ∧ place = next.controller.scroll) ∧
      (next.store.state.currentPage ≠ w.store.state.currentPage ∨
          next.store.annotations ≠ w.store.annotations ∧
            ¬(input.isPointerMove = true ∧ w.controller.dragTarget?.isSome = true) ∨
          next.store.state.zoom ≠ w.store.state.zoom ∧
            ¬(input.isPointerMove = true ∧ w.controller.isPinching = true) →
        effects.persist = true) := by
  intro effects next
  have hzoom : IsZoom w.store.state.zoom := h.coherent.store.view.zoom
  have hstore : next.store = (react w.controller w.store input).store := w.handle_store now input
  have hcontroller : next.controller = (react w.controller w.store input).controller :=
    w.handle_controller now input
  rw [hstore, hcontroller]
  refine ⟨fun hchanged ↦ ?_, ?_, react_announces h.attuned.fits w.store input, fun hchanged ↦ ?_⟩
  · refine (react_overlay w.controller w.store hzoom input).resolve_right ?_
    rintro ⟨hlive, hannotations, hstate⟩
    rcases hchanged with hne | hne | hne
    · exact hne hannotations
    · exact hne hstate
    · exact hne hlive
  · rw [← not_and_or, ← Prod.mk.injEq]
    exact react_base w.controller w.store hzoom input
  · cases hmove : input.isPointerMove with
    | false =>
      refine (react_persist w.controller w.store hzoom input hmove).resolve_right fun hsame ↦ ?_
      obtain ⟨hannotations, hrest⟩ := Prod.mk.inj hsame
      obtain ⟨hpage, hsameZoom⟩ := Prod.mk.inj hrest
      rcases hchanged with hne | ⟨hne, _⟩ | ⟨hne, _⟩
      · exact hne hpage
      · exact hne hannotations
      · exact hne hsameZoom
    | true =>
      -- A pointer that moves changes nothing but what the gesture under way changes.
      obtain ⟨e, rfl⟩ := input.exists_of_isPointerMove hmove
      obtain ⟨hpage, hannotations, hsameZoom⟩ := w.controller.pointerMove_keeps w.store e
      rcases hchanged with hne | ⟨hne, hdrag⟩ | ⟨hne, hpinch⟩
      · exact absurd hpage hne
      · refine absurd (hannotations ?_) hne
        simpa [hmove] using hdrag
      · refine absurd (hsameZoom ?_) hne
        simpa [hmove] using hpinch

/-- The patch is drawn and pressed again. A move drags it, and the overlay is drawn again; zooming
asks for another page image, and the session is saved. -/
theorem effects_report_drawing :
    let inputs := drawing ++ [(⟨1, 0⟩, .pointerDown (pointerAt 20 20))]
    let w := onePage.run (inputs.map fun (now, input) ↦ (now, .input input))
    let dragged := w.handle ⟨2, 0⟩ (.pointerMove (pointerAt 25 20))
    let zoomed := w.handle ⟨2, 0⟩ (.setZoom 2)
    (dragged.2.store.annotations ≠ w.store.annotations ∧ dragged.1.redrawOverlay = true) ∧
      zoomed.2.store.state.zoom ≠ w.store.state.zoom ∧ zoomed.1.rerenderBase = true ∧
        zoomed.1.persist = true := by
  intro inputs w dragged zoomed
  have hw : w.Reachable := onePage_reachable.run _
  have hdragged : dragged.2.store.annotations ≠ w.store.annotations := by decide +kernel
  have hzoomed : zoomed.2.store.state.zoom ≠ w.store.state.zoom := by decide +kernel
  clear_value w
  obtain ⟨hoverlay, -⟩ := effects_report hw ⟨2, 0⟩ (.pointerMove (pointerAt 25 20))
  obtain ⟨-, hbase, -, hpersist⟩ := effects_report hw ⟨2, 0⟩ (.setZoom 2)
  exact ⟨⟨hdragged, hoverlay (Or.inl hdragged)⟩, hzoomed, hbase.mpr (Or.inr hzoomed),
    hpersist (Or.inr (Or.inr ⟨hzoomed, fun h ↦ nomatch h.1⟩))⟩

end Workbench

end Marginalia
