import Marginalia.Proofs.Workbench.Coherence
import Marginalia.Session.Event

/-!
# Autosave

Whenever no drag has moved something and no fingers zoom, the session that was queued last shows the
open document as it is. Each input either has the session saved, or goes on with such a gesture, or
leaves alone everything that a session holds and has no such gesture to end.
-/

namespace Marginalia

/-! ## What a session holds -/

/-- What a session holds of a store. -/
def Store.content (s : Store) : AnnotationSet × Nat × Scalar :=
  (s.annotations, s.state.currentPage, s.state.zoom)

/-- A session shows a document as a store has it. -/
structure Session.Shows (session : Session) (id : DocumentId) (s : Store) : Prop where
  documentId : session.documentId = id
  annotations : session.annotations = s.annotations
  currentPage : session.currentPage = s.state.currentPage
  zoom : session.zoom = s.state.zoom

theorem Session.Shows.of_content {session : Session} {id : DocumentId} {s s' : Store}
    (h : session.Shows id s) (hcontent : s'.content = s.content) : session.Shows id s' := by
  unfold Store.content at hcontent
  simp only [Prod.mk.injEq] at hcontent
  obtain ⟨hannotations, hpage, hzoom⟩ := hcontent
  refine ⟨h.documentId, ?_, ?_, ?_⟩
  · rw [hannotations]
    exact h.annotations
  · rw [hpage]
    exact h.currentPage
  · rw [hzoom]
    exact h.zoom

namespace Store

/-- Marking something leaves alone what a session holds. -/
theorem Edit.content_eq {s s' : Store} (h : Edit s .mark s') : s'.content = s.content := by
  cases h with
  | same => rfl
  | select r _ => rfl
  | deselect => rfl
  | hover r => rfl
  | mode mode => rfl

theorem Answered.content_eq {s : Store} {change : Bool × Store} (h : Answered .mark s change) :
    change.2.content = s.content := by
  rcases h.same_or_done with hsame | ⟨_, hedit⟩
  · rw [hsame]
  · exact hedit.content_eq

end Store

namespace Controller

/-- Whether a gesture is under way that saves at its end. -/
def defers (c : Controller) : Bool := c.hasDragged || c.isPinching

/-- Nothing defers saving but a drag that has moved something and a zoom by two fingers. -/
theorem defers_eq_false (c : Controller)
    (hdrag : ∀ target last, c.gesture ≠ .dragging target last true)
    (hpinch : ∀ distance zoom, c.gesture ≠ .pinching distance zoom) : c.defers = false := by
  unfold defers hasDragged isPinching
  cases hgesture : c.gesture with
  | idle => rfl
  | drawing origin current => rfl
  | dragging target last moved =>
    cases moved with
    | true => exact absurd hgesture (hdrag target last)
    | false => rfl
  | panning origin initialScroll => rfl
  | pinching distance zoom => exact absurd hgesture (hpinch distance zoom)

/-- Whether saving is deferred depends on the gesture alone. -/
theorem defers_congr (c other : Controller) (h : c.gesture = other.gesture) :
    c.defers = other.defers := by
  unfold defers hasDragged isPinching
  rw [h]

/-- An input saves, or a gesture that defers goes on, or there is nothing to save. -/
def Saves (c : Controller) (s : Store) (handled : Handled) : Prop :=
  handled.effects.persist = true ∨ handled.controller.defers = true ∨
    (c.defers = false ∧ handled.store.content = s.content)

/-- Where the gesture stays what it was, only a change of the content has to be saved. -/
theorem saves_of_same (c : Controller) (s : Store) (handled : Handled)
    (hgesture : handled.controller.gesture = c.gesture)
    (h : handled.effects.persist = true ∨ handled.store.content = s.content) :
    c.Saves s handled := by
  rcases h with hpersist | hcontent
  · exact Or.inl hpersist
  · right
    have hdefers := handled.controller.defers_congr c hgesture
    cases hbefore : c.defers with
    | true => exact Or.inl (hdefers.trans hbefore)
    | false => exact Or.inr ⟨rfl, hcontent⟩

/-- Giving up a gesture that defers saves. -/
theorem cancelEffects_persist (c : Controller) (h : c.defers = true) :
    (cancelEffects c.gesture).persist = true := by
  unfold defers hasDragged isPinching at h
  unfold cancelEffects
  cases hgesture : c.gesture with
  | idle => simp [hgesture] at h
  | drawing origin current => simp [hgesture] at h
  | dragging target last moved =>
    rw [hgesture] at h
    cases moved with
    | true => rfl
    | false => cases h
  | panning origin initialScroll => simp [hgesture] at h
  | pinching initialDistance initialZoom => rfl

/-- Where the gesture is given up, only a change of the content has to be saved. -/
theorem saves_of_cancel (c : Controller) (s : Store) (handled : Handled) (persist : Bool)
    (heffects : handled.effects.persist = ((cancelEffects c.gesture).persist || persist))
    (h : persist = true ∨ handled.store.content = s.content) : c.Saves s handled := by
  cases hbefore : c.defers with
  | true =>
    left
    rw [heffects, c.cancelEffects_persist hbefore, Bool.true_or]
  | false =>
    rcases h with hpersist | hcontent
    · left
      rw [heffects, hpersist, Bool.or_true]
    · exact Or.inr (Or.inr ⟨hbefore, hcontent⟩)

/-- A change is saved unless it is refused, if its effects say so. -/
theorem persist_or_same {kind : Store.EditKind} {s : Store} {change : Bool × Store}
    (h : Store.Answered kind s change) (effects : Effects) (hpersist : effects.persist = true) :
    (when change.1 effects).persist = true ∨ change.2.content = s.content := by
  rcases h.same_or_done with hsame | ⟨hdone, _⟩
  · right
    rw [hsame]
  · left
    rw [hdone]
    exact hpersist

theorem track_defers (c : Controller) (e : PointerEvent) (change : Touches → Nat → Touches) :
    (c.track e change).defers = c.defers :=
  defers_congr _ c (c.track_gesture e change)

/-! ## Pointers -/

theorem saves_placeText (c : Controller) (s : Store) (point : Point Scalar) :
    c.Saves s (c.placeText s point) := by
  unfold placeText
  split
  · exact c.saves_of_same s _ rfl (Or.inr rfl)
  · exact c.saves_of_same s _ rfl
      (persist_or_same (s.answered_addText point c.pendingText c.textStyle) .mutation rfl)

theorem saves_press (c : Controller) (s : Store) (place : Point Scalar)
    (hidle : c.gesture = .idle) : c.Saves s (c.press s place) := by
  have hrest : c.defers = false := c.defers_eq_false (by simp [hidle]) (by simp [hidle])
  unfold press
  cases s.state.mode with
  | addText => exact c.saves_placeText s _
  | addRect => exact Or.inr (Or.inr ⟨hrest, rfl⟩)
  | select =>
    simp only [pressSelect]
    split
    · exact Or.inr (Or.inr ⟨hrest, rfl⟩)
    · split
      · split
        · exact Or.inr (Or.inr ⟨hrest, rfl⟩)
        · exact Or.inr (Or.inr ⟨hrest, (s.answered_select _).content_eq⟩)
      · exact Or.inr (Or.inr ⟨hrest, s.answered_deselect.content_eq⟩)

/-- Noting what a finger does makes no difference to what is saved. -/
theorem Saves.of_track {c : Controller} {s : Store} {handled : Handled} {e : PointerEvent}
    {change : Touches → Nat → Touches} (h : (c.track e change).Saves s handled) :
    c.Saves s handled := by
  unfold Saves at h ⊢
  rw [track_defers] at h
  exact h

theorem saves_pointerDown (c : Controller) (s : Store) (e : PointerEvent) :
    c.Saves s (c.pointerDown s e) := by
  apply Saves.of_track
  unfold pointerDown
  dsimp only
  generalize c.track e (fun touches finger ↦ touches.press finger e.place) = tracked
  split
  · exact tracked.saves_of_cancel s _ false (Bool.or_false _).symm (Or.inr rfl)
  · split
    · exact tracked.saves_of_cancel s _ false (Bool.or_false _).symm (Or.inr rfl)
    · split
      · next hidle => exact tracked.saves_press s e.place hidle
      · exact tracked.saves_of_same s _ rfl (Or.inr rfl)

theorem saves_moveDrag (c : Controller) (s : Store) (target : AnnotationRef) (last : Point Scalar)
    (moved : Bool) (point : Point Scalar) (hgesture : c.gesture = .dragging target last moved) :
    c.Saves s (c.moveDrag s target last moved point) := by
  have hdefers : c.defers = moved := by
    unfold defers hasDragged isPinching
    rw [hgesture]
    exact Bool.or_false moved
  unfold moveDrag
  dsimp only
  cases moved with
  | true =>
    right
    left
    split
    · rfl
    · rfl
  | false =>
    split
    · exact Or.inr (Or.inr ⟨hdefers, rfl⟩)
    · cases hbegin : s.beginDrag.1 with
      | true =>
        right
        left
        simp [defers, hasDragged, hbegin]
      | false =>
        -- where the drag cannot begin, nothing moves
        right
        right
        obtain ⟨hsame, hrefused⟩ :=
          s.drag_of_beginDrag_refused (point.x - last.x) (point.y - last.y) hbegin
        refine ⟨hdefers, ?_⟩
        simp only [Bool.false_eq_true, if_false, hsame, hrefused]

theorem saves_pointerMove (c : Controller) (s : Store) (e : PointerEvent) :
    c.Saves s (c.pointerMove s e) := by
  apply Saves.of_track
  unfold pointerMove
  dsimp only
  generalize c.track e (fun touches finger ↦ touches.move finger e.place) = tracked
  cases hgesture : tracked.gesture with
  | idle =>
    dsimp only
    split
    · exact tracked.saves_of_same s _ rfl (Or.inr (s.answered_setHovered _).content_eq)
    · exact tracked.saves_of_same s _ rfl (Or.inr rfl)
  | drawing origin current =>
    exact Or.inr (Or.inr ⟨tracked.defers_eq_false (by simp [hgesture]) (by simp [hgesture]), rfl⟩)
  | dragging target last moved => exact tracked.saves_moveDrag s target last moved _ hgesture
  | panning origin initialScroll =>
    simp only [movePan]
    split
    · exact tracked.saves_of_same s _ rfl (Or.inr rfl)
    · exact tracked.saves_of_same s _ rfl (Or.inr rfl)
  | pinching initialDistance initialZoom =>
    -- zooming goes on, whatever it does to the zoom
    have hdefers : tracked.defers = true := by
      unfold defers hasDragged isPinching
      rw [hgesture]
      rfl
    right
    left
    simp only [movePinch]
    split
    · exact hdefers
    · exact hdefers

theorem saves_release (c : Controller) (s : Store) (point : Point Scalar) :
    c.Saves s (c.release s point) := by
  unfold release
  cases hgesture : c.gesture with
  | idle => exact c.saves_of_same s _ hgesture.symm (Or.inr rfl)
  | drawing origin current =>
    have hrest : c.defers = false := c.defers_eq_false (by simp [hgesture]) (by simp [hgesture])
    rcases (s.answered_addRect (Box.ofCorners origin point) c.rectColor).same_or_done with
      hsame | ⟨hdone, _⟩
    · exact Or.inr (Or.inr ⟨hrest, congrArg Store.content hsame⟩)
    · left
      change (s.addRect _ _).1.isSome = true at hdone
      simp only [hdone, if_true]
      rfl
  | dragging target last moved =>
    cases moved with
    | true => exact Or.inl rfl
    | false =>
      exact Or.inr (Or.inr ⟨c.defers_eq_false (by simp [hgesture]) (by simp [hgesture]), rfl⟩)
  | panning origin initialScroll =>
    exact Or.inr (Or.inr ⟨c.defers_eq_false (by simp [hgesture]) (by simp [hgesture]), rfl⟩)
  | pinching initialDistance initialZoom => exact c.saves_of_same s _ rfl (Or.inr rfl)

theorem saves_pointerUp (c : Controller) (s : Store) (e : PointerEvent) :
    c.Saves s (c.pointerUp s e) := by
  apply Saves.of_track
  unfold pointerUp
  dsimp only
  generalize c.track e Touches.lift = tracked
  split
  · split
    · exact tracked.saves_of_cancel s _ false (Bool.or_false _).symm (Or.inr rfl)
    · exact tracked.saves_of_same s _ rfl (Or.inr rfl)
  · exact tracked.saves_release s _

/-! ## Keys -/

theorem saves_cancelThen (c : Controller) (s : Store) (change : Bool × Store) (effects : Effects)
    (h : (when change.1 effects).persist = true ∨ change.2.content = s.content) :
    c.Saves s (c.cancelThen change effects) :=
  c.saves_of_cancel s _ _ rfl h

theorem saves_nudge (c : Controller) (s : Store) (dx dy : Scalar) :
    c.Saves s (c.nudge s dx dy) :=
  c.saves_of_same s _ rfl (persist_or_same (s.answered_nudge dx dy) .mutation rfl)

theorem saves_keyDown (c : Controller) (s : Store) (key : Key) (shift : Bool) :
    c.Saves s (c.keyDown s key shift) := by
  cases key with
  | delete =>
    exact c.saves_cancelThen s _ _ (persist_or_same s.answered_delete .mutation rfl)
  | backspace =>
    exact c.saves_cancelThen s _ _ (persist_or_same s.answered_delete .mutation rfl)
  | escape => exact c.saves_cancelThen s _ _ (Or.inr s.answered_deselect.content_eq)
  | left => exact c.saves_nudge s _ _
  | right => exact c.saves_nudge s _ _
  | up => exact c.saves_nudge s _ _
  | down => exact c.saves_nudge s _ _
  | undo => exact c.saves_cancelThen s _ _ (persist_or_same s.answered_undo .mutation rfl)

end Controller

/-! ## The queue -/

namespace SessionWriter

/-- The newest session among some commands. -/
def newestOf (commands : List WriteCommand) : Option Session :=
  (commands.filterMap WriteCommand.session?).getLast?

/-- The newest session that waits to be written. -/
def newest? (w : SessionWriter) : Option Session := newestOf w.queue

theorem newest?_save (w : SessionWriter) (session : Session) :
    (w.save session).newest? = some session := by
  unfold newest? newestOf save
  rw [List.filterMap_append]
  exact List.getLast?_concat

/-- Taking a command from the queue uncovers no other newest session. -/
theorem newestOf_of_cons (command : WriteCommand) (rest : List WriteCommand) (session : Session)
    (h : newestOf rest = some session) : newestOf (command :: rest) = some session := by
  unfold newestOf at h ⊢
  cases command with
  | flush ticket => exact h
  | save other =>
    change (other :: rest.filterMap WriteCommand.session?).getLast? = some session
    rw [List.getLast?_cons, h]
    rfl

theorem newest?_of_step (w next : SessionWriter) (hstep : w.step = some next) (session : Session)
    (h : next.newest? = some session) : w.newest? = some session := by
  unfold step at hstep
  unfold newest? at h ⊢
  split at hstep
  · cases hstep
  · next command rest hphase hqueue =>
    obtain rfl := Option.some.inj hstep
    rw [hqueue]
    exact newestOf_of_cons command rest session h
  · next batch command rest hphase hqueue =>
    obtain rfl := Option.some.inj hstep
    rw [hqueue]
    exact newestOf_of_cons command rest session h
  · next batch hphase hqueue =>
    obtain rfl := Option.some.inj hstep
    exact h
  · next batch queue hphase =>
    obtain rfl := Option.some.inj hstep
    exact h

theorem newest?_of_steps (count : Nat) (w : SessionWriter) (session : Session)
    (h : (steps count w).newest? = some session) : w.newest? = some session := by
  induction count generalizing w with
  | zero => exact h
  | succ count ih =>
    unfold steps at h
    cases hstep : w.step with
    | none =>
      rw [hstep] at h
      exact h
    | some next =>
      rw [hstep] at h
      exact newest?_of_step w next hstep session (ih next h)

theorem newest?_of_flush (w : SessionWriter) (session : Session)
    (h : w.flush.newest? = some session) : w.newest? = some session := by
  have hrequested := newest?_of_steps _ _ session h
  unfold newest? newestOf requestFlush at hrequested
  rw [List.filterMap_append] at hrequested
  change (w.queue.filterMap WriteCommand.session? ++ []).getLast? = some session at hrequested
  rw [List.append_nil] at hrequested
  exact hrequested

end SessionWriter

namespace Workbench

theorem react_saves (c : Controller) (s : Store) (input : Input) :
    c.Saves s (react c s input) := by
  cases input with
  | pointerDown e => exact c.saves_pointerDown s e
  | pointerMove e => exact c.saves_pointerMove s e
  | pointerUp e => exact c.saves_pointerUp s e
  | keyDown key shift => exact c.saves_keyDown s key shift
  | setMode mode => exact c.saves_of_cancel s _ _ rfl (Or.inr (s.answered_setMode mode).content_eq)
  | setPage page =>
    exact c.saves_cancelThen s _ _
      (Controller.persist_or_same (s.answered_setPage page) .viewChange rfl)
  | setZoom zoom =>
    apply c.saves_of_same s _ rfl
    simp only [react, Store.setZoom]
    cases hzoom : clampZoom zoom == s.state.zoom with
    | true =>
      right
      rfl
    | false =>
      left
      simp only [Bool.false_eq_true, if_false, bne, hzoom, Bool.not_false]
      rfl
  | updateText text =>
    exact c.saves_of_same s _ rfl
      (Controller.persist_or_same (s.answered_updateText text) .mutation rfl)
  | updateFontSize fontSize =>
    exact c.saves_of_same s _ rfl
      (Controller.persist_or_same (s.answered_updateFontSize fontSize) .mutation rfl)
  | updateFamily family =>
    exact c.saves_of_same s _ rfl
      (Controller.persist_or_same (s.answered_updateFamily family) .mutation rfl)
  | updateColor color =>
    exact c.saves_of_same s _ rfl
      (Controller.persist_or_same (s.answered_updateColor color) .mutation rfl)

/-! ## The session queued last -/

/-- The newest session that waits to be written. -/
def waiting? (w : Workbench) : Option Session := w.sessions.bind SessionWriter.newest?

/-- The session that was queued last in a run, where another may have been queued before it. Nothing
that an event queues is written before the event is over. -/
def lastQueued (known : Option Session) (w : Workbench) :
    List (Instant × Event) → Option Session
  | [] => known
  | (now, event) :: rest =>
    lastQueued ((w.step now event).waiting?.or known) (w.step now event) rest

/-- There is a writer, no session waits but the one queued last, and that one shows the open
document unless a gesture defers saving. -/
structure Autosaved (known : Option Session) (w : Workbench) : Prop where
  attached : w.sessions.isSome = true
  waiting : ∀ session, w.waiting? = some session → known = some session
  shows : ∀ active, w.active = some active → w.controller.defers = false →
    ∃ session, known = some session ∧ session.Shows active.id w.store

theorem Autosaved.or_eq {known : Option Session} {w : Workbench} (h : w.Autosaved known) :
    w.waiting?.or known = known := by
  cases hwaiting : w.waiting? with
  | none => rfl
  | some session => exact (h.waiting session hwaiting).symm

/-- A workbench that stays as it was, stays saved. -/
theorem Autosaved.same {known : Option Session} {w : Workbench} (h : w.Autosaved known) :
    w.Autosaved (w.waiting?.or known) := by
  rw [h.or_eq]
  exact h

/-- What touches neither document nor queue nor anything saved keeps a workbench saved. -/
theorem Autosaved.frame {known : Option Session} {w : Workbench} (h : w.Autosaved known)
    (w' : Workbench) (hsessions : w'.sessions = w.sessions) (hactive : w'.active = w.active)
    (hgesture : w'.controller.defers = false →
      w.controller.defers = false ∧ w'.store.content = w.store.content) :
    w'.Autosaved known := by
  refine ⟨?_, ?_, ?_⟩
  · rw [hsessions]
    exact h.attached
  · intro session hsession
    apply h.waiting session
    unfold waiting? at hsession ⊢
    rw [hsessions] at hsession
    exact hsession
  · intro active hopen hrest
    rw [hactive] at hopen
    obtain ⟨hbefore, hcontent⟩ := hgesture hrest
    obtain ⟨session, hknown, hshows⟩ := h.shows active hopen hbefore
    exact ⟨session, hknown, hshows.of_content hcontent⟩

/-- An event that touches nothing of that keeps a workbench saved. -/
theorem Autosaved.untouched {known : Option Session} {w : Workbench} (h : w.Autosaved known)
    (w' : Workbench) (hsessions : w'.sessions = w.sessions) (hactive : w'.active = w.active)
    (hdefers : w'.controller.defers = w.controller.defers) (hstore : w'.store = w.store) :
    w'.Autosaved (w'.waiting?.or known) := by
  apply Autosaved.same
  refine h.frame w' hsessions hactive ?_
  intro hrest
  rw [hstore]
  exact ⟨hdefers.symm.trans hrest, rfl⟩

/-- Saving with a document open leaves nothing behind, whatever had been queued before. -/
theorem autosaved_persist (known : Option Session) (w : Workbench) (now : Instant)
    (active : ActiveDocument) (hattached : w.sessions.isSome = true)
    (hopen : w.active = some active) :
    (w.persist now).Autosaved ((w.persist now).waiting?.or known) := by
  obtain ⟨writer, hwriter⟩ := Option.isSome_iff_exists.mp hattached
  have hsessions : (w.persist now).sessions =
      some (writer.save (sessionOf active w.store now)) := by
    unfold persist
    rw [hwriter, hopen]
  have hwaiting : (w.persist now).waiting? = some (sessionOf active w.store now) := by
    unfold waiting?
    rw [hsessions]
    exact writer.newest?_save _
  refine ⟨?_, ?_, ?_⟩
  · rw [hsessions]
    rfl
  · intro session hsession
    rw [hsession]
    rfl
  · intro other hother _
    rw [persist_active, hopen] at hother
    obtain rfl := Option.some.inj hother
    rw [hwaiting, persist_store]
    exact ⟨_, rfl, rfl, rfl, rfl, rfl⟩

theorem persist_of_closed (w : Workbench) (now : Instant) (hclosed : w.active = none) :
    w.persist now = w := by
  unfold persist
  rw [hclosed]
  split
  · next hactive => cases hactive
  · rfl

theorem Autosaved.handle {known : Option Session} {w : Workbench} (h : w.Autosaved known)
    (now : Instant) (input : Input) :
    (w.handle now input).2.Autosaved ((w.handle now input).2.waiting?.or known) := by
  unfold Workbench.handle
  dsimp only
  split
  · rcases Option.eq_none_or_eq_some w.active with hclosed | ⟨active, hopen⟩
    · rw [persist_of_closed]
      · apply Autosaved.same
        refine ⟨h.attached, h.waiting, ?_⟩
        intro active hactive
        exact absurd (hclosed.symm.trans hactive) (by simp)
      · exact hclosed
    · exact autosaved_persist known _ now active h.attached hopen
  · next hpersist =>
    apply Autosaved.same
    refine h.frame _ ?_ ?_ ?_
    · rfl
    · rfl
    · intro hrest
      rcases react_saves w.controller w.store input with hsaves | hdefers | hnothing
      · exact absurd hsaves hpersist
      · exact absurd (hdefers.symm.trans hrest) (by simp)
      · exact hnothing

theorem resume_sessions_isSome (w : Workbench) :
    w.resume.sessions.isSome = w.sessions.isSome := by
  obtain ⟨_, _, hattached, h⟩ := w.resume_eq
  rw [h]
  exact hattached

theorem Autosaved.install {known : Option Session} {w : Workbench} (h : w.Autosaved known)
    (now : Instant) (loaded : LoadedDocument) :
    (w.install now loaded).Autosaved ((w.install now loaded).waiting?.or known) := by
  unfold Workbench.install
  dsimp only
  refine autosaved_persist known _ now ?_ ?_ ?_
  · exact ⟨loaded.id, loaded.displayName, loaded.document, w.nextRevision⟩
  · rw [resume_sessions_isSome]
    exact h.attached
  · rw [resume_active]

theorem Autosaved.close {known : Option Session} {w : Workbench} (h : w.Autosaved known) :
    w.close.Autosaved known := by
  refine ⟨h.attached, h.waiting, ?_⟩
  intro active hactive
  cases hactive

theorem Autosaved.applyLoad {known : Option Session} {w : Workbench} (h : w.Autosaved known)
    (now : Instant) (outcome : LoadOutcome) :
    (w.applyLoad now outcome).2.Autosaved ((w.applyLoad now outcome).2.waiting?.or known) := by
  unfold Workbench.applyLoad
  split
  · exact h.same
  · split
    · exact h.install now _
    · exact h.close.same
    · exact h.same

theorem Autosaved.withLoader {known : Option Session} {w : Workbench} (h : w.Autosaved known)
    (loader : Option Loader) : { w with loader }.Autosaved known :=
  ⟨h.attached, h.waiting, h.shows⟩

theorem Autosaved.replaceDocument {known : Option Session} {w : Workbench}
    (h : w.Autosaved known) (now : Instant) (active : ActiveDocument) (job : ExportJob)
    (document : Pdf.OpenDocument) :
    (w.replaceDocument now active job document).Autosaved
      ((w.replaceDocument now active job document).waiting?.or known) := by
  unfold Workbench.replaceDocument
  dsimp only
  apply Autosaved.withLoader
  exact autosaved_persist known _ now _ h.attached rfl

theorem Autosaved.applyExport {known : Option Session} {w : Workbench} (h : w.Autosaved known)
    (now : Instant) (outcome : ExportOutcome) :
    (w.applyExport now outcome).2.Autosaved
      ((w.applyExport now outcome).2.waiting?.or known) := by
  unfold Workbench.applyExport
  split
  · exact h.same
  · split
    · exact h.same
    · split
      · exact h.same
      · split
        · exact h.same
        · exact h.replaceDocument now _ _ _

/-- Dealing with the queue leaves no newest session that was not the newest before. -/
theorem Autosaved.withSessions {known : Option Session} {w : Workbench} (h : w.Autosaved known)
    (f : SessionWriter → SessionWriter)
    (hf : ∀ writer session, (f writer).newest? = some session → writer.newest? = some session) :
    { w with sessions := w.sessions.map f }.Autosaved known := by
  refine ⟨?_, ?_, h.shows⟩
  · rw [Option.isSome_map]
    exact h.attached
  · intro session hsession
    apply h.waiting session
    unfold waiting? at hsession ⊢
    cases hwriter : w.sessions with
    | none => rw [hwriter] at hsession; exact hsession
    | some writer =>
      rw [hwriter] at hsession
      exact hf writer session hsession

/-- Every event keeps a workbench saved, with what it queued as the session queued last. -/
theorem Autosaved.step {known : Option Session} {w : Workbench} (h : w.Autosaved known)
    (now : Instant) (event : Event) :
    (w.step now event).Autosaved ((w.step now event).waiting?.or known) := by
  cases event with
  | setLoader loader => exact h.untouched _ rfl rfl rfl rfl
  | beginLoad id => exact h.untouched _ rfl rfl rfl rfl
  | applyLoad outcome => exact h.applyLoad now outcome
  | close => exact h.close.same
  | requestBase =>
    simp only [Workbench.step, Workbench.requestBase]
    split
    · exact h.same
    · exact h.untouched _ rfl rfl rfl rfl
  | applyBase result => exact h.untouched _ rfl rfl rfl rfl
  | paint =>
    simp only [Workbench.step, Workbench.paint]
    split
    · exact h.same
    · exact h.untouched _ rfl rfl rfl rfl
  | runExport job => exact h.untouched _ rfl rfl rfl rfl
  | applyExport outcome => exact h.applyExport now outcome
  | input input => exact h.handle now input
  | setPendingText text => exact h.untouched _ rfl rfl rfl rfl
  | setTextStyle style => exact h.untouched _ rfl rfl rfl rfl
  | setRectColor color => exact h.untouched _ rfl rfl rfl rfl
  | flushSession => exact (h.withSessions _ fun writer ↦ writer.newest?_of_flush).same
  | writeSession =>
    apply Autosaved.same
    apply h.withSessions
    intro writer session hsession
    cases hstep : writer.step with
    | none =>
      rw [hstep] at hsession
      exact hsession
    | some next =>
      rw [hstep] at hsession
      exact writer.newest?_of_step next hstep session hsession

theorem Autosaved.run {known : Option Session} {w : Workbench} (h : w.Autosaved known)
    (events : List (Instant × Event)) : (w.run events).Autosaved (lastQueued known w events) := by
  induction events generalizing known w with
  | nil => exact h
  | cons first rest ih => exact ih (h.step first.1 first.2)

theorem autosaved_new (settings : Settings) (library : Font.Library)
    (rasterizer : Render.Rasterizer) (folder : Folder) :
    (new settings library rasterizer (some folder)).Autosaved none := by
  refine ⟨rfl, ?_, ?_⟩
  · intro session hsession
    cases hsession
  · intro active hactive
    cases hactive

/-- In every run with a place for sessions, whenever a document is open and neither a drag has moved
something nor fingers zoom, the session that was queued last shows the document as it is: its
annotations, the current page and the zoom. -/
theorem lastQueued_shows (settings : Settings) (library : Font.Library)
    (rasterizer : Render.Rasterizer) (folder : Folder) (events : List (Instant × Event))
    (active : ActiveDocument)
    (hopen : ((new settings library rasterizer (some folder)).run events).active = some active)
    (hrest : ((new settings library rasterizer (some folder)).run events).controller.defers =
      false) :
    ∃ session,
      lastQueued none (new settings library rasterizer (some folder)) events = some session ∧
        session.Shows active.id
          ((new settings library rasterizer (some folder)).run events).store :=
  ((autosaved_new settings library rasterizer folder).run events).shows active hopen hrest

/-- After a patch has been drawn, and while the writer is at work, the session queued last has the
patch. -/
theorem lastQueued_shows_drawing :
    let w := new (.standard []) .empty Render.blank (some .empty)
    let events := opening ++ drawing.map (Prod.map id Event.input) ++ [(⟨1, 0⟩, .writeSession)]
    (w.run events).store.annotations ≠ .empty ∧
      ∃ session, lastQueued none w events = some session ∧
        session.Shows ⟨"a"⟩ (w.run events).store := by
  intro w events
  refine ⟨by decide +kernel, ?_⟩
  exact lastQueued_shows (.standard []) .empty Render.blank .empty events
    ⟨⟨"a"⟩, none, ⟨[], ⟨[.letter]⟩⟩, 1⟩ (by decide +kernel) (by decide +kernel)

end Workbench

end Marginalia
