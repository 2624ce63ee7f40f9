import Marginalia.Proofs.Editor.Places
import Marginalia.Proofs.Workbench.Drawing
import Marginalia.Proofs.Workbench.Undo

/-!
# Gestures

A gesture fits the mode it belongs to, the selection and the fingers on the screen, whatever comes
between its beginning and its end. A drag always goes back to a press on the annotation that it
moves, and what is selected or hovered lies on the current page.
-/

namespace Marginalia

/-! ## Coordinates and fingers -/

namespace Scalar

/-- A coordinate that is a number and not below zero. -/
structure IsNonnegative (a : Scalar) : Prop where
  isNaN : a.isNaN = false
  least : 0 ≤ a

theorem isNonnegative_zero : IsNonnegative 0 := by
  constructor <;> decide

/-- The greater of anything and zero is not below zero. -/
theorem isNonnegative_greater (a : Scalar) : IsNonnegative (greater a 0) := by
  unfold greater
  split
  · exact isNonnegative_zero
  · next hnumber =>
    split
    · exact isNonnegative_zero
    · next hle =>
      have hnan : a.isNaN = false := by simpa using hnumber
      exact ⟨hnan, le_of_not_lt a 0 hnan isNonnegative_zero.isNaN hle⟩

end Scalar

namespace Touches

/-- A finger that is put down does not take others away. -/
theorem length_le_press (t : Touches) (finger : Nat) (place : Point Scalar) :
    t.length ≤ (t.press finger place).length := by
  unfold press
  induction t with
  | nil => exact Nat.zero_le _
  | cons first rest ih =>
    rw [Ascending.insert]
    split
    · exact Nat.le_succ _
    · split
      · exact Nat.le_refl _
      · exact Nat.succ_le_succ ih

theorem length_move (t : Touches) (finger : Nat) (place : Point Scalar) :
    (t.move finger place).length = t.length :=
  List.length_map _

/-- There is a distance between two fingers at least. -/
theorem two_le_length {t : Touches} {distance : Scalar} (h : t.distance? = some distance) :
    2 ≤ t.length := by
  unfold distance? at h
  split at h
  · exact Nat.succ_le_succ (Nat.succ_le_succ (Nat.zero_le _))
  · cases h

end Touches

/-! ## Fitting gestures -/

/-- The mode that a gesture belongs to; moving the page and zooming belong to none. -/
def Gesture.mode? : Gesture → Option EditMode
  | .drawing _ _ => some .addRect
  | .dragging _ _ _ => some .select
  | _ => none

/-- The gesture of a controller belongs to a mode, zooming has two fingers at a distance, and the
page is not scrolled beyond its upper left corner. -/
structure Controller.Fits (c : Controller) (mode : EditMode) : Prop where
  mode : ∀ own, c.gesture.mode? = some own → own = mode
  pinch : ∀ distance zoom, c.gesture = .pinching distance zoom →
    2 ≤ c.touches.length ∧ 0 < distance
  left : c.scroll.x.IsNonnegative
  top : c.scroll.y.IsNonnegative

namespace Controller

theorem fits_new (textStyle : TextStyle) (rectColor : Color) (mode : EditMode) :
    (new textStyle rectColor).Fits mode where
  mode _ h := nomatch h
  pinch _ _ h := nomatch h
  left := Scalar.isNonnegative_zero
  top := Scalar.isNonnegative_zero

namespace Fits

variable {c : Controller} {mode : EditMode} (h : c.Fits mode)
include h

/-- Without a gesture only the scroll position matters. -/
theorem atRest (c' : Controller) (hgesture : c'.gesture = .idle) (hscroll : c'.scroll = c.scroll)
    (other : EditMode) : c'.Fits other where
  mode _ hown := by rw [hgesture] at hown; cases hown
  pinch _ _ hpinch := by rw [hgesture] at hpinch; cases hpinch
  left := hscroll ▸ h.left
  top := hscroll ▸ h.top

/-- A gesture of the mode that is no zooming may be begun or go on. -/
theorem turnTo {gesture : Gesture} (hmode : ∀ own, gesture.mode? = some own → own = mode)
    (hpinch : ∀ distance zoom, gesture ≠ .pinching distance zoom) :
    Fits { c with gesture } mode where
  mode := hmode
  pinch distance zoom heq := absurd heq (hpinch distance zoom)
  left := h.left
  top := h.top

theorem cancel (other : EditMode) : c.cancel.1.Fits other :=
  h.atRest c.cancel.1 rfl rfl other

/-- The fingers may be others, as long as there are two of them to zoom with. -/
theorem withTouches (touches : Touches) (htwo : c.isPinching = true → 2 ≤ touches.length) :
    Fits { c with touches } mode where
  mode := h.mode
  pinch distance zoom hpinch :=
    have hgesture : c.gesture = .pinching distance zoom := hpinch
    ⟨htwo (by rw [isPinching, hgesture]), (h.pinch distance zoom hgesture).2⟩
  left := h.left
  top := h.top

theorem two_le_length (hpinch : c.isPinching = true) : 2 ≤ c.touches.length := by
  unfold isPinching at hpinch
  split at hpinch
  · next distance zoom hgesture => exact (h.pinch distance zoom hgesture).1
  · cases hpinch

/-- More fingers, or as many, change nothing. -/
theorem track (e : PointerEvent) (change : Touches → Nat → Touches)
    (hchange : ∀ touches finger, touches.length ≤ (change touches finger).length) :
    (c.track e change).Fits mode := by
  unfold Controller.track
  split
  · exact h.withTouches _ fun hpinch ↦ Nat.le_trans (h.two_le_length hpinch) (hchange _ _)
  · exact h

/-! ## Pointers -/

theorem startPinch (s : Store) : (c.startPinch s).controller.Fits mode := by
  unfold Controller.startPinch Controller.cancel
  dsimp only
  cases hdistance : c.touches.distance? with
  | none => exact h.cancel mode
  | some distance =>
    dsimp only
    split
    · next hpositive =>
      refine ⟨fun own hown ↦ (nomatch hown), fun other zoom heq ↦ ?_, h.left, h.top⟩
      obtain ⟨rfl, _⟩ := Gesture.pinching.inj heq
      exact ⟨Touches.two_le_length hdistance, hpositive⟩
    · exact h.cancel mode

theorem press {s : Store} (hmode : s.state.mode = mode) (place : Point Scalar) :
    (c.press s place).controller.Fits mode := by
  unfold Controller.press
  cases hcase : s.state.mode with
  | addText =>
    simp only [placeText]
    split
    · exact h
    · exact h
  | addRect =>
    refine h.turnTo (fun own hown ↦ ?_) (by simp)
    rw [← Option.some.inj hown, ← hmode, hcase]
  | select =>
    simp only [pressSelect]
    split
    · refine h.turnTo (fun own hown ↦ ?_) (by simp)
      rw [← Option.some.inj hown, ← hmode, hcase]
    · split
      · split
        · exact h
        · exact h
      · exact h

theorem pointerDown {s : Store} (hmode : s.state.mode = mode) (e : PointerEvent) :
    (c.pointerDown s e).controller.Fits mode := by
  have htracked := h.track e (fun touches finger ↦ touches.press finger e.place)
    fun touches finger ↦ touches.length_le_press finger e.place
  unfold Controller.pointerDown
  dsimp only
  generalize c.track e (fun touches finger ↦ touches.press finger e.place) = tracked at htracked ⊢
  split
  · exact htracked.startPinch s
  · split
    · exact htracked.turnTo (fun own hown ↦ nomatch hown) (by simp)
    · split
      · exact htracked.press hmode e.place
      · exact htracked

theorem movePan (s : Store) (origin initialScroll place : Point Scalar) :
    (c.movePan s origin initialScroll place).controller.Fits mode := by
  unfold Controller.movePan
  dsimp only
  split
  · exact h
  · exact ⟨h.mode, h.pinch, Scalar.isNonnegative_greater _, Scalar.isNonnegative_greater _⟩

theorem pointerMove (s : Store) (e : PointerEvent) : (c.pointerMove s e).controller.Fits mode := by
  have htracked := h.track e (fun touches finger ↦ touches.move finger e.place)
    fun touches finger ↦ Nat.le_of_eq (touches.length_move finger e.place).symm
  unfold Controller.pointerMove
  dsimp only
  generalize c.track e (fun touches finger ↦ touches.move finger e.place) = tracked at htracked ⊢
  cases hgesture : tracked.gesture with
  | idle =>
    dsimp only
    split
    · exact htracked
    · exact htracked
  | drawing origin current =>
    have hmode (own : EditMode) (hown : some .addRect = some own) : own = mode :=
      htracked.mode own (by rw [hgesture]; exact hown)
    exact htracked.turnTo hmode (by simp)
  | dragging target last moved =>
    have hmode (own : EditMode) (hown : some .select = some own) : own = mode :=
      htracked.mode own (by rw [hgesture]; exact hown)
    simp only [moveDrag]
    split
    · exact htracked.turnTo hmode (by simp)
    · exact htracked.turnTo hmode (by simp)
  | panning origin initialScroll => exact htracked.movePan s origin initialScroll e.place
  | pinching initialDistance initialZoom =>
    simp only [movePinch]
    split
    · exact htracked
    · exact htracked

/-- The natural end of a gesture; it does not end zooming. -/
theorem release (s : Store) (point : Point Scalar) : (c.release s point).controller.Fits mode := by
  have hrest : Fits { c with gesture := .idle } mode := h.cancel mode
  unfold Controller.release
  split
  · exact hrest
  · exact hrest
  · exact h
  · exact hrest

/-- Lifting a finger leaves two of them, or ends zooming. -/
theorem pointerUp (s : Store) (e : PointerEvent) : (c.pointerUp s e).controller.Fits mode := by
  unfold Controller.pointerUp Controller.track
  cases e.finger with
  | none => exact h.release s _
  | some finger =>
    let lifted : Controller := { c with touches := c.touches.lift finger }
    -- whether fingers are zooming is told by the gesture, which is that of before
    change Fits (Handled.controller (if (true && c.isPinching) = true then
      if lifted.touches.length < 2 then ⟨lifted.cancel.1, s, lifted.cancel.2⟩
      else ⟨lifted, s, .none⟩
      else lifted.release s _)) mode
    rw [Bool.true_and]
    cases hpinch : c.isPinching with
    | false =>
      have hlifted : lifted.Fits mode :=
        h.withTouches _ fun hpinching ↦ by rw [hpinch] at hpinching; cases hpinching
      exact hlifted.release s _
    | true =>
      rw [if_pos rfl]
      split
      · exact h.atRest lifted.cancel.1 rfl rfl mode
      · next htwo => exact h.withTouches _ fun _ ↦ Nat.le_of_not_lt htwo

theorem keyDown (s : Store) (key : Key) (shift : Bool) :
    (c.keyDown s key shift).controller.Fits mode := by
  cases key with
  | delete => exact h.cancel mode
  | backspace => exact h.cancel mode
  | escape => exact h.cancel mode
  | undo => exact h.cancel mode
  | _ => exact h

end Fits

end Controller

/-! ## The mode and the pages -/

namespace Store

/-- The operations that leave the mode alone. -/
def Operation.keepsMode : Operation → Bool
  | .setMode _ => false
  | _ => true

theorem Edit.mode_eq {s s' : Store} {kind : EditKind} (h : Edit s kind s') (hkind : kind ≠ .mark) :
    s'.state.mode = s.state.mode := by
  cases h with
  | mode mode => exact absurd rfl hkind
  | _ => rfl

theorem mode_apply (s : Store) (operation : Operation) (h : operation.keepsMode = true) :
    (s.apply operation).2.state.mode = s.state.mode := by
  have hedit (hkind : operation.editKind ≠ .mark) :
      (s.apply operation).2.state.mode = s.state.mode := by
    rcases (s.answered_apply operation).same_or_done with hsame | ⟨_, hdone⟩
    · exact congrArg (fun s ↦ s.state.mode) hsame
    · exact hdone.mode_eq hkind
  cases operation with
  | setMode mode => cases h
  | hit screen => rfl
  | selectionContains screen => rfl
  | select r =>
    simp only [Store.apply, Prod.map, select]
    split
    · rfl
    · split <;> rfl
  | deselect =>
    simp only [Store.apply, Prod.map, deselect]
    split <;> rfl
  | setHovered r =>
    simp only [Store.apply, Prod.map, setHovered]
    split <;> rfl
  | _ => exact hedit (by simp [Operation.editKind])

theorem mode_run (s : Store) (operations : List Operation)
    (h : ∀ operation ∈ operations, operation.keepsMode = true) :
    (s.run operations).state.mode = s.state.mode := by
  induction operations generalizing s with
  | nil => rfl
  | cons operation rest ih =>
    have hfirst := s.mode_apply operation (h operation List.mem_cons_self)
    have hrest := ih (s.apply operation).2 fun other hmem ↦ h other (List.mem_cons_of_mem _ hmem)
    exact hrest.trans hfirst

/-- Every operation of a run aims well where it is carried out. -/
def AimsThroughout (s : Store) : List Operation → Prop
  | [] => True
  | operation :: rest => operation.Aims s ∧ AimsThroughout (s.apply operation).2 rest

theorem Placed.run {s : Store} (h : s.Placed) (hinv : s.Invariant) (operations : List Operation)
    (haims : s.AimsThroughout operations) : (s.run operations).Placed := by
  induction operations generalizing s with
  | nil => exact h
  | cons operation rest ih =>
    exact ih (h.apply hinv operation haims.1) (hinv.apply operation) haims.2

end Store

namespace Controller

open Store (hasHere_of_hit?)

theorem aims_pointerDownRequests (c : Controller) (s : Store) (e : PointerEvent) :
    s.AimsThroughout (c.pointerDownRequests s e) := by
  unfold pointerDownRequests pressRequests selectRequests
  dsimp only
  repeat' split
  all_goals first
    | trivial
    | exact ⟨trivial, trivial⟩
    | exact ⟨hasHere_of_hit? ‹_›, trivial⟩

theorem aims_dragRequests (s : Store) (last : Point Scalar) (moved : Bool) (point : Point Scalar) :
    s.AimsThroughout (dragRequests last moved point) := by
  unfold dragRequests
  split
  · cases moved with
    | true => exact ⟨trivial, trivial⟩
    | false => exact ⟨trivial, trivial, trivial⟩
  · trivial

theorem aims_pointerMoveRequests (c : Controller) (s : Store) (e : PointerEvent) :
    s.AimsThroughout (c.pointerMoveRequests s e) := by
  unfold pointerMoveRequests
  dsimp only
  split
  · split
    · exact ⟨fun _ hhit ↦ hasHere_of_hit? hhit, trivial⟩
    · trivial
  · exact aims_dragRequests s _ _ _
  · split
    · exact ⟨trivial, trivial⟩
    · trivial
  · trivial

theorem aims_pointerUpRequests (c : Controller) (s : Store) (e : PointerEvent) :
    s.AimsThroughout (c.pointerUpRequests s e) := by
  unfold pointerUpRequests
  dsimp only
  split
  · exact ⟨trivial, trivial⟩
  · trivial

theorem keepsMode_of_pointerDownRequests (c : Controller) (s : Store) (e : PointerEvent) :
    ∀ operation ∈ c.pointerDownRequests s e, operation.keepsMode = true := by
  unfold pointerDownRequests pressRequests selectRequests
  dsimp only
  repeat' split
  all_goals simp [Store.Operation.keepsMode]

theorem keepsMode_of_dragRequests (last : Point Scalar) (moved : Bool) (point : Point Scalar) :
    ∀ operation ∈ dragRequests last moved point, operation.keepsMode = true := by
  unfold dragRequests
  split
  · cases moved <;> simp [Store.Operation.keepsMode]
  · simp

theorem keepsMode_of_pointerMoveRequests (c : Controller) (s : Store) (e : PointerEvent) :
    ∀ operation ∈ c.pointerMoveRequests s e, operation.keepsMode = true := by
  unfold pointerMoveRequests
  dsimp only
  split
  · split <;> simp [Store.Operation.keepsMode]
  · exact keepsMode_of_dragRequests _ _ _
  · split <;> simp [Store.Operation.keepsMode]
  · simp

theorem keepsMode_of_pointerUpRequests (c : Controller) (s : Store) (e : PointerEvent) :
    ∀ operation ∈ c.pointerUpRequests s e, operation.keepsMode = true := by
  unfold pointerUpRequests
  dsimp only
  split <;> simp [Store.Operation.keepsMode]

end Controller

namespace Workbench

/-- Nothing that the user does marks an annotation of another page. -/
theorem aims_inputRequests (c : Controller) (s : Store) (input : Input) :
    s.AimsThroughout (inputRequests c s input) := by
  cases input with
  | pointerDown e => exact c.aims_pointerDownRequests s e
  | pointerMove e => exact c.aims_pointerMoveRequests s e
  | pointerUp e => exact c.aims_pointerUpRequests s e
  | keyDown key shift => cases key <;> exact ⟨trivial, trivial⟩
  | _ => exact ⟨trivial, trivial⟩

/-- Only a change of the mode changes the mode. -/
theorem react_mode (c : Controller) (s : Store) (input : Input)
    (h : ∀ mode, input ≠ .setMode mode) :
    (react c s input).store.state.mode = s.state.mode := by
  rw [react_store]
  apply s.mode_run
  cases input with
  | pointerDown e => exact c.keepsMode_of_pointerDownRequests s e
  | pointerMove e => exact c.keepsMode_of_pointerMoveRequests s e
  | pointerUp e => exact c.keepsMode_of_pointerUpRequests s e
  | keyDown key shift => cases key <;> simp [inputRequests, Controller.keyRequests,
      Store.Operation.keepsMode]
  | setMode mode => exact absurd rfl (h mode)
  | _ => simp [inputRequests, Store.Operation.keepsMode]

/-- After every input the gesture fits the mode that the store has then. -/
theorem react_fits {c : Controller} {s : Store} (h : c.Fits s.state.mode) (input : Input) :
    (react c s input).controller.Fits (react c s input).store.state.mode := by
  by_cases hmode : ∃ mode, input = .setMode mode
  · obtain ⟨mode, rfl⟩ := hmode
    exact h.cancel _
  · rw [react_mode c s input fun mode heq ↦ hmode ⟨mode, heq⟩]
    cases input with
    | pointerDown e => exact h.pointerDown rfl e
    | pointerMove e => exact h.pointerMove s e
    | pointerUp e => exact h.pointerUp s e
    | keyDown key shift => exact h.keyDown s key shift
    | setMode mode => exact absurd ⟨mode, rfl⟩ hmode
    | setPage page => exact h.cancel _
    | _ => exact h

/-! ## Events -/

/-- Resuming leaves the store alone, or restores the annotations, the page and the zoom. -/
theorem resume_run (w : Workbench) :
    w.resume.store = w.store ∨ ∃ set page zoom,
      w.resume.store = w.store.run [.restore set, .setPage page, .setZoom zoom] := by
  unfold resume
  split
  · dsimp only
    split
    · split
      · exact Or.inr ⟨_, _, _, rfl⟩
      · exact Or.inl rfl
    · exact Or.inl rfl
  · exact Or.inl rfl

/-- The gesture fits the mode, and the annotations that are selected or hovered lie on the page. -/
structure Attuned (w : Workbench) : Prop where
  fits : w.controller.Fits w.store.state.mode
  placed : w.store.Placed

theorem attuned_new (settings : Settings) (library : Font.Library) (rasterizer : Render.Rasterizer)
    (sessions : Option Folder) : (new settings library rasterizer sessions).Attuned :=
  ⟨Controller.fits_new _ _ _, Store.placed_new _ _⟩

namespace Attuned

variable {w : Workbench} (h : w.Attuned)
include h

theorem handle (hw : w.Coherent) (now : Instant) (input : Input) :
    (w.handle now input).2.Attuned := by
  refine ⟨?_, ?_⟩
  · rw [handle_controller, handle_store]
    exact react_fits h.fits input
  · rw [handle_store, react_store]
    exact h.placed.run hw.store _ (aims_inputRequests _ _ input)

/-- The gesture is given up, and the store takes over another document, or none. -/
theorem reset {w' : Workbench} (hw : w.Coherent) (pages : Nat)
    (hcontroller : w'.controller = w.controller.cancel.1)
    (hstore : w'.store = w.store.loadDocument pages) : w'.Attuned := by
  refine ⟨?_, ?_⟩
  · rw [hcontroller]
    exact h.fits.cancel _
  · rw [hstore]
    exact h.placed.apply hw.store (.loadDocument pages) trivial

theorem close (hw : w.Coherent) : w.close.Attuned :=
  h.reset hw 0 rfl rfl

/-- Where the view refers to nothing, a session may be resumed. -/
theorem resume (hw : w.Coherent) (hrefers : ∀ r, ¬w.store.state.Refers r) : w.resume.Attuned := by
  rcases w.resume_run with hsame | ⟨set, page, zoom, hrun⟩
  · refine ⟨?_, ?_⟩
    · rw [resume_controller, hsame]
      exact h.fits
    · rw [hsame]
      exact h.placed
  · refine ⟨?_, ?_⟩
    · rw [resume_controller, hrun, Store.mode_run]
      · exact h.fits
      · simp [Store.Operation.keepsMode]
    · rw [hrun]
      exact h.placed.run hw.store _ ⟨hrefers, trivial, trivial, trivial⟩

theorem persist (now : Instant) : (w.persist now).Attuned := by
  refine ⟨?_, ?_⟩
  · rw [persist_controller, persist_store]
    exact h.fits
  · rw [persist_store]
    exact h.placed

theorem install (hw : w.Coherent) (now : Instant) (loaded : LoadedDocument) :
    (w.install now loaded).Attuned := by
  unfold Workbench.install
  dsimp only
  refine Attuned.persist (Attuned.resume (h.reset hw _ rfl rfl) ?_ ?_) now
  · exact coherent_of_idle _ (hw.store.edit (.loadDocument _)) rfl
  · intro r hr
    rcases hr with hr | hr <;> cases hr

theorem applyLoad (hw : w.Coherent) (now : Instant) (outcome : LoadOutcome) :
    (w.applyLoad now outcome).2.Attuned := by
  unfold Workbench.applyLoad
  split
  · exact h
  · split
    · exact h.install hw now _
    · exact h.close hw
    · exact h

theorem replaceDocument (hw : w.Coherent) (now : Instant) (active : ActiveDocument)
    (job : ExportJob) (document : Pdf.OpenDocument) :
    (w.replaceDocument now active job document).Attuned := by
  unfold Workbench.replaceDocument
  dsimp only
  refine ⟨?_, ?_⟩
  · dsimp only
    rw [persist_controller]
    exact h.fits.cancel _
  · dsimp only
    rw [persist_store]
    exact h.placed.apply hw.store (.retireExported job.annotations) trivial

theorem applyExport (hw : w.Coherent) (now : Instant) (outcome : ExportOutcome) :
    (w.applyExport now outcome).2.Attuned := by
  rcases w.applyExport_cases now outcome with ⟨hsame, _⟩ | ⟨_, _, _, _, hnext⟩
  · rw [hsame]
    exact h
  · rw [hnext]
    exact h.replaceDocument hw now _ _ _

theorem step (hw : w.Coherent) (now : Instant) (event : Event) : (w.step now event).Attuned := by
  cases event with
  | applyLoad outcome => exact h.applyLoad hw now outcome
  | close => exact h.close hw
  | requestBase =>
    simp only [Workbench.step, requestBase]
    split
    · exact h
    · exact ⟨h.fits, h.placed⟩
  | paint =>
    simp only [Workbench.step, paint]
    split
    · exact h
    · exact ⟨h.fits, h.placed⟩
  | applyExport outcome => exact h.applyExport hw now outcome
  | input input => exact h.handle hw now input
  | setPendingText text =>
    exact ⟨⟨h.fits.mode, h.fits.pinch, h.fits.left, h.fits.top⟩, h.placed⟩
  | setTextStyle style =>
    exact ⟨⟨h.fits.mode, h.fits.pinch, h.fits.left, h.fits.top⟩, h.placed⟩
  | setRectColor color =>
    exact ⟨⟨h.fits.mode, h.fits.pinch, h.fits.left, h.fits.top⟩, h.placed⟩
  | _ => exact ⟨h.fits, h.placed⟩

theorem run (hw : w.Coherent) (events : List (Instant × Event)) : (w.run events).Attuned := by
  induction events generalizing w with
  | nil => exact h
  | cons first rest ih => exact ih (h.step hw first.1 first.2) (hw.step first.1 first.2)

end Attuned

theorem Reachable.attuned {w : Workbench} (h : w.Reachable) : w.Attuned := by
  obtain ⟨settings, library, rasterizer, sessions, events, rfl⟩ := h
  exact (attuned_new settings library rasterizer sessions).run
    (coherent_new settings library rasterizer sessions) events

end Workbench

/-! ## The press that a drag goes back to -/

namespace Controller

/-- The pointer is pressed on the selected annotation where no gesture is under way. -/
structure Presses (c : Controller) (s : Store) (e : PointerEvent) (target : AnnotationRef) :
    Prop where
  idle : c.gesture = .idle
  selected : s.state.selected = some target
  hit : s.selectionContains e.place = true

theorem press_starts (c : Controller) (s : Store) (place : Point Scalar) (target : AnnotationRef)
    (hidle : c.gesture = .idle) (h : (c.press s place).controller.dragTarget? = some target) :
    s.state.selected = some target ∧ s.selectionContains place = true := by
  have hnone := c.dragTarget?_eq_none (by simp [hidle])
  unfold press at h
  cases hmode : s.state.mode with
  | addText =>
    simp only [hmode, placeText] at h
    split at h <;> exact absurd (hnone.symm.trans h) (by simp)
  | addRect =>
    simp only [hmode] at h
    cases h
  | select =>
    simp only [hmode, pressSelect] at h
    split at h
    · next hit hselected =>
      obtain rfl := Option.some.inj h
      exact Option.filter_eq_some_iff.mp hselected
    · split at h
      · split at h <;> exact absurd (hnone.symm.trans h) (by simp)
      · exact absurd (hnone.symm.trans h) (by simp)

/-- A pointer that goes down leaves a drag as it is, or begins one of what it presses. -/
theorem pointerDown_starts (c : Controller) (s : Store) (e : PointerEvent)
    (target : AnnotationRef) (h : (c.pointerDown s e).controller.dragTarget? = some target) :
    c.dragTarget? = some target ∨ c.Presses s e target := by
  have hgesture := c.track_gesture e fun touches finger ↦ touches.press finger e.place
  have htrack := c.track_dragTarget? e fun touches finger ↦ touches.press finger e.place
  unfold pointerDown at h
  dsimp only at h
  generalize c.track e (fun touches finger ↦ touches.press finger e.place) = tracked
    at h hgesture htrack
  split at h
  · exact absurd ((startPinch_dragTarget? tracked s).symm.trans h) (by simp)
  · split at h
    · cases h
    · split at h
      · next hidle =>
        obtain ⟨hselected, hhit⟩ := tracked.press_starts s e.place target hidle h
        exact Or.inr ⟨hgesture.symm.trans hidle, hselected, hhit⟩
      · exact Or.inl (htrack.symm.trans h)

end Controller

namespace Workbench

open Controller (hasDelta dragRequests)

theorem react_starts (c : Controller) (s : Store) (input : Input) (target : AnnotationRef)
    (h : (react c s input).controller.dragTarget? = some target) :
    c.dragTarget? = some target ∨ ∃ e, input = .pointerDown e ∧ c.Presses s e target := by
  cases input with
  | pointerDown e => exact (c.pointerDown_starts s e target h).imp id fun hpress ↦ ⟨e, rfl, hpress⟩
  | pointerMove e => exact Or.inl (c.pointerMove_dragsOn s e target h).1
  | pointerUp e => exact absurd ((c.pointerUp_dragTarget? s e).symm.trans h) (by simp)
  | keyDown key shift => exact Or.inl (c.keyDown_dragsOn s key shift target h).1
  | setMode mode => cases h
  | setPage page => cases h
  | _ => exact Or.inl h

/-- A drag that is under way after an event was so before, or the event is the press it begins
with. -/
theorem step_starts (w : Workbench) (now : Instant) (event : Event) (target : AnnotationRef)
    (h : (w.step now event).controller.dragTarget? = some target) :
    w.controller.dragTarget? = some target ∨
      ∃ e, event = .input (.pointerDown e) ∧ w.controller.Presses w.store e target := by
  cases event with
  | input input =>
    simp only [step, handle_controller] at h
    refine (react_starts _ _ input target h).imp id ?_
    rintro ⟨e, rfl, hpress⟩
    exact ⟨e, rfl, hpress⟩
  | applyLoad outcome =>
    simp only [step, applyLoad] at h
    split at h
    · exact Or.inl h
    · split at h
      · simp only [install, persist_controller, resume_controller] at h
        cases h
      · cases h
      · exact Or.inl h
  | close => cases h
  | requestBase =>
    simp only [step, requestBase] at h
    split at h <;> exact Or.inl h
  | paint =>
    simp only [step, paint] at h
    split at h <;> exact Or.inl h
  | applyExport outcome =>
    simp only [step] at h
    rcases w.applyExport_cases now outcome with ⟨hsame, _⟩ | ⟨_, _, _, _, hnext⟩
    · rw [hsame] at h
      exact Or.inl h
    · rw [hnext] at h
      simp only [replaceDocument, persist_controller] at h
      cases h
  | _ => exact Or.inl h

/-- A press on an annotation began a drag of it, and the drag has gone on ever since. -/
def PressedOn (w : Workbench) (target : AnnotationRef) : Prop :=
  ∃ (before : Workbench) (now : Instant) (e : PointerEvent) (since : List (Instant × Event)),
    before.Reachable ∧ before.controller.Presses before.store e target ∧
      let pressed := before.step now (.input (.pointerDown e))
      w = pressed.run since ∧
        ∀ part, part <+: since → (pressed.run part).controller.dragTarget? = some target

/-- A press that begins a drag is the press that the drag goes back to. -/
theorem pressedOn_of_presses {w : Workbench} (hw : w.Reachable) (now : Instant) {e : PointerEvent}
    {target : AnnotationRef} (hpress : w.controller.Presses w.store e target)
    (hdrag : (w.step now (.input (.pointerDown e))).controller.dragTarget? = some target) :
    (w.step now (.input (.pointerDown e))).PressedOn target := by
  refine ⟨w, now, e, [], hw, hpress, rfl, fun part hpart ↦ ?_⟩
  rw [List.prefix_nil.mp hpart]
  exact hdrag

/-- A drag that goes on goes back to the same press. -/
theorem PressedOn.step {w : Workbench} {target : AnnotationRef} (h : w.PressedOn target)
    (now : Instant) (event : Event)
    (hdrag : (w.step now event).controller.dragTarget? = some target) :
    (w.step now event).PressedOn target := by
  obtain ⟨before, time, e, since, hbefore, hpress, rfl, hon⟩ := h
  rw [← run_concat] at hdrag ⊢
  refine ⟨before, time, e, since ++ [(now, event)], hbefore, hpress, rfl, fun part hpart ↦ ?_⟩
  rcases List.prefix_concat_iff.mp hpart with rfl | hshorter
  · exact hdrag
  · exact hon part hshorter

theorem pressedOn_run {w : Workbench} (hw : w.Reachable)
    (h : ∀ target, w.controller.dragTarget? = some target → w.PressedOn target)
    (events : List (Instant × Event)) (target : AnnotationRef)
    (hdrag : (w.run events).controller.dragTarget? = some target) :
    (w.run events).PressedOn target := by
  induction events generalizing w with
  | nil => exact h target hdrag
  | cons first rest ih =>
    refine ih (hw.run [first]) (fun other hother ↦ ?_) hdrag
    rcases w.step_starts first.1 first.2 other hother with hgoes | ⟨e, hevent, hpress⟩
    · exact (h other hgoes).step first.1 first.2 hother
    · change (w.step first.1 first.2).controller.dragTarget? = some other at hother
      change (w.step first.1 first.2).PressedOn other
      rw [hevent] at hother ⊢
      exact pressedOn_of_presses hw first.1 hpress hother

/-- Every drag goes back to a press on the annotation that it moves. -/
theorem Reachable.pressedOn {w : Workbench} (h : w.Reachable) {target : AnnotationRef}
    (hdrag : w.controller.dragTarget? = some target) : w.PressedOn target := by
  obtain ⟨settings, library, rasterizer, sessions, events, rfl⟩ := h
  refine pressedOn_run ⟨settings, library, rasterizer, sessions, [], rfl⟩ ?_ events target hdrag
  intro other hother
  cases hother

/-! ## What a drag moves -/

theorem annotations_run_dragRequests (s : Store) {target : AnnotationRef}
    (hvalid : s.validSelection? = some target) (last : Point Scalar) (moved : Bool)
    (point : Point Scalar) :
    (s.run (dragRequests last moved point)).annotations =
      if hasDelta last point then
        Store.moved s.annotations target (point.x - last.x) (point.y - last.y)
      else s.annotations := by
  have hdrag (s : Store) (hvalid : s.validSelection? = some target) (dx dy : Scalar) :
      (s.drag dx dy).2.annotations = Store.moved s.annotations target dx dy := by
    unfold Store.drag
    rw [hvalid]
    rfl
  unfold dragRequests
  split
  · cases moved with
    | true => exact hdrag s hvalid _ _
    | false =>
      have hbegin : s.beginDrag.2 = s.snapshot := by
        unfold Store.beginDrag
        rw [hvalid]
        rfl
      change (s.beginDrag.2.drag _ _).2.annotations = _
      rw [hbegin]
      exact hdrag s.snapshot hvalid _ _
  · rfl

/-! ## Coherence of gestures -/

/-- What a gesture relies on: a rectangle is drawn in its mode only; an annotation that is dragged
was pressed on, is selected and in the set, and is what a move of the pointer moves; what is
selected or hovered lies on the current page; two fingers that zoom were apart; and the page is not
scrolled beyond its upper left corner. -/
structure GesturesCohere (w : Workbench) : Prop where
  drawing : ∀ origin current, w.controller.gesture = .drawing origin current →
    w.store.state.mode = .addRect
  dragging : ∀ target last moved, w.controller.gesture = .dragging target last moved →
    w.store.state.mode = .select ∧ w.store.state.selected = some target ∧
      w.store.annotations.contains target = true ∧ w.PressedOn target
  moves : ∀ target last moved, w.controller.gesture = .dragging target last moved → ∀ now e,
    let point := e.place.toDocument w.store.state.zoom
    let next := (w.handle now (.pointerMove e)).2
    next.controller.dragTarget? = some target ∧
      next.store.annotations =
        if hasDelta last point then
          Store.moved w.store.annotations target (point.x - last.x) (point.y - last.y)
        else w.store.annotations
  page : ∀ r, w.store.state.selected = some r ∨ w.store.state.hovered = some r →
    w.store.annotations.page? r = some w.store.state.currentPage
  pinching : ∀ distance zoom, w.controller.gesture = .pinching distance zoom →
    2 ≤ w.controller.touches.length ∧ 0 < distance
  scroll : (w.controller.scroll.x.isNaN = false ∧ 0 ≤ w.controller.scroll.x) ∧
    w.controller.scroll.y.isNaN = false ∧ 0 ≤ w.controller.scroll.y

/-- In every run of a workbench the gestures cohere with the mode, the selection, the page and the
fingers. -/
theorem gestures_cohere {w : Workbench} (h : w.Reachable) : w.GesturesCohere := by
  have hattuned := h.attuned
  have hcoherent := h.coherent
  have hgoes {target last moved} (hgesture : w.controller.gesture = .dragging target last moved) :
      w.controller.dragTarget? = some target := by
    unfold Controller.dragTarget?
    rw [hgesture]
  have hselected {target last moved}
      (hgesture : w.controller.gesture = .dragging target last moved) :
      w.store.state.selected = some target ∧ w.store.annotations.contains target = true :=
    have hdrag := hcoherent.drag target (hgoes hgesture)
    ⟨hdrag, hcoherent.store.view.selected target hdrag⟩
  constructor
  · intro origin current hgesture
    exact (hattuned.fits.mode .addRect (by rw [hgesture]; rfl)).symm
  · intro target last moved hgesture
    have hmode := hattuned.fits.mode .select (by rw [hgesture]; rfl)
    obtain ⟨hdrag, hcontains⟩ := hselected hgesture
    exact ⟨hmode.symm, hdrag, hcontains, h.pressedOn (hgoes hgesture)⟩
  · intro target last moved hgesture now e point next
    obtain ⟨hdrag, hcontains⟩ := hselected hgesture
    have hvalid : w.store.validSelection? = some target := by
      rw [Store.validSelection?, hdrag, Option.filter_some, if_pos hcontains]
    obtain ⟨hrequests, hnext⟩ := w.controller.pointerMove_of_dragging w.store e target last moved
      hgesture
    refine ⟨?_, ?_⟩
    · change (w.handle now (.pointerMove e)).2.controller.dragTarget? = some target
      rw [handle_controller]
      unfold Controller.dragTarget? react
      rw [hnext]
    · change (w.handle now (.pointerMove e)).2.store.annotations = _
      rw [handle_store, react_store, inputRequests, hrequests]
      exact annotations_run_dragRequests w.store hvalid last moved point
  · intro r hr
    exact hattuned.placed.page? hcoherent.store hr
  · exact hattuned.fits.pinch
  · exact ⟨⟨hattuned.fits.left.isNaN, hattuned.fits.left.least⟩, hattuned.fits.top.isNaN,
      hattuned.fits.top.least⟩

/-- The patch is drawn, selected, and pressed again: it is the one that is dragged. -/
theorem gestures_cohere_drawing :
    let inputs := drawing ++ [(⟨1, 0⟩, .pointerDown (pointerAt 20 20)),
      (⟨2, 0⟩, .pointerMove (pointerAt 25 20))]
    let w := onePage.run (inputs.map fun (now, input) ↦ (now, .input input))
    w.controller.dragTarget? = some ⟨.patch, 1⟩ ∧ w.GesturesCohere := by
  intro inputs w
  exact ⟨by decide +kernel, gestures_cohere (onePage_reachable.run _)⟩

end Workbench

end Marginalia
