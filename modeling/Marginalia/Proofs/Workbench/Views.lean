import Marginalia.Proofs.Workbench.Drawing

/-!
# Page images and the view they were asked for

A page image is asked for at the current page and zoom. Going to another page or zoom makes no
ticket void by itself: it is reported, and whoever draws the pages has to ask for another image,
which makes the earlier tickets void. So an image that is taken over shows the view as it is, or the
change of the view has been reported and has not been answered yet.
-/

namespace Marginalia

/-- What is shown of a document: a page, and how large. -/
def Store.view (s : Store) : Nat × Scalar := (s.state.currentPage, s.state.zoom)

/-- What a page image was asked to show. -/
def Render.BaseTicket.view (t : BaseTicket) : Nat × Scalar := (t.page, t.zoom)

/-! ## What changes the view -/

namespace Store

/-- The operations that leave the page and the zoom alone. -/
def Operation.keepsView (operation : Operation) : Bool :=
  match operation.editKind with
  | .replace => false
  | .page => false
  | .zoom => false
  | _ => true

theorem view_apply (s : Store) (operation : Operation) (h : operation.keepsView = true) :
    (s.apply operation).2.view = s.view := by
  unfold Operation.keepsView at h
  rcases (s.answered_apply operation).same_or_done with hsame | ⟨_, hedit⟩
  · exact congrArg view hsame
  · change Edit s operation.editKind (s.apply operation).2 at hedit
    generalize operation.editKind = kind at h hedit
    generalize (s.apply operation).2 = s' at hedit ⊢
    cases hedit <;> first | rfl | cases h

theorem view_run (s : Store) (operations : List Operation)
    (h : ∀ operation ∈ operations, operation.keepsView = true) :
    (s.run operations).view = s.view := by
  induction operations generalizing s with
  | nil => rfl
  | cons operation rest ih =>
    have hfirst := s.view_apply operation (h operation List.mem_cons_self)
    have hrest := ih (s.apply operation).2 fun other hmem ↦ h other (List.mem_cons_of_mem _ hmem)
    exact hrest.trans hfirst

/-- Another zoom is reported, or it is the same one. -/
theorem setZoom_view (s : Store) (zoom : Scalar) :
    ((s.setZoom zoom).1 != s.state.zoom) = true ∨ (s.setZoom zoom).2.view = s.view := by
  unfold setZoom
  dsimp only
  split
  · exact Or.inr rfl
  · next hzoom =>
    refine Or.inl ?_
    simpa [bne] using hzoom

end Store

namespace Controller

theorem keepsView_of_selectRequests (s : Store) (place : Point Scalar) :
    ∀ operation ∈ selectRequests s place, operation.keepsView = true := by
  unfold selectRequests
  grind [Store.Operation.keepsView, Store.Operation.editKind]

theorem keepsView_of_pointerDownRequests (c : Controller) (s : Store) (e : PointerEvent) :
    ∀ operation ∈ c.pointerDownRequests s e, operation.keepsView = true := by
  have hselect := keepsView_of_selectRequests s e.place
  unfold pointerDownRequests pressRequests
  grind [Store.Operation.keepsView, Store.Operation.editKind]

theorem keepsView_of_dragRequests (last : Point Scalar) (moved : Bool) (point : Point Scalar) :
    ∀ operation ∈ dragRequests last moved point, operation.keepsView = true := by
  unfold dragRequests
  grind [Store.Operation.keepsView, Store.Operation.editKind]

theorem keepsView_of_pointerUpRequests (c : Controller) (s : Store) (e : PointerEvent) :
    ∀ operation ∈ c.pointerUpRequests s e, operation.keepsView = true := by
  unfold pointerUpRequests
  grind [Store.Operation.keepsView, Store.Operation.editKind]

theorem keepsView_of_keyRequests (key : Key) (shift : Bool) :
    ∀ operation ∈ keyRequests key shift, operation.keepsView = true := by
  unfold keyRequests
  grind [Store.Operation.keepsView, Store.Operation.editKind]

/-- Fingers that zoom report it; no other move of a pointer changes the view. -/
theorem pointerMove_view (c : Controller) (s : Store) (e : PointerEvent) :
    (c.pointerMove s e).effects.rerenderBase = true ∨ (c.pointerMove s e).store.view = s.view := by
  rw [pointerMove_store]
  unfold pointerMove pointerMoveRequests
  dsimp only
  generalize c.track e (fun touches finger ↦ touches.move finger e.place) = tracked
  cases tracked.gesture with
  | idle =>
    refine Or.inr (s.view_run _ ?_)
    dsimp only
    split
    · simp [Store.Operation.keepsView, Store.Operation.editKind]
    · simp
  | drawing origin current => exact Or.inr rfl
  | dragging target last moved =>
    exact Or.inr (s.view_run _ (keepsView_of_dragRequests last moved _))
  | panning origin initialScroll => exact Or.inr rfl
  | pinching initialDistance initialZoom =>
    dsimp only [movePinch]
    cases tracked.touches.distance? with
    | none => exact Or.inr rfl
    | some distance =>
      rcases s.setZoom_view (initialZoom * distance / initialDistance) with hzoom | hsame
      · exact Or.inl (by simp only [when, hzoom, if_true])
      · exact Or.inr hsame

end Controller

namespace Workbench

open Render (BaseResult)

/-- An input that changes the view reports that the page has to be drawn again. -/
theorem react_view (c : Controller) (s : Store) (input : Input) :
    (react c s input).effects.rerenderBase = true ∨ (react c s input).store.view = s.view := by
  have hkeeps : (∀ operation ∈ inputRequests c s input, operation.keepsView = true) →
      (react c s input).store.view = s.view := fun h ↦ by
    rw [react_store]
    exact s.view_run _ h
  cases input with
  | pointerDown e => exact Or.inr (hkeeps (c.keepsView_of_pointerDownRequests s e))
  | pointerMove e => exact c.pointerMove_view s e
  | pointerUp e => exact Or.inr (hkeeps (c.keepsView_of_pointerUpRequests s e))
  | keyDown key shift => exact Or.inr (hkeeps (Controller.keepsView_of_keyRequests key shift))
  | setPage page =>
    rcases (s.answered_setPage page).same_or_done with hsame | ⟨hdone, _⟩
    · exact Or.inr (congrArg Store.view hsame)
    · refine Or.inl ?_
      simp only [react, Controller.cancelThen, Controller.when, hdone, if_true]
      exact Bool.or_true _
  | setZoom zoom =>
    rcases s.setZoom_view zoom with hzoom | hsame
    · exact Or.inl (by simp only [react, Controller.when, hzoom, if_true]; rfl)
    · exact Or.inr hsame
  | _ =>
    exact Or.inr (hkeeps (by simp [inputRequests, Store.Operation.keepsView,
      Store.Operation.editKind]))

/-- Whether an event reports that the page has to be drawn again. -/
def rerenders (w : Workbench) (now : Instant) : Event → Bool
  | .input input => (w.handle now input).1.rerenderBase
  | _ => false

/-- Every event keeps the view, reports the change, or makes the tickets void. -/
theorem step_view (w : Workbench) (now : Instant) (event : Event)
    (hstands : w.supersedes now event = false) :
    w.rerenders now event = true ∨ (w.step now event).store.view = w.store.view := by
  cases event with
  | input input =>
    have hreact := react_view w.controller w.store input
    simp only [step, handle_store]
    exact hreact
  | applyLoad outcome =>
    refine Or.inr ?_
    simp only [step, applyLoad]
    simp only [supersedes] at hstands
    split
    · rfl
    · next hlatest =>
      rw [Decidable.not_not.mp hlatest] at hstands
      cases hresult : outcome.result with
      | ok loaded => simp [hresult] at hstands
      | error cause =>
        cases cause with
        | invalidDocument cause => simp [hresult] at hstands
        | retrieval cause => rfl
  | applyExport outcome =>
    rcases w.applyExport_cases now outcome with ⟨hsame, _⟩ | ⟨_, _, _, hsome, _⟩
    · exact Or.inr (congrArg (fun w ↦ w.store.view) hsame)
    · simp [supersedes, hsome] at hstands
  | close => cases hstands
  | requestBase =>
    refine Or.inr ?_
    simp only [step, requestBase]
    split
    · rfl
    · rfl
  | paint =>
    refine Or.inr ?_
    simp only [step, paint]
    split
    · rfl
    · rfl
  | _ => exact Or.inr rfl

/-- The number of the latest ticket goes up with every event that makes tickets void. -/
theorem step_generation (w : Workbench) (now : Instant) (event : Event) :
    (w.step now event).pipeline.generation =
      w.pipeline.generation + (w.supersedes now event).toNat := by
  have hdraws := w.step_draws now event
  generalize w.step now event = w' at hdraws
  cases hdraws with
  | kept event w' hstands hbase hgeneration hdocument => rw [hgeneration, hstands]; rfl
  | accepted result image hcurrent himage => rfl
  | requested document hopen => simp [supersedes, hopen]
  | renewed event w' hvoid hevent hpipeline => rw [hpipeline, hvoid]; rfl

/-! ## Runs -/

/-- Whether something is true of some event of a run, when it happens. -/
def happens (p : Workbench → Instant → Event → Bool) (w : Workbench) :
    List (Instant × Event) → Bool
  | [] => false
  | (now, event) :: rest => p w now event || happens p (w.step now event) rest

/-- Tickets go out of date by events that make them void, and not otherwise. -/
theorem run_generation (w : Workbench) (events : List (Instant × Event)) :
    w.pipeline.generation ≤ (w.run events).pipeline.generation ∧
      ((w.run events).pipeline.generation = w.pipeline.generation ↔
        happens supersedes w events = false) := by
  induction events generalizing w with
  | nil => exact ⟨Nat.le_refl _, by simp [happens, run]⟩
  | cons first rest ih =>
    obtain ⟨now, event⟩ := first
    obtain ⟨hle, heq⟩ := ih (w.step now event)
    have hstep := w.step_generation now event
    change _ ≤ ((w.step now event).run rest).pipeline.generation ∧
      (((w.step now event).run rest).pipeline.generation = _ ↔ _)
    rw [happens, Bool.or_eq_false_iff, ← heq]
    cases hvoid : w.supersedes now event with
    | false =>
      rw [hvoid, Bool.toNat_false, Nat.add_zero] at hstep
      rw [← hstep]
      exact ⟨hle, by simp⟩
    | true =>
      rw [hvoid, Bool.toNat_true] at hstep
      refine ⟨by omega, ⟨fun h ↦ by omega, fun h ↦ absurd h.1 (by simp)⟩⟩

/-- As long as the tickets stand, the view is the same or a change of it has been reported. -/
theorem run_view (w : Workbench) (events : List (Instant × Event))
    (hstands : happens supersedes w events = false) :
    (w.run events).store.view = w.store.view ∨ happens rerenders w events = true := by
  induction events generalizing w with
  | nil => exact Or.inl rfl
  | cons first rest ih =>
    obtain ⟨now, event⟩ := first
    obtain ⟨hfirst, hrest⟩ := Bool.or_eq_false_iff.mp hstands
    rcases w.step_view now event hfirst with hreported | hsame
    · exact Or.inr (Bool.or_eq_true_iff.mpr (Or.inl hreported))
    · rcases ih _ hrest with hview | hreported
      · exact Or.inl (hview.trans hsame)
      · exact Or.inr (Bool.or_eq_true_iff.mpr (Or.inr hreported))

/-- Asking for a page image issues another ticket and does nothing else. -/
theorem requestBase_of_open (w : Workbench) {document : Pdf.OpenDocument}
    (hopen : w.document = some document) :
    w.requestBase.2 = { w with
      pipeline := { w.pipeline with generation := w.pipeline.generation + 1 } } := by
  unfold requestBase
  rw [hopen]
  rfl

/-- The latest ticket of a workbench is good for an image as long as no event makes it void. -/
theorem applyBase_after_run (w : Workbench) (since : List (Instant × Event)) (result : BaseResult)
    (hlatest : result.ticket.generation = w.pipeline.generation) :
    ((w.run since).applyBase result).1 = .ok true ↔
      (∃ image, result.result = .ok image) ∧ happens supersedes w since = false := by
  rw [applyBase_eq_true, hlatest, eq_comm, (w.run_generation since).2, and_comm]

/-- A page image that comes of a job of a run is taken over if it was drawn and no event since the
job was handed out has made the tickets void. The page and the zoom that it was asked for are then
those of the store, or an input since then has reported that they are not. -/
theorem applyBase_shows_view (w : Workbench) (events : List (Instant × Event)) (job : BaseJob)
    (result : BaseResult) (hjob : job ∈ w.jobs events) (hyields : job.Yields result) :
    let reached := w.run events
    ∃ before now since, events = before ++ (now, .requestBase) :: since ∧
      let asked := (w.run before).requestBase.2
      result.ticket.view = (w.run before).store.view ∧
      ((reached.applyBase result).1 = .ok true ↔
        (∃ image, result.result = .ok image) ∧ happens supersedes asked since = false) ∧
      ((reached.applyBase result).1 = .ok true →
        result.ticket.view = reached.store.view ∨ happens rerenders asked since = true) := by
  intro reached
  obtain ⟨before, now, since, hevents, document, hopen, hnext⟩ := w.mem_jobs events job hjob
  refine ⟨before, now, since, hevents, ?_⟩
  intro asked
  have hreached : reached = asked.run since := by
    change w.run events = _
    rw [hevents]
    exact List.foldl_append
  have hasked := (w.run before).requestBase_of_open hopen
  have hview : result.ticket.view = (w.run before).store.view := by
    rw [hyields.ticket_eq, hnext]
    rfl
  have hlatest : result.ticket.generation = asked.pipeline.generation := by
    rw [hyields.ticket_eq, hnext, show asked = _ from hasked]
    rfl
  have haccept := asked.applyBase_after_run since result hlatest
  rw [hreached]
  refine ⟨hview, haccept, fun htrue ↦ ?_⟩
  -- The ticket was still good at the end, so no event on the way has made it void.
  have hkept := asked.run_view since (haccept.mp htrue).2
  rw [hview, show (w.run before).store = asked.store by rw [show asked = _ from hasked]]
  exact hkept.imp Eq.symm id

/-- Once a document is open and its page has been asked for, the image is taken over and shows the
view, unless a change of it has been reported. -/
theorem applyBase_shows_view_asking :
    let w := new (.standard []) .empty Render.blank none
    askedFor ∈ w.jobs asking ∧
      ((w.run asking).applyBase askedFor.run).1 = .ok true ∧
      ∃ before now since, asking = before ++ (now, .requestBase) :: since ∧
        (askedFor.ticket.view = (w.run asking).store.view ∨
          happens rerenders (w.run before).requestBase.2 since = true) := by
  intro w
  have hjob : askedFor ∈ w.jobs asking := by simp [jobs_asking, w]
  obtain ⟨before, now, since, hevents, -, -, hshows⟩ :=
    applyBase_shows_view w asking askedFor askedFor.run hjob (Or.inl rfl)
  have haccept : ((w.run asking).applyBase askedFor.run).1 = .ok true :=
    (applyBase_eq_true _ _).mpr ⟨by decide +kernel, _, rfl⟩
  exact ⟨hjob, haccept, before, now, since, hevents, hshows haccept⟩

/-- A workbench with a document of two empty pages. -/
def twoPages : Workbench :=
  (new (.standard []) .empty Render.blank none).run [
    (⟨0, 0⟩, .beginLoad ⟨"a"⟩),
    (⟨0, 0⟩, .applyLoad ⟨⟨1, ⟨"a"⟩⟩,
      .ok ⟨⟨"a"⟩, ⟨[], ⟨[.letter, .letter]⟩⟩, none, none, false⟩⟩)]

/-- An image is asked for, and then the page is turned or the zoom is doubled. Unless another image
is asked for, the one of the earlier view is taken over. -/
theorem applyBase_after_leaving :
    let job := twoPages.nextJob ⟨[], ⟨[.letter, .letter]⟩⟩
    let asked := [(⟨1, 0⟩, Event.requestBase)]
    let turned := twoPages.run (asked ++ [(⟨2, 0⟩, .input (.setPage 2))])
    let zoomed := twoPages.run (asked ++ [(⟨2, 0⟩, .input (.setZoom 2))])
    twoPages.jobs asked = [job] ∧
      ((turned.applyBase job.run).1 = .ok true ∧
        job.ticket.page ≠ turned.store.state.currentPage) ∧
      ((zoomed.applyBase job.run).1 = .ok true ∧
        (job.ticket.zoom == zoomed.store.state.zoom) = false) := by
  intro job asked turned zoomed
  refine ⟨rfl, ⟨?_, by decide +kernel⟩, ?_, by decide +kernel⟩
  · exact (applyBase_eq_true _ _).mpr ⟨by decide +kernel, _, rfl⟩
  · exact (applyBase_eq_true _ _).mpr ⟨by decide +kernel, _, rfl⟩

end Workbench

end Marginalia
