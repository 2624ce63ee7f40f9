import Marginalia.Proofs.Geometry.Equality
import Marginalia.Proofs.Workbench.Snapshots

/-!
# Loading the open document again

A load of the document that is open puts it back to the session that was queued last. This session
is one of the same document and suits it, and all that was queued before is on disk when it is read,
so nothing is lost but what had not been queued: the moves of a drag under way, and the zoom of
fingers that still touch.
-/

namespace Marginalia

open AnnotationSet

namespace Store

/-! ## Restoring what suits the document -/

theorem setPage_content (s : Store) {page : Nat}
    (h : 1 ≤ page ∧ page ≤ max s.state.totalPages 1) :
    (s.setPage page).2.content = (s.annotations, page, s.state.zoom) := by
  have hclamp : s.state.clampPage page = page := by
    unfold EditorState.clampPage
    omega
  rw [setPage, hclamp]
  dsimp only
  split
  · next heq =>
    rw [heq]
    rfl
  · rfl

theorem setZoom_content (s : Store) {zoom : Scalar} (h : IsZoom zoom) :
    (s.setZoom zoom).2.content = (s.annotations, s.state.currentPage, zoom) := by
  rw [setZoom, h.clampZoom_eq]
  dsimp only
  split
  · next heq =>
    rw [h.eq_of_beq heq]
    rfl
  · rfl

/-- A session that suits the document is restored as it is. -/
theorem content_restored (s : Store) {session : Session}
    (h : session.Suits s.state.totalPages) :
    (((s.restore session.annotations).setPage session.currentPage).2.setZoom
      session.zoom).2.content = (session.annotations, session.currentPage, session.zoom) := by
  obtain ⟨bound, hsound⟩ := h.annotations
  have hpage := (s.restore session.annotations).setPage_content h.currentPage
  have hkept : (s.restore session.annotations).annotations = session.annotations :=
    admissible_of_sound hsound
  rw [hkept] at hpage
  obtain ⟨hannotations, hcurrent⟩ := Prod.mk.inj hpage
  rw [setZoom_content _ h.zoom, hannotations, (Prod.mk.inj hcurrent).1]

end Store

/-- A session can be read again from its file: it fits the fields, its annotations are finite, and
its numbers read back. -/
structure Session.Recoverable (session : Session) : Prop where
  fits : session.FitsFields
  finite : areFinite session.annotations.scalars = true
  readsBack : ∀ x ∈ session.scalars, x.ReadsBack

theorem Session.Recoverable.exists_decode? {session : Session} {pages : Nat}
    (h : session.Recoverable) (hsuits : session.Suits pages) :
    ∃ savedAt, decode? session.encode = some { session with savedAt } := by
  obtain ⟨savedAt, hdecode⟩ := session.decode?_encode h.fits h.readsBack
  refine ⟨savedAt, ?_⟩
  rw [hdecode, read?, hsuits.areFinite_scalars, if_pos h.finite]

namespace Workbench

/-! ## The session that a load goes back to -/

/-- The writer has kept the order of the sessions, of which one was queued last; and while a
document is open, that is one of the document and suits it. -/
structure Resumable (known : Option Session) (w : Workbench) : Prop where
  writer : ∃ writer queued written dealt taken marks, w.sessions = some writer ∧
    writer.Ordered queued written dealt taken marks ∧ queued.getLast? = known
  session : ∀ active, w.active = some active → ∃ session, known = some session ∧
    session.documentId = active.id ∧ session.Suits w.store.state.totalPages

theorem resumable_new (settings : Settings) (library : Font.Library)
    (rasterizer : Render.Rasterizer) {folder : Folder} (h : folder.TakesSessions) :
    (new settings library rasterizer (some folder)).Resumable none :=
  ⟨⟨_, _, _, _, _, _, rfl, SessionWriter.ordered_new h, rfl⟩, fun _ hactive ↦ nomatch hactive⟩

theorem Resumable.step {known : Option Session} {w : Workbench} (h : w.Resumable known)
    (hw : w.Coherent) (now : Instant) (event : Event) :
    (w.step now event).Resumable ((w.step now event).waiting?.or known) := by
  obtain ⟨writer, queued, written, dealt, taken, marks, hwriter, hordered, hlast⟩ := h.writer
  rcases w.step_savesOrKeeps now event with
    ⟨active, hactive, sessions, hwrites, hsessions⟩ | ⟨hactive, hwrites⟩
  · obtain ⟨events, hnone, rfl⟩ := hwrites writer hwriter
    obtain ⟨dealt', taken', more, hrun⟩ := hordered.run events
    have hsaved := hrun.save (sessionOf active (w.step now event).store now)
    rw [Option.map_some] at hsessions
    have hwaiting : (w.step now event).waiting? =
        some (sessionOf active (w.step now event).store now) := by
      rw [waiting?, hsessions]
      exact SessionWriter.newest?_save _ _
    rw [hwaiting]
    refine ⟨⟨_, _, _, _, _, _, hsessions, hsaved, List.getLast?_concat⟩, ?_⟩
    intro other hother
    obtain rfl := Option.some.inj (hactive.symm.trans hother)
    exact ⟨_, rfl, rfl, suits_sessionOf active (hw.step now event).store now⟩
  · obtain ⟨events, hnone, hsessions⟩ := hwrites writer hwriter
    obtain ⟨dealt', taken', more, hrun⟩ := hordered.run events
    rw [hnone, List.append_nil] at hrun
    -- A session that waits is the last of all those queued.
    have hknown : (w.step now event).waiting?.or known = known := by
      rw [waiting?, hsessions]
      cases hnewest : (writer.run events).newest? with
      | none => simp [hnewest]
      | some session =>
        have hwaiting : (SessionWriter.waiting (writer.run events).queue).getLast? =
            some session := hnewest
        rw [hrun.queued_eq, List.getLast?_append, hwaiting] at hlast
        simp [hnewest, ← hlast]
    rw [hknown]
    refine ⟨⟨_, _, _, _, _, _, hsessions, hrun, hlast⟩, ?_⟩
    intro active hopen
    obtain ⟨hbefore, hpages⟩ := hactive active hopen
    rw [hpages]
    exact h.session active hbefore

theorem Resumable.run {known : Option Session} {w : Workbench} (h : w.Resumable known)
    (hw : w.Coherent) (events : List (Instant × Event)) :
    (w.run events).Resumable (lastQueued known w events) := by
  induction events generalizing known w with
  | nil => exact h
  | cons first rest ih => exact ih (h.step hw first.1 first.2) (hw.step first.1 first.2)

/-! ## Loading again -/

/-- The outcome of a load that counts: it was begun last and has brought the open document, with as
many pages as before. -/
structure Reloads (w : Workbench) (active : ActiveDocument) (outcome : LoadOutcome) : Prop where
  current : outcome.ticket.generation = w.loadGeneration
  loaded : ∃ loaded, outcome.result = .ok loaded ∧ loaded.id = active.id ∧
    loaded.document.info.pageCount = w.store.state.totalPages

/-- Resuming goes back to the session that is loaded, if it is one of the open document. -/
theorem resume_content {w : Workbench} {writer : SessionWriter} {active : ActiveDocument}
    {s : Session} (hwriter : w.sessions = some writer) (hactive : w.active = some active)
    (hload : writer.load.1 = .ok (some s)) (hid : s.documentId = active.id)
    (hsuits : s.Suits w.store.state.totalPages) :
    w.resume.store.content = (s.annotations, s.currentPage, s.zoom) := by
  rw [← w.store.content_restored hsuits, resume, hwriter, hactive]
  dsimp only
  rw [hload]
  simp only [hid, if_true]

/-- Whatever had been done since, a load of the open document goes back to the session that was
queued last. -/
theorem Resumable.applyLoad_content {known : Option Session} {w : Workbench}
    (h : w.Resumable known) {active : ActiveDocument} (hopen : w.active = some active)
    {outcome : LoadOutcome} (hreloads : w.Reloads active outcome) (now : Instant)
    (hrecovers : ∀ session, known = some session → session.Recoverable) :
    ∃ session, known = some session ∧ (w.applyLoad now outcome).2.store.content =
      (session.annotations, session.currentPage, session.zoom) := by
  obtain ⟨session, hknown, hid, hsuits⟩ := h.session active hopen
  obtain ⟨writer, queued, written, dealt, taken, marks, hwriter, hordered, hlast⟩ := h.writer
  obtain ⟨hcurrent, loaded, hresult, hsame, hpages⟩ := hreloads
  obtain ⟨savedAt, hdecode⟩ := (hrecovers session hknown).exists_decode? hsuits
  have hload := hordered.load_eq (hlast.trans hknown)
  rw [hdecode] at hload
  refine ⟨session, hknown, ?_⟩
  rw [applyLoad, if_neg (not_not_intro hcurrent), hresult]
  dsimp only
  rw [install, persist_store]
  have hstill : Session.Suits loaded.document.info.pageCount { session with savedAt } :=
    hpages ▸ ⟨hsuits.annotations, hsuits.currentPage, hsuits.zoom⟩
  exact resume_content (s := { session with savedAt }) hwriter rfl hload
    (hid.trans hsame.symm) hstill

/-- In every run over a folder where saving works, a load of the document that is open, with as many
pages, goes back to the annotations, the page and the zoom of the session that was queued last, if
that one can be read again. Unless a drag has moved something or fingers zoom, these are the ones
that were there before. -/
theorem applyLoad_restores (settings : Settings) (library : Font.Library)
    (rasterizer : Render.Rasterizer) (folder : Folder) (htakes : folder.TakesSessions)
    (events : List (Instant × Event)) (active : ActiveDocument)
    (hopen : ((new settings library rasterizer (some folder)).run events).active = some active)
    (now : Instant) (outcome : LoadOutcome)
    (hreloads : ((new settings library rasterizer (some folder)).run events).Reloads active outcome)
    (hrecovers : ∀ session,
      lastQueued none (new settings library rasterizer (some folder)) events = some session →
        session.Recoverable) :
    let w := (new settings library rasterizer (some folder)).run events
    let reloaded := (w.applyLoad now outcome).2
    (∃ session, lastQueued none (new settings library rasterizer (some folder)) events =
        some session ∧
      reloaded.store.content = (session.annotations, session.currentPage, session.zoom)) ∧
    (w.controller.defers = false → reloaded.store.content = w.store.content) := by
  intro w reloaded
  have hresumable := (resumable_new settings library rasterizer htakes).run
    (coherent_new settings library rasterizer (some folder)) events
  obtain ⟨session, hknown, hcontent⟩ :=
    hresumable.applyLoad_content hopen hreloads now hrecovers
  refine ⟨⟨session, hknown, hcontent⟩, fun hrest ↦ ?_⟩
  obtain ⟨other, hother, hshows⟩ :=
    ((autosaved_new settings library rasterizer folder).run events).shows active hopen hrest
  obtain rfl := Option.some.inj (hknown.symm.trans hother)
  rw [hcontent, hshows.annotations, hshows.currentPage, hshows.zoom]
  rfl

/-- The load that brings the open document of these runs once more. -/
def again (w : Workbench) : LoadOutcome :=
  ⟨⟨w.loadGeneration, ⟨"a"⟩⟩, .ok ⟨⟨"a"⟩, ⟨[], ⟨[.letter]⟩⟩, none, none, false⟩⟩

theorem reloads_again {w : Workbench} (h : w.store.state.totalPages = 1) :
    w.Reloads sheet w.again :=
  ⟨rfl, _, rfl, rfl, h.symm⟩

/-- What such a load makes of a workbench. -/
def reload (w : Workbench) : Workbench := (w.applyLoad ⟨2, 0⟩ w.again).2

/-- A workbench that saves, with a patch that has been drawn. -/
def drawn : Workbench :=
  (new (.standard []) .empty Render.blank (some .empty)).run
    (opening ++ drawing.map (Prod.map id Event.input))

theorem lastQueued_drawn :
    lastQueued none (new (.standard []) .empty Render.blank (some .empty))
        (opening ++ drawing.map (Prod.map id Event.input)) =
      some (sessionOf sheet drawn.store ⟨0, 0⟩) := by
  decide +kernel

theorem recoverable_drawn : (sessionOf sheet drawn.store ⟨0, 0⟩).Recoverable := by
  refine ⟨⟨⟨?_, ?_⟩, ?_⟩, ?_, ?_⟩ <;> decide +kernel

/-- The patch that has been drawn is still there. -/
theorem applyLoad_restores_drawing :
    drawn.active = some sheet ∧ drawn.store.annotations ≠ .empty ∧
      drawn.reload.store.content = drawn.store.content := by
  have hopen : drawn.active = some sheet := by decide +kernel
  have hpages : drawn.store.state.totalPages = 1 := by decide +kernel
  refine ⟨hopen, by decide +kernel, ?_⟩
  have hrecovers : ∀ session, lastQueued none (new (.standard []) .empty Render.blank (some .empty))
      (opening ++ drawing.map (Prod.map id Event.input)) = some session → session.Recoverable := by
    intro session hsession
    obtain rfl := Option.some.inj (lastQueued_drawn.symm.trans hsession)
    exact recoverable_drawn
  have hreloads : drawn.Reloads sheet drawn.again := reloads_again hpages
  have hrestores := applyLoad_restores (.standard []) .empty Render.blank .empty
    takesSessions_empty (opening ++ drawing.map (Prod.map id Event.input)) sheet hopen ⟨2, 0⟩
    drawn.again hreloads hrecovers
  have hkept := hrestores.2 (by decide +kernel)
  simpa only [reload, drawn] using hkept

/-- As long as inputs have no session saved, a load takes back what they did. -/
theorem content_drawn_again (inputs : List (Instant × Input))
    (hopen : (drawn.handleAll inputs).active = some sheet)
    (hpages : (drawn.handleAll inputs).store.state.totalPages = 1)
    (hlast : lastQueued (some (sessionOf sheet drawn.store ⟨0, 0⟩)) drawn
      (inputs.map (Prod.map id Event.input)) = some (sessionOf sheet drawn.store ⟨0, 0⟩)) :
    (drawn.handleAll inputs).reload.store.content = drawn.store.content := by
  have hcoherent := coherent_new (.standard []) .empty Render.blank (some .empty)
  have hbefore := (resumable_new (.standard []) .empty Render.blank takesSessions_empty).run
    hcoherent (opening ++ drawing.map (Prod.map id Event.input))
  rw [lastQueued_drawn] at hbefore
  have hafter := hbefore.run (hcoherent.run _) (inputs.map (Prod.map id Event.input))
  obtain ⟨session, hsession, hcontent⟩ := hafter.applyLoad_content hopen (reloads_again hpages)
    ⟨2, 0⟩ fun session hsession ↦ Option.some.inj (hlast.symm.trans hsession) ▸ recoverable_drawn
  obtain rfl := Option.some.inj (hlast.symm.trans hsession)
  exact hcontent

/-- A load of the open document takes back the moves of a drag under way and the zoom of fingers
that still touch, although everything is finite. -/
theorem applyLoad_during_gestures :
    let drag : List (Instant × Input) :=
      [.pointerDown (pointerAt 20 20), .pointerMove (pointerAt 30 25)].map
        fun input ↦ (⟨1, 0⟩, input)
    let pinch : List (Instant × Input) :=
      [.pointerDown ⟨⟨0, 0⟩, .primary, some 1⟩, .pointerDown ⟨⟨100, 0⟩, .primary, some 2⟩,
        .pointerMove ⟨⟨200, 0⟩, .primary, some 2⟩].map fun input ↦ (⟨1, 0⟩, input)
    areFinite (drawn.handleAll drag).store.annotations.scalars = true ∧
      (drawn.handleAll drag).reload.store.annotations ≠
        (drawn.handleAll drag).store.annotations ∧
      areFinite (drawn.handleAll pinch).store.annotations.scalars = true ∧
      (drawn.handleAll pinch).reload.store.state.zoom ≠
        (drawn.handleAll pinch).store.state.zoom := by
  intro drag pinch
  have hdrag := content_drawn_again drag (by decide +kernel) (by decide +kernel) (by decide +kernel)
  have hpinch := content_drawn_again pinch (by decide +kernel) (by decide +kernel)
    (by decide +kernel)
  obtain ⟨hannotations, -⟩ := Prod.mk.inj hdrag
  obtain ⟨-, hview⟩ := Prod.mk.inj hpinch
  obtain ⟨-, hzoom⟩ := Prod.mk.inj hview
  refine ⟨by decide +kernel, ?_, by decide +kernel, ?_⟩
  · rw [hannotations]
    decide +kernel
  · rw [hzoom]
    decide +kernel

end Workbench

end Marginalia
