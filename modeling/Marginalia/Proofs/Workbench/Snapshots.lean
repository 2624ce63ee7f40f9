import Marginalia.Proofs.Session.Reading
import Marginalia.Proofs.Session.Settling
import Marginalia.Proofs.Workbench.Autosave
import Marginalia.Proofs.Workbench.Undo

/-!
# The sessions of a workbench

Whatever happens to a workbench happens to its writer as some events, and at most one session is
queued by it, which shows the workbench as it is afterwards. So every session that waits to be
written suits a document: its annotations are sound, its page exists and its zoom is allowed. Such a
session can be read again exactly if the coordinates and sizes of its annotations are finite.
-/

namespace Marginalia

open AnnotationSet

namespace SessionWriter

theorem mem_waiting_perform {w : SessionWriter} {event : Event} {session : Session}
    (h : session ∈ waiting (w.perform event).queue) :
    session ∈ waiting w.queue ∨ event.session? = some session := by
  cases event with
  | save other =>
    rw [perform, save, waiting, List.filterMap_append] at h
    rcases List.mem_append.mp h with hold | hnew
    · exact Or.inl hold
    · exact Or.inr (congrArg some (List.mem_singleton.mp hnew).symm)
  | flush =>
    rw [perform, requestFlush, waiting, List.filterMap_append] at h
    rcases List.mem_append.mp h with hold | hnew
    · exact Or.inl hold
    · cases hnew
  | write =>
    have hrest : ∀ command rest, w.queue = command :: rest → session ∈ waiting rest →
        session ∈ waiting w.queue := by
      intro command rest hqueue hmem
      rw [hqueue, waiting]
      exact (List.sublist_cons_self command rest).filterMap _ |>.subset hmem
    rw [perform, step.eq_def] at h
    left
    split at h
    · exact h
    · next command rest _ hqueue => exact hrest command rest hqueue h
    · next command rest _ hqueue => exact hrest command rest hqueue h
    · exact h
    · exact h

/-- What waits after some events waited before them or was queued by them. -/
theorem mem_waiting_run {w : SessionWriter} {events : List Event} {session : Session}
    (h : session ∈ waiting (w.run events).queue) :
    session ∈ waiting w.queue ∨ session ∈ queued events := by
  induction events generalizing w with
  | nil => exact Or.inl h
  | cons event rest ih =>
    rcases ih (w := w.perform event) h with hwaiting | hlater
    · rcases mem_waiting_perform hwaiting with hold | hnew
      · exact Or.inl hold
      · exact Or.inr (List.mem_filterMap.mpr ⟨event, List.mem_cons_self, hnew⟩)
    · exact Or.inr ((List.sublist_cons_self event rest).filterMap _ |>.subset hlater)

end SessionWriter

namespace Store

/-- Only opening a document changes the number of pages. -/
theorem Edit.totalPages_eq {s s' : Store} {kind : EditKind} (h : Edit s kind s')
    (hkind : kind ≠ .replace) : s'.state.totalPages = s.state.totalPages := by
  cases h <;> first | rfl | exact absurd rfl hkind

theorem totalPages_run (s : Store) (operations : List Operation)
    (h : ∀ operation ∈ operations, operation.isEdit = true) :
    (s.run operations).state.totalPages = s.state.totalPages := by
  induction operations generalizing s with
  | nil => rfl
  | cons operation rest ih =>
    have hfirst : (s.apply operation).2.state.totalPages = s.state.totalPages := by
      rcases (s.answered_apply operation).same_or_done with hsame | ⟨-, hedit⟩
      · exact congrArg (fun s ↦ s.state.totalPages) hsame
      · exact hedit.totalPages_eq (operation.editKind_ne_replace (h operation List.mem_cons_self))
    exact (ih (s.apply operation).2 fun other hother ↦
      h other (List.mem_cons_of_mem _ hother)).trans hfirst

end Store

/-- A session suits a document of a number of pages: its annotations are sound for it, its page
exists, and its zoom is allowed. -/
structure Session.Suits (pages : Nat) (session : Session) : Prop where
  annotations : ∃ bound, Sound pages bound session.annotations
  currentPage : 1 ≤ session.currentPage ∧ session.currentPage ≤ max pages 1
  zoom : IsZoom session.zoom

/-- The zoom of such a session is finite. -/
theorem Session.Suits.areFinite_scalars {pages : Nat} {session : Session}
    (h : session.Suits pages) :
    areFinite session.scalars = areFinite session.annotations.scalars := by
  rw [areFinite, scalars, List.all_cons, h.zoom.finite, Bool.true_and]
  rfl

namespace Workbench

theorem suits_sessionOf (active : ActiveDocument) {s : Store} (h : s.Invariant) (now : Instant) :
    (sessionOf active s now).Suits s.state.totalPages :=
  ⟨⟨_, h.live⟩, h.view.page, h.view.zoom⟩

/-- The writer goes through some events that queue nothing. -/
def Writes (before after : Option SessionWriter) : Prop :=
  ∀ writer, before = some writer →
    ∃ events, SessionWriter.queued events = [] ∧ after = some (writer.run events)

theorem Writes.rfl (sessions : Option SessionWriter) : Writes sessions sessions :=
  fun _ hwriter ↦ ⟨[], by rfl, hwriter⟩

/-- What an event does to document and writer: a document is open afterwards and its session is
queued as it is then, or nothing is queued and the document, if one is open, is the one before. -/
inductive SavesOrKeeps (w : Workbench) (now : Instant) (w' : Workbench) : Prop
  | saved (active : ActiveDocument) (hactive : w'.active = some active)
    (sessions : Option SessionWriter) (hwrites : Writes w.sessions sessions)
    (hsessions : w'.sessions = sessions.map fun writer ↦
      writer.save (sessionOf active w'.store now))
  | kept (hactive : ∀ active, w'.active = some active → w.active = some active ∧
      w'.store.state.totalPages = w.store.state.totalPages)
    (hwrites : Writes w.sessions w'.sessions)

theorem savesOrKeeps_of_same {w w' : Workbench} {now : Instant} (hactive : w'.active = w.active)
    (hstore : w'.store = w.store) (hsessions : w'.sessions = w.sessions) :
    w.SavesOrKeeps now w' := by
  refine .kept ?_ ?_
  · intro active hopen
    exact ⟨hactive ▸ hopen, by rw [hstore]⟩
  · rw [hsessions]
    exact .rfl _

/-- Saving with a document open. -/
theorem savesOrKeeps_persist {w before : Workbench} {now : Instant} {active : ActiveDocument}
    (hactive : before.active = some active) (hwrites : Writes w.sessions before.sessions) :
    w.SavesOrKeeps now (before.persist now) := by
  refine .saved active (by rw [persist_active, hactive]) before.sessions hwrites ?_
  rw [persist_store, persist]
  cases hsessions : before.sessions with
  | none => exact hsessions
  | some writer =>
    rw [hactive]
    rfl

theorem SavesOrKeeps.withLoader {w w' : Workbench} {now : Instant} (h : w.SavesOrKeeps now w')
    (loader : Option Loader) : w.SavesOrKeeps now { w' with loader } := by
  cases h with
  | saved active hactive sessions hwrites hsessions =>
    exact .saved active hactive sessions hwrites hsessions
  | kept hactive hwrites => exact .kept hactive hwrites

theorem writes_resume (w : Workbench) : Writes w.sessions w.resume.sessions := by
  intro writer hwriter
  rw [resume, hwriter]
  cases hactive : w.active with
  | none => exact ⟨[], by rfl, hwriter⟩
  | some active =>
    obtain ⟨events, hqueued, hflush⟩ := writer.flush_eq_run
    refine ⟨events, hqueued, ?_⟩
    rw [← hflush]
    dsimp only
    split
    · split <;> rfl
    · rfl

theorem handle_savesOrKeeps (w : Workbench) (now : Instant) (input : Input) :
    w.SavesOrKeeps now (w.handle now input).2 := by
  have hpages : (react w.controller w.store input).store.state.totalPages =
      w.store.state.totalPages := by
    rw [react_store]
    exact w.store.totalPages_run _ (isEdit_of_inputRequests _ _ _)
  unfold Workbench.handle
  dsimp only
  split
  · rcases Option.eq_none_or_eq_some w.active with hclosed | ⟨active, hopen⟩
    · rw [persist_of_closed]
      · refine .kept ?_ (.rfl _)
        intro active hactive
        exact absurd (hclosed.symm.trans hactive) (by simp)
      · exact hclosed
    · exact savesOrKeeps_persist hopen (.rfl _)
  · exact .kept (fun active hactive ↦ ⟨hactive, hpages⟩) (.rfl _)

theorem install_savesOrKeeps (w : Workbench) (now : Instant) (loaded : LoadedDocument) :
    w.SavesOrKeeps now (w.install now loaded) := by
  unfold Workbench.install
  dsimp only
  refine savesOrKeeps_persist (by rw [resume_active]) ?_
  exact writes_resume { w.cancelGesture with
    store := w.store.loadDocument loaded.document.info.pageCount
    pipeline := w.pipeline.invalidate
    active := some ⟨loaded.id, loaded.displayName, loaded.document, w.nextRevision⟩ }

theorem close_savesOrKeeps (w : Workbench) (now : Instant) : w.SavesOrKeeps now w.close := by
  refine .kept ?_ (.rfl _)
  intro active hactive
  cases hactive

theorem replaceDocument_savesOrKeeps (w : Workbench) (now : Instant) (active : ActiveDocument)
    (job : ExportJob) (document : Pdf.OpenDocument) :
    w.SavesOrKeeps now (w.replaceDocument now active job document) := by
  unfold Workbench.replaceDocument
  dsimp only
  refine SavesOrKeeps.withLoader ?_ _
  exact savesOrKeeps_persist rfl (.rfl _)

theorem applyExport_savesOrKeeps (w : Workbench) (now : Instant) (outcome : ExportOutcome) :
    w.SavesOrKeeps now (w.applyExport now outcome).2 := by
  have hsame : w.SavesOrKeeps now w := savesOrKeeps_of_same rfl rfl rfl
  unfold Workbench.applyExport
  split
  · exact hsame
  split
  · exact hsame
  split
  · exact hsame
  split
  · exact hsame
  · exact replaceDocument_savesOrKeeps w now _ _ _

/-- Every event leaves document and writer in one of these two ways. -/
theorem step_savesOrKeeps (w : Workbench) (now : Instant) (event : Event) :
    w.SavesOrKeeps now (w.step now event) := by
  have hsame : w.SavesOrKeeps now w := savesOrKeeps_of_same rfl rfl rfl
  cases event with
  | setLoader loader => exact savesOrKeeps_of_same rfl rfl rfl
  | beginLoad id => exact savesOrKeeps_of_same rfl rfl rfl
  | applyLoad outcome =>
    simp only [Workbench.step, Workbench.applyLoad]
    split
    · exact hsame
    · split
      · exact w.install_savesOrKeeps now _
      · exact w.close_savesOrKeeps now
      · exact hsame
  | close => exact w.close_savesOrKeeps now
  | requestBase =>
    simp only [Workbench.step, Workbench.requestBase]
    split
    · exact hsame
    · exact savesOrKeeps_of_same rfl rfl rfl
  | applyBase result => exact savesOrKeeps_of_same rfl rfl rfl
  | paint =>
    simp only [Workbench.step, Workbench.paint]
    split
    · exact hsame
    · exact savesOrKeeps_of_same rfl rfl rfl
  | runExport job => exact savesOrKeeps_of_same rfl rfl rfl
  | applyExport outcome => exact w.applyExport_savesOrKeeps now outcome
  | input input => exact w.handle_savesOrKeeps now input
  | setPendingText text => exact savesOrKeeps_of_same rfl rfl rfl
  | setTextStyle style => exact savesOrKeeps_of_same rfl rfl rfl
  | setRectColor color => exact savesOrKeeps_of_same rfl rfl rfl
  | flushSession =>
    refine .kept (fun active hactive ↦ ⟨hactive, rfl⟩) ?_
    intro writer hwriter
    obtain ⟨events, hqueued, hflush⟩ := writer.flush_eq_run
    refine ⟨events, hqueued, ?_⟩
    simp only [Workbench.step, Workbench.flushSession, hwriter, Option.map_some, hflush]
  | writeSession =>
    refine .kept (fun active hactive ↦ ⟨hactive, rfl⟩) ?_
    intro writer hwriter
    refine ⟨[.write], by rfl, ?_⟩
    simp only [Workbench.step, Workbench.writeSession, hwriter, Option.map_some]
    rfl

/-! ## Reading a session again -/

/-- The sessions that wait to be written. -/
def waitingSessions (w : Workbench) : List Session :=
  (w.sessions.map fun writer ↦ SessionWriter.waiting writer.queue).getD []

/-- There is a writer, and the sessions that wait suit documents. -/
def QueueSuits (w : Workbench) : Prop :=
  w.sessions.isSome = true ∧ ∀ session ∈ w.waitingSessions, ∃ pages, session.Suits pages

theorem QueueSuits.step {w : Workbench} (h : w.QueueSuits) (hw : w.Coherent) (now : Instant)
    (event : Event) : (w.step now event).QueueSuits := by
  obtain ⟨hattached, hsuits⟩ := h
  obtain ⟨writer, hwriter⟩ := Option.isSome_iff_exists.mp hattached
  -- What waits after events that queue nothing waited before.
  have hold : ∀ events, SessionWriter.queued events = [] → ∀ session,
      session ∈ SessionWriter.waiting (writer.run events).queue → ∃ pages, session.Suits pages := by
    intro events hqueued session hmem
    rcases SessionWriter.mem_waiting_run hmem with hwaiting | hnew
    · exact hsuits session (by rw [waitingSessions, hwriter]; exact hwaiting)
    · rw [hqueued] at hnew
      cases hnew
  rcases w.step_savesOrKeeps now event with ⟨active, -, sessions, hwrites, hsessions⟩ | ⟨-, hwrites⟩
  · obtain ⟨events, hqueued, rfl⟩ := hwrites writer hwriter
    refine ⟨by rw [hsessions]; rfl, ?_⟩
    intro session hmem
    rw [waitingSessions, hsessions] at hmem
    have hperformed : session ∈ SessionWriter.waiting ((writer.run events).perform
        (.save (sessionOf active (w.step now event).store now))).queue := hmem
    rcases SessionWriter.mem_waiting_perform hperformed with hwaiting | hnew
    · exact hold events hqueued session hwaiting
    · obtain rfl := Option.some.inj hnew
      exact ⟨_, suits_sessionOf active (hw.step now event).store now⟩
  · obtain ⟨events, hqueued, hsessions⟩ := hwrites writer hwriter
    refine ⟨by rw [hsessions]; rfl, ?_⟩
    intro session hmem
    rw [waitingSessions, hsessions] at hmem
    exact hold events hqueued session hmem

theorem QueueSuits.run {w : Workbench} (h : w.QueueSuits) (hw : w.Coherent)
    (events : List (Instant × Event)) : (w.run events).QueueSuits := by
  induction events generalizing w with
  | nil => exact h
  | cons first rest ih => exact ih (h.step hw first.1 first.2) (hw.step first.1 first.2)

/-- Whatever has happened, a session that was queued and then saved is loaded again as it was, but
for its time, if the coordinates and sizes of its annotations are finite; and if one is not, no
session is loaded. -/
theorem load_waiting (settings : Settings) (library : Font.Library)
    (rasterizer : Render.Rasterizer) (folder : Folder) (events : List (Instant × Event))
    (session : Session)
    (hqueued : session ∈
      ((new settings library rasterizer (some folder)).run events).waitingSessions)
    (disk : Folder) (hsave : (session.save disk).1 = .ok ()) (hfits : session.FitsFields)
    (hreads : ∀ x ∈ session.scalars, x.ReadsBack) :
    ∃ savedAt, Session.load (session.save disk).2 =
      .ok (if areFinite session.annotations.scalars then some { session with savedAt }
        else none) := by
  have hsuits : (new settings library rasterizer (some folder)).QueueSuits :=
    ⟨rfl, fun _ hmem ↦ nomatch hmem⟩
  obtain ⟨pages, hsession⟩ :=
    (hsuits.run (coherent_new settings library rasterizer (some folder)) events).2 session hqueued
  obtain ⟨savedAt, hload⟩ := Session.load_save hsave hfits hreads
  refine ⟨savedAt, ?_⟩
  rw [hload, Session.read?, hsession.areFinite_scalars]

/-- The open document of these runs. -/
def sheet : ActiveDocument := ⟨⟨"a"⟩, none, ⟨[], ⟨[.letter]⟩⟩, 1⟩

theorem takesSessions_empty : Folder.empty.TakesSessions := by
  constructor <;> decide

theorem save_empty (session : Session) : (session.save .empty).1 = .ok () := by
  obtain ⟨saved, hsaved, -⟩ := Session.save_of_takesSessions takesSessions_empty session
  rw [hsaved]

/-- The session with a patch that has been drawn is loaded as it was saved. -/
theorem load_waiting_drawing :
    let w := (new (.standard []) .empty Render.blank (some .empty)).run
      (opening ++ drawing.map (Prod.map id Event.input))
    let session := sessionOf sheet w.store ⟨0, 0⟩
    session ∈ w.waitingSessions ∧ session.annotations ≠ .empty ∧
      ∃ savedAt, Session.load (session.save .empty).2 = .ok (some { session with savedAt }) := by
  intro w session
  have hqueued : session ∈ w.waitingSessions := by decide +kernel
  have hfits : session.FitsFields := by
    refine ⟨⟨?_, ?_⟩, ?_⟩ <;> decide +kernel
  obtain ⟨savedAt, hload⟩ := load_waiting (.standard []) .empty Render.blank .empty
    (opening ++ drawing.map (Prod.map id Event.input)) session hqueued .empty
    (save_empty session) hfits (by decide +kernel)
  refine ⟨hqueued, by decide +kernel, savedAt, hload.trans ?_⟩
  rw [if_pos (by decide +kernel)]

/-- A label in a style whose size is finite can be too wide: then the session that is saved with it
is loaded as none at all. -/
theorem load_after_wide_label :
    let w := (new (.standard []) .empty Render.blank (some .empty)).run
      (opening ++ [(⟨0, 0⟩, .setPendingText "abc"),
        (⟨0, 0⟩, .setTextStyle ⟨3e38, .sans, .black⟩), (⟨0, 0⟩, .input (.setMode .addText)),
        (⟨0, 0⟩, .input (.pointerDown (pointerAt 10 50)))])
    let session := sessionOf sheet w.store ⟨0, 0⟩
    session ∈ w.waitingSessions ∧ (session.save .empty).1 = .ok () ∧
      Session.load (session.save .empty).2 = .ok none := by
  intro w session
  have hfits : session.FitsFields := by
    refine ⟨⟨?_, ?_⟩, ?_⟩ <;> decide +kernel
  obtain ⟨savedAt, hload⟩ := Session.load_save (save_empty session) hfits (by decide +kernel)
  refine ⟨by decide +kernel, save_empty session, hload.trans ?_⟩
  rw [Session.read?, if_neg (by decide +kernel)]

end Workbench

end Marginalia
