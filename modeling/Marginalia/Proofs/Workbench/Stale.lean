import Marginalia.Proofs.Workbench.Export
import Marginalia.Proofs.Workbench.Views

/-!
# Results that come too late

What comes of a job is void when the job has been overtaken or has failed: a load that is not the
last one begun, or whose source failed; a page image whose ticket is out of date, or that could not
be drawn; an export of another document or revision, or one that was not composed, or whose bytes
are no document. Applying it leaves the whole workbench as it is, whenever it comes, so a run does
not depend on how many such results are strewn into it.
-/

namespace Marginalia

/-- Whether an event begins to load a document. -/
def Event.begins : Event → Bool
  | .beginLoad _ => true
  | _ => false

namespace Workbench

open Pdf (EngineError OpenDocument)

/-! ## Void results -/

/-- The results that are void for a workbench: those of jobs that have been overtaken, and those of
jobs that have failed. -/
inductive Void (w : Workbench) : Event → Prop where
  | overtakenLoad (ticket : LoadTicket) (result : LoadResult)
      (h : ticket.generation ≠ w.loadGeneration) : Void w (.applyLoad ⟨ticket, result⟩)
  | failedLoad (ticket : LoadTicket) (cause : RetrievalError) :
      Void w (.applyLoad ⟨ticket, .error (.retrieval cause)⟩)
  | overtakenBase (ticket : Render.BaseTicket) (result : Except EngineError Render.Image)
      (h : ticket.generation ≠ w.pipeline.generation) : Void w (.applyBase ⟨ticket, result⟩)
  | failedBase (ticket : Render.BaseTicket) (cause : EngineError) :
      Void w (.applyBase ⟨ticket, .error cause⟩)
  | otherExport (job : ExportJob) (result : Except Export.ExportError Export.Composed)
      (h : ∀ active, w.active = some active →
        active.id ≠ job.documentId ∨ active.revision ≠ job.revision) :
      Void w (.applyExport ⟨job, result⟩)
  | failedExport (job : ExportJob) (cause : Export.ExportError) :
      Void w (.applyExport ⟨job, .error cause⟩)
  | unreadableExport (job : ExportJob) (composed : Export.Composed) (cause : EngineError)
      (h : OpenDocument.ofBytes composed.bytes = .error cause) :
      Void w (.applyExport ⟨job, .ok composed⟩)

theorem isCurrent_eq_false {w : Workbench} {job : ExportJob}
    (h : ∀ active, w.active = some active →
      active.id ≠ job.documentId ∨ active.revision ≠ job.revision) : w.isCurrent job = false := by
  unfold isCurrent
  cases hactive : w.active with
  | none => rfl
  | some active =>
    rw [Option.any_some, Bool.and_eq_false_iff]
    exact (h active hactive).imp decide_eq_false decide_eq_false

/-- A void result changes nothing. -/
theorem step_void {w : Workbench} {event : Event} (h : w.Void event) (now : Instant) :
    w.step now event = w := by
  cases h with
  | overtakenLoad ticket result h => rw [step, applyLoad, if_pos h]
  | failedLoad ticket cause =>
    rw [step, applyLoad]
    split <;> rfl
  | overtakenBase ticket result h =>
    have hold : w.pipeline.isCurrent ticket = false := decide_eq_false h
    rw [step, applyBase, Render.Pipeline.acceptBase, hold]
    rfl
  | failedBase ticket cause =>
    rw [step, applyBase, Render.Pipeline.acceptBase]
    cases w.pipeline.isCurrent ticket <;> rfl
  | otherExport job result h =>
    exact congrArg Prod.snd
      (w.applyExport_of_not_current now ⟨job, result⟩ (isCurrent_eq_false h))
  | failedExport job cause =>
    rw [step, applyExport]
    cases w.active with
    | none => rfl
    | some active => cases w.isCurrent job <;> rfl
  | unreadableExport job composed cause h =>
    rw [step, applyExport]
    cases w.active with
    | none => rfl
    | some active =>
      dsimp only
      rw [h]
      cases w.isCurrent job <;> rfl

/-! ## Runs with void results in between -/

/-- Void results are strewn into a run, as many as there may be and each where it is void. -/
inductive Strewn : Workbench → List (Instant × Event) → List (Instant × Event) → Prop where
  | nil (w : Workbench) : Strewn w [] []
  | kept {w : Workbench} {now : Instant} {event : Event}
      {events strewn : List (Instant × Event)} (h : Strewn (w.step now event) events strewn) :
      Strewn w ((now, event) :: events) ((now, event) :: strewn)
  | void {w : Workbench} {now : Instant} {event : Event} {events strewn : List (Instant × Event)}
      (hvoid : w.Void event) (h : Strewn w events strewn) :
      Strewn w events ((now, event) :: strewn)

theorem run_strewn {w : Workbench} {events strewn : List (Instant × Event)}
    (h : Strewn w events strewn) : w.run strewn = w.run events := by
  induction h with
  | nil w => rfl
  | kept h ih => exact ih
  | @void w now event events strewn hvoid h ih =>
    calc w.run ((now, event) :: strewn) = (w.step now event).run strewn := rfl
      _ = w.run strewn := by rw [step_void hvoid]
      _ = w.run events := ih

/-! ## Overtaken jobs -/

@[simp]
theorem handle_loadGeneration (w : Workbench) (now : Instant) (input : Input) :
    (w.handle now input).2.loadGeneration = w.loadGeneration := by
  unfold handle
  dsimp only
  split
  · rw [persist_loadGeneration]
  · rfl

theorem replaceDocument_loadGeneration (w : Workbench) (now : Instant) (active : ActiveDocument)
    (job : ExportJob) (document : OpenDocument) :
    (w.replaceDocument now active job document).loadGeneration = w.loadGeneration := by
  unfold replaceDocument
  dsimp only
  rw [persist_loadGeneration]
  rfl

theorem applyLoad_loadGeneration (w : Workbench) (now : Instant) (outcome : LoadOutcome) :
    (w.applyLoad now outcome).2.loadGeneration = w.loadGeneration := by
  unfold applyLoad
  split
  · rfl
  · split
    · exact w.install_loadGeneration now _
    · rfl
    · rfl

/-- Loads are numbered as they are begun, and by nothing else. -/
theorem step_loadGeneration (w : Workbench) (now : Instant) (event : Event) :
    (w.step now event).loadGeneration = w.loadGeneration + event.begins.toNat := by
  cases event with
  | applyLoad outcome => exact w.applyLoad_loadGeneration now outcome
  | applyExport outcome =>
    rcases w.applyExport_cases now outcome with ⟨hsame, _⟩ | ⟨active, document, _, _, hnext⟩
    · exact congrArg loadGeneration hsame
    · calc (w.applyExport now outcome).2.loadGeneration =
            (w.replaceDocument now active outcome.job document).loadGeneration :=
          congrArg loadGeneration hnext
        _ = w.loadGeneration := w.replaceDocument_loadGeneration now active outcome.job document
  | input input => exact w.handle_loadGeneration now input
  | requestBase =>
    simp only [step, requestBase]
    split <;> rfl
  | paint =>
    simp only [step, paint]
    split <;> rfl
  | _ => rfl

theorem run_loadGeneration (w : Workbench) (events : List (Instant × Event)) :
    (w.run events).loadGeneration = w.loadGeneration + events.countP fun e ↦ e.2.begins := by
  induction events generalizing w with
  | nil => rfl
  | cons first rest ih =>
    have hstep := w.step_loadGeneration first.1 first.2
    rw [run_cons, ih, hstep, List.countP_cons]
    cases first.2.begins
    · simp
    · simp
      omega

/-- A load that was begun is overtaken when another one is begun, and not before. -/
theorem overtaken_load_iff (w : Workbench) (id : DocumentId) (since : List (Instant × Event)) :
    (w.beginLoad id).1.generation ≠ ((w.beginLoad id).2.run since).loadGeneration ↔
      ∃ e ∈ since, e.2.begins = true := by
  rw [run_loadGeneration, ← List.countP_pos_iff]
  change w.loadGeneration + 1 ≠ w.loadGeneration + 1 + _ ↔ _
  omega

/-- A page image that was asked for is overtaken when an event makes the tickets void, and not
before. -/
theorem overtaken_base_iff {w : Workbench} {job : BaseJob} (hjob : w.requestBase.1 = .ok job)
    (since : List (Instant × Event)) :
    job.ticket.generation ≠ (w.requestBase.2.run since).pipeline.generation ↔
      happens supersedes w.requestBase.2 since = true := by
  have hlatest : job.ticket.generation = w.requestBase.2.pipeline.generation := by
    unfold requestBase at hjob ⊢
    cases hdocument : w.document with
    | none =>
      rw [hdocument] at hjob
      cases hjob
    | some document =>
      rw [hdocument] at hjob
      cases hjob
      rfl
  rw [hlatest, ne_comm, ne_eq, (run_generation _ since).2, Bool.not_eq_false]

/-- A void result changes nothing, and a run ends in the same workbench however many of them are
strewn into it. What comes of a load is void from the time another one is begun, and what comes of a
page image from the time an event makes its ticket void. -/
theorem void_changes_nothing (w : Workbench) :
    (∀ now event, w.Void event → w.step now event = w) ∧
      (∀ events strewn, Strewn w events strewn → w.run strewn = w.run events) ∧
      (∀ id since, (∃ e ∈ since, e.2.begins = true) → ∀ result,
        ((w.beginLoad id).2.run since).Void (.applyLoad ⟨(w.beginLoad id).1, result⟩)) ∧
      ∀ job since, w.requestBase.1 = .ok job → happens supersedes w.requestBase.2 since = true →
        ∀ result, (w.requestBase.2.run since).Void (.applyBase ⟨job.ticket, result⟩) := by
  refine ⟨fun now event hvoid ↦ step_void hvoid now, fun events strewn ↦ run_strewn, ?_, ?_⟩
  · intro id since hbegun result
    exact Void.overtakenLoad _ result ((w.overtaken_load_iff id since).mpr hbegun)
  · intro job since hjob hlater result
    exact Void.overtakenBase _ result ((overtaken_base_iff hjob since).mpr hlater)

/-- An image of a page is asked for, a load is begun and another image is asked for. A drawing that
fails, the result of an earlier load, the first image and an export of an earlier revision come in
between. -/
theorem void_changes_nothing_between :
    let job := twoPages.nextJob ⟨[], ⟨[.letter, .letter]⟩⟩
    let loaded : LoadedDocument := ⟨⟨"a"⟩, ⟨[], ⟨[.letter]⟩⟩, none, none, false⟩
    let exported : ExportJob := ⟨⟨"a"⟩, 0, none, ⟨[], []⟩, [], .empty⟩
    let events : List (Instant × Event) :=
      [(⟨1, 0⟩, .requestBase), (⟨2, 0⟩, .beginLoad ⟨"b"⟩), (⟨3, 0⟩, .requestBase)]
    let strewn : List (Instant × Event) :=
      [(⟨1, 0⟩, .requestBase), (⟨1, 1⟩, .applyBase ⟨job.ticket, .error .parse⟩),
        (⟨2, 0⟩, .beginLoad ⟨"b"⟩), (⟨2, 1⟩, .applyLoad ⟨⟨1, ⟨"a"⟩⟩, .ok loaded⟩),
        (⟨3, 0⟩, .requestBase), (⟨3, 1⟩, .applyBase job.run),
        (⟨3, 2⟩, .applyExport ⟨exported, .ok ⟨[], .empty⟩⟩)]
    Strewn twoPages events strewn ∧ twoPages.run strewn = twoPages.run events := by
  intro job loaded exported events strewn
  have hstrewn : Strewn twoPages events strewn := by
    refine .kept (.void (.failedBase _ _) (.kept (.void (.overtakenLoad _ _ ?_) (.kept
      (.void (.overtakenBase _ _ ?_) (.void (.otherExport _ _ ?_) (.nil _)))))))
    · decide +kernel
    · decide +kernel
    · intro active hactive
      cases hactive
      exact Or.inr (by decide)
  exact ⟨hstrewn, (void_changes_nothing twoPages).2.1 events strewn hstrewn⟩

end Workbench

end Marginalia
