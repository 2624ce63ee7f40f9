import Mathlib.Data.List.Basic
import Mathlib.Data.List.Induction
import Marginalia.Proofs.Workbench.Coherence

/-!
# Page images and the document they show

A page image is drawn elsewhere from the document as it was when the image was asked for, and may
come back at any time. It is taken over only if its ticket is still the latest one. Every load,
close and export that changes the open document makes all tickets void and forgets the image in use.
So the image in use shows the open document, and was asked for last of all when it was taken over.
-/

namespace Marginalia

open Pdf (OpenDocument)
open Render (BaseLayer BaseResult Image Scene)

/-- Whether a result can come of a job: the page is drawn, or whoever draws it gives up. -/
def BaseJob.Yields (job : BaseJob) (result : BaseResult) : Prop :=
  result = job.run ∨ ∃ cause, result = ⟨job.ticket, .error cause⟩

theorem BaseJob.Yields.ticket_eq {job : BaseJob} {result : BaseResult} (h : job.Yields result) :
    result.ticket = job.ticket := by
  rcases h with rfl | ⟨cause, rfl⟩
  · rfl
  · rfl

/-- A result with an image is that of the drawing. -/
theorem BaseJob.Yields.eq_run {job : BaseJob} {result : BaseResult} (h : job.Yields result)
    {image : Image} (himage : result.result = .ok image) : result = job.run := by
  rcases h with hrun | ⟨cause, rfl⟩
  · exact hrun
  · cases himage

/-- A pipeline stays as it is, or takes over the image of its latest ticket. -/
theorem Render.Pipeline.acceptBase_cases (p : Pipeline) (r : BaseResult) :
    (p.acceptBase r).1 ≠ .ok true ∧ (p.acceptBase r).2 = p ∨
      ∃ image, r.ticket.generation = p.generation ∧ r.result = .ok image ∧
        p.acceptBase r =
          (.ok true, { p with base := some ⟨r.ticket.page, r.ticket.zoom, image⟩ }) := by
  unfold acceptBase isCurrent
  split
  · exact Or.inl ⟨by simp, rfl⟩
  · next hcurrent =>
    split
    · exact Or.inl ⟨by simp, rfl⟩
    · next image himage => exact Or.inr ⟨image, by simpa using hcurrent, himage, rfl⟩

namespace Workbench

/-! ## What an event does to the pipeline -/

@[simp]
theorem persist_pipeline (w : Workbench) (now : Instant) :
    (w.persist now).pipeline = w.pipeline := by
  obtain ⟨_, h⟩ := w.persist_eq now
  rw [h]

@[simp]
theorem resume_pipeline (w : Workbench) : w.resume.pipeline = w.pipeline := by
  obtain ⟨_, _, _, h⟩ := w.resume_eq
  rw [h]

@[simp]
theorem persist_rasterizer (w : Workbench) (now : Instant) :
    (w.persist now).rasterizer = w.rasterizer := by
  obtain ⟨_, h⟩ := w.persist_eq now
  rw [h]

@[simp]
theorem resume_rasterizer (w : Workbench) : w.resume.rasterizer = w.rasterizer := by
  obtain ⟨_, _, _, h⟩ := w.resume_eq
  rw [h]

@[simp]
theorem handle_pipeline (w : Workbench) (now : Instant) (input : Input) :
    (w.handle now input).2.pipeline = w.pipeline := by
  unfold handle
  dsimp only
  split
  · rw [persist_pipeline]
  · rfl

@[simp]
theorem handle_rasterizer (w : Workbench) (now : Instant) (input : Input) :
    (w.handle now input).2.rasterizer = w.rasterizer := by
  unfold handle
  dsimp only
  split
  · rw [persist_rasterizer]
  · rfl

theorem install_pipeline (w : Workbench) (now : Instant) (loaded : LoadedDocument) :
    (w.install now loaded).pipeline = w.pipeline.invalidate := by
  unfold install
  dsimp only
  rw [persist_pipeline, resume_pipeline]
  rfl

theorem install_rasterizer (w : Workbench) (now : Instant) (loaded : LoadedDocument) :
    (w.install now loaded).rasterizer = w.rasterizer := by
  unfold install
  dsimp only
  rw [persist_rasterizer, resume_rasterizer]
  rfl

theorem replaceDocument_pipeline (w : Workbench) (now : Instant) (active : ActiveDocument)
    (job : ExportJob) (document : OpenDocument) :
    (w.replaceDocument now active job document).pipeline = w.pipeline.invalidate := by
  unfold replaceDocument
  dsimp only
  rw [persist_pipeline]
  rfl

theorem replaceDocument_rasterizer (w : Workbench) (now : Instant) (active : ActiveDocument)
    (job : ExportJob) (document : OpenDocument) :
    (w.replaceDocument now active job document).rasterizer = w.rasterizer := by
  unfold replaceDocument
  dsimp only
  rw [persist_rasterizer]
  rfl

/-- An export either leaves the workbench as it is or puts a document in the place of the open
one. -/
theorem applyExport_cases (w : Workbench) (now : Instant) (outcome : ExportOutcome) :
    (w.applyExport now outcome).2 = w ∧
        (∀ artifact, (w.applyExport now outcome).1 ≠ .ok (some artifact)) ∨
      ∃ active document artifact, (w.applyExport now outcome).1 = .ok (some artifact) ∧
        (w.applyExport now outcome).2 = w.replaceDocument now active outcome.job document := by
  unfold applyExport
  split
  · exact Or.inl ⟨rfl, by simp⟩
  · next active _ =>
    split
    · exact Or.inl ⟨rfl, by simp⟩
    · split
      · exact Or.inl ⟨rfl, by simp⟩
      · split
        · exact Or.inl ⟨rfl, by simp⟩
        · next document _ => exact Or.inr ⟨active, document, _, rfl, rfl⟩

/-- Whether an event makes all tickets void: another one is issued, or the open document is closed
or another one is put in its place. -/
def supersedes (w : Workbench) (now : Instant) : Event → Bool
  | .requestBase => w.document.isSome
  | .close => true
  | .applyLoad outcome =>
    outcome.ticket.generation = w.loadGeneration &&
      match outcome.result with
      | .error (.retrieval _) => false
      | _ => true
  | .applyExport outcome =>
    match (w.applyExport now outcome).1 with
    | .ok (some _) => true
    | _ => false
  | _ => false

/-- How an event can change the page image in use, the number of the latest ticket and the open
document. -/
inductive Draws (w : Workbench) (now : Instant) : Event → Workbench → Prop where
  | kept (event : Event) (w' : Workbench) (hstands : w.supersedes now event = false)
      (hbase : w'.pipeline.base = w.pipeline.base)
      (hgeneration : w'.pipeline.generation = w.pipeline.generation)
      (hdocument : w'.document = w.document) : Draws w now event w'
  | accepted (result : BaseResult) (image : Image)
      (hcurrent : result.ticket.generation = w.pipeline.generation)
      (himage : result.result = .ok image) :
      Draws w now (.applyBase result) { w with
        pipeline := { w.pipeline with
          base := some ⟨result.ticket.page, result.ticket.zoom, image⟩ } }
  | requested (document : OpenDocument) (hopen : w.document = some document) :
      Draws w now .requestBase { w with
        pipeline := { w.pipeline with generation := w.pipeline.generation + 1 } }
  | renewed (event : Event) (w' : Workbench) (hvoid : w.supersedes now event = true)
      (hevent : event ≠ .requestBase) (hpipeline : w'.pipeline = w.pipeline.invalidate) :
      Draws w now event w'

theorem draws_applyLoad (w : Workbench) (now : Instant) (outcome : LoadOutcome) :
    w.Draws now (.applyLoad outcome) (w.applyLoad now outcome).2 := by
  unfold applyLoad
  split
  · next hold => exact .kept _ _ (by simp [supersedes, hold]) rfl rfl rfl
  · next hlatest =>
    have hlatest := Decidable.not_not.mp hlatest
    split
    · next loaded hloaded =>
      exact .renewed _ _ (by simp [supersedes, hlatest, hloaded]) (by simp)
        (w.install_pipeline now loaded)
    · next cause hcause =>
      exact .renewed _ _ (by simp [supersedes, hlatest, hcause]) (by simp) rfl
    · next cause hcause => exact .kept _ _ (by simp [supersedes, hcause]) rfl rfl rfl

theorem draws_applyBase (w : Workbench) (now : Instant) (result : BaseResult) :
    w.Draws now (.applyBase result) (w.applyBase result).2 := by
  unfold applyBase
  rcases w.pipeline.acceptBase_cases result with ⟨_, hsame⟩ | ⟨image, hcurrent, himage, haccept⟩
  · dsimp only
    rw [hsame]
    exact .kept _ _ rfl rfl rfl rfl
  · rw [haccept]
    exact .accepted result image hcurrent himage

/-- A page image is taken over if it was drawn and its ticket is the latest one. -/
theorem applyBase_eq_true (w : Workbench) (result : BaseResult) :
    (w.applyBase result).1 = .ok true ↔
      result.ticket.generation = w.pipeline.generation ∧ ∃ image, result.result = .ok image := by
  unfold applyBase Render.Pipeline.acceptBase Render.Pipeline.isCurrent
  by_cases hcurrent : result.ticket.generation = w.pipeline.generation
  · cases himage : result.result with
    | error cause => simp [hcurrent, Except.mapError]
    | ok image => simp [hcurrent, Except.mapError]
  · simp [hcurrent, Except.mapError]

theorem draws_requestBase (w : Workbench) (now : Instant) :
    w.Draws now .requestBase w.requestBase.2 := by
  unfold requestBase
  cases hopen : w.document with
  | none => exact .kept _ _ (by simp [supersedes, hopen]) rfl rfl rfl
  | some document => exact .requested document hopen

theorem draws_paint (w : Workbench) (now : Instant) : w.Draws now .paint w.paint.2 := by
  unfold paint
  split
  · exact .kept _ _ rfl rfl rfl rfl
  · unfold Render.Pipeline.paintFrame
    dsimp only
    split
    · exact .kept _ _ rfl rfl rfl rfl
    · exact .kept _ _ rfl rfl rfl rfl

theorem draws_applyExport (w : Workbench) (now : Instant) (outcome : ExportOutcome) :
    w.Draws now (.applyExport outcome) (w.applyExport now outcome).2 := by
  rcases w.applyExport_cases now outcome with
    ⟨hsame, hnone⟩ | ⟨active, document, artifact, hsome, hw⟩
  · rw [hsame]
    refine .kept _ _ ?_ rfl rfl rfl
    unfold supersedes
    dsimp only
    split
    · next artifact hartifact => exact absurd hartifact (hnone artifact)
    · rfl
  · rw [hw]
    refine .renewed _ _ ?_ (by simp) (w.replaceDocument_pipeline now active _ document)
    unfold supersedes
    dsimp only
    rw [hsome]

/-- What every event does to the image in use, the tickets and the open document. -/
theorem step_draws (w : Workbench) (now : Instant) (event : Event) :
    w.Draws now event (w.step now event) := by
  cases event with
  | applyLoad outcome => exact w.draws_applyLoad now outcome
  | applyExport outcome => exact w.draws_applyExport now outcome
  | applyBase result => exact w.draws_applyBase now result
  | requestBase => exact w.draws_requestBase now
  | paint => exact w.draws_paint now
  | close => exact .renewed _ _ rfl (by simp) rfl
  | input input =>
    refine .kept _ _ rfl ?_ ?_ ?_
    · exact congrArg (fun p ↦ p.base) (w.handle_pipeline now input)
    · exact congrArg (fun p ↦ p.generation) (w.handle_pipeline now input)
    · exact congrArg (Option.map ActiveDocument.document) (w.handle_active now input)
  | _ => exact .kept _ _ rfl rfl rfl rfl

/-- What pages are drawn with. -/
def drawingTools (w : Workbench) : Render.Rasterizer × Scalar :=
  (w.rasterizer, w.pipeline.pixelRatio)

theorem step_drawingTools (w : Workbench) (now : Instant) (event : Event) :
    (w.step now event).drawingTools = w.drawingTools := by
  unfold drawingTools
  cases event with
  | applyLoad outcome =>
    simp only [step, applyLoad]
    split
    · rfl
    · split
      · rw [install_rasterizer, install_pipeline]
        rfl
      · rfl
      · rfl
  | applyExport outcome =>
    simp only [step]
    rcases w.applyExport_cases now outcome with ⟨hsame, _⟩ | ⟨_, _, _, _, hw⟩
    · rw [hsame]
    · rw [hw, replaceDocument_rasterizer, replaceDocument_pipeline]
      rfl
  | applyBase result =>
    simp only [step, applyBase, Render.Pipeline.acceptBase]
    split
    · rfl
    · split
      · rfl
      · rfl
  | requestBase =>
    simp only [step, requestBase]
    split
    · rfl
    · rfl
  | paint =>
    simp only [step, paint, Render.Pipeline.paintFrame]
    split
    · rfl
    · split
      · rfl
      · rfl
  | input input => simp only [step, handle_rasterizer, handle_pipeline]
  | _ => rfl

/-! ## Jobs -/

/-- The job that an event hands out. -/
def issued? (w : Workbench) : Event → Option BaseJob
  | .requestBase => w.requestBase.1.toOption
  | _ => none

/-- The jobs that a run hands out, in order. -/
def jobs (w : Workbench) : List (Instant × Event) → List BaseJob
  | [] => []
  | (now, event) :: rest => (w.issued? event).toList ++ (w.step now event).jobs rest

theorem run_concat (w : Workbench) (events : List (Instant × Event)) (now : Instant)
    (event : Event) : w.run (events ++ [(now, event)]) = (w.run events).step now event :=
  List.foldl_append

/-- The job that is handed out for the current page of the open document. -/
def nextJob (w : Workbench) (document : OpenDocument) : BaseJob where
  ticket := ⟨w.pipeline.generation + 1, w.store.state.currentPage, w.store.state.zoom,
    ⟨w.store.state.currentPage, w.store.state.zoom * w.pipeline.pixelRatio⟩⟩
  rasterizer := w.rasterizer
  document

theorem issued?_eq_some (w : Workbench) (event : Event) (job : BaseJob)
    (h : w.issued? event = some job) :
    event = .requestBase ∧ ∃ document, w.document = some document ∧ job = w.nextJob document := by
  cases event with
  | requestBase =>
    refine ⟨rfl, ?_⟩
    unfold issued? requestBase at h
    cases hopen : w.document with
    | none =>
      rw [hopen] at h
      cases h
    | some document =>
      rw [hopen] at h
      cases h
      exact ⟨document, rfl, rfl⟩
  | _ => cases h

/-- Every job of a run was handed out at some moment of it. -/
theorem mem_jobs (w : Workbench) (events : List (Instant × Event)) (job : BaseJob)
    (h : job ∈ w.jobs events) :
    ∃ before now after, events = before ++ (now, .requestBase) :: after ∧
      ∃ document, (w.run before).document = some document ∧
        job = (w.run before).nextJob document := by
  induction events generalizing w with
  | nil => cases h
  | cons first rest ih =>
    obtain ⟨now, event⟩ := first
    rw [jobs] at h
    rcases List.mem_append.mp h with hissued | hlater
    · obtain ⟨rfl, hjob⟩ := w.issued?_eq_some event job (Option.mem_toList.mp hissued)
      exact ⟨[], now, rest, rfl, hjob⟩
    · obtain ⟨before, later, after, rfl, hjob⟩ := ih _ hlater
      exact ⟨(now, event) :: before, later, after, rfl, hjob⟩

/-- Whether every result that a run applies comes of a job that it has handed out before. -/
def AppliesOwn (w : Workbench) (events : List (Instant × Event)) : Prop :=
  ∀ before now result after, events = before ++ (now, .applyBase result) :: after →
    ∃ job ∈ w.jobs before, job.Yields result

theorem AppliesOwn.of_append {w : Workbench} {before after : List (Instant × Event)}
    (h : w.AppliesOwn (before ++ after)) : w.AppliesOwn before := by
  intro earlier now result later hevents
  refine h earlier now result (later ++ after) ?_
  rw [hevents, List.append_assoc, List.cons_append]

theorem appliesOwn_nil (w : Workbench) : w.AppliesOwn [] := by
  intro before now result after hevents
  simp at hevents

theorem AppliesOwn.concat {w : Workbench} {events : List (Instant × Event)}
    (h : w.AppliesOwn events) (now : Instant) (event : Event)
    (hevent : ∀ result, event = .applyBase result → ∃ job ∈ w.jobs events, job.Yields result) :
    w.AppliesOwn (events ++ [(now, event)]) := by
  intro before time result after hevents
  rcases List.eq_nil_or_concat' after with rfl | ⟨later, last, rfl⟩
  · obtain ⟨rfl, hlast⟩ := List.append_inj' hevents rfl
    obtain ⟨-, rfl⟩ := Prod.mk.inj (List.singleton_inj.mp hlast)
    exact hevent result rfl
  · rw [← List.cons_append, ← List.append_assoc] at hevents
    obtain ⟨rfl, -⟩ := List.append_inj' hevents rfl
    exact h before time result later rfl

/-! ## The latest job -/

/-- Jobs have ascending tickets, and the one with the latest ticket, if it is still good, draws the
open document. -/
structure Backed (issued : List BaseJob) (w : Workbench) : Prop where
  ascending : issued.Pairwise fun a b ↦ a.ticket.generation < b.ticket.generation
  le_generation : ∀ job ∈ issued, job.ticket.generation ≤ w.pipeline.generation
  tools : ∀ job ∈ issued, job.rasterizer = w.rasterizer ∧
    job.ticket.request = ⟨job.ticket.page, job.ticket.zoom * w.pipeline.pixelRatio⟩
  document_eq : ∀ job ∈ issued, job.ticket.generation = w.pipeline.generation →
    w.document = some job.document

theorem backed_nil (w : Workbench) : Backed [] w :=
  ⟨.nil, by simp, by simp, by simp⟩

/-- The job whose ticket is still good was handed out last. -/
theorem Backed.getLast?_eq {issued : List BaseJob} {w : Workbench} (h : Backed issued w)
    {job : BaseJob} (hjob : job ∈ issued)
    (hcurrent : job.ticket.generation = w.pipeline.generation) : issued.getLast? = some job := by
  obtain ⟨earlier, last, rfl⟩ :=
    (List.eq_nil_or_concat' issued).resolve_left (List.ne_nil_of_mem hjob)
  rw [List.getLast?_concat]
  rcases List.mem_append.mp hjob with hearlier | hlast
  · have hlt := (List.pairwise_append.mp h.ascending).2.2 job hearlier last (by simp)
    have hle := h.le_generation last (by simp)
    omega
  · exact congrArg some (List.mem_singleton.mp hlast).symm

/-- Jobs stay backed as long as the latest ticket is the same and so is the document. -/
theorem Backed.same {issued : List BaseJob} {w w' : Workbench} (h : Backed issued w)
    (htools : w'.drawingTools = w.drawingTools)
    (hgeneration : w'.pipeline.generation = w.pipeline.generation)
    (hdocument : w'.document = w.document) : Backed issued w' := by
  obtain ⟨hrasterizer, hratio⟩ := Prod.mk.inj htools
  refine ⟨h.ascending, ?_, ?_, ?_⟩
  · rw [hgeneration]
    exact h.le_generation
  · rw [hrasterizer, hratio]
    exact h.tools
  · rw [hgeneration, hdocument]
    exact h.document_eq

/-- Once all tickets are void, no job is good any more. -/
theorem Backed.void {issued : List BaseJob} {w w' : Workbench} (h : Backed issued w)
    (htools : w'.drawingTools = w.drawingTools)
    (hgeneration : w'.pipeline.generation = w.pipeline.generation + 1) : Backed issued w' := by
  obtain ⟨hrasterizer, hratio⟩ := Prod.mk.inj htools
  refine ⟨h.ascending, ?_, ?_, ?_⟩
  · intro job hjob
    rw [hgeneration]
    exact Nat.le_succ_of_le (h.le_generation job hjob)
  · rw [hrasterizer, hratio]
    exact h.tools
  · intro job hjob hcurrent
    rw [hgeneration] at hcurrent
    have hle := h.le_generation job hjob
    omega

/-- Another job is handed out. -/
theorem Backed.request {issued : List BaseJob} {w : Workbench} (h : Backed issued w)
    (document : OpenDocument) (hopen : w.document = some document) :
    Backed (issued ++ [w.nextJob document]) { w with
      pipeline := { w.pipeline with generation := w.pipeline.generation + 1 } } := by
  have hvoid : Backed issued { w with
      pipeline := { w.pipeline with generation := w.pipeline.generation + 1 } } :=
    h.void rfl rfl
  refine ⟨?_, ?_, ?_, ?_⟩
  · refine List.pairwise_append.mpr ⟨h.ascending, List.pairwise_singleton _ _, ?_⟩
    intro job hjob last hlast
    obtain rfl := List.mem_singleton.mp hlast
    exact Nat.lt_succ_of_le (h.le_generation job hjob)
  · intro job hjob
    rcases List.mem_append.mp hjob with hold | hnew
    · exact hvoid.le_generation job hold
    · obtain rfl := List.mem_singleton.mp hnew
      exact Nat.le_refl _
  · intro job hjob
    rcases List.mem_append.mp hjob with hold | hnew
    · exact hvoid.tools job hold
    · obtain rfl := List.mem_singleton.mp hnew
      exact ⟨rfl, rfl⟩
  · intro job hjob hcurrent
    rcases List.mem_append.mp hjob with hold | hnew
    · exact hvoid.document_eq job hold hcurrent
    · obtain rfl := List.mem_singleton.mp hnew
      exact hopen

/-- An event that makes no ticket void hands out no job. -/
theorem issued?_of_not_supersedes (w : Workbench) (now : Instant) (event : Event)
    (h : w.supersedes now event = false) : w.issued? event = none := by
  cases hissued : w.issued? event with
  | none => rfl
  | some job =>
    obtain ⟨rfl, document, hopen, _⟩ := w.issued?_eq_some event job hissued
    simp [supersedes, hopen] at h

/-- Every event keeps jobs backed, with the one that it hands out among them. -/
theorem Backed.step {issued : List BaseJob} {w : Workbench} (h : Backed issued w) (now : Instant)
    (event : Event) : Backed (issued ++ (w.issued? event).toList) (w.step now event) := by
  have htools := w.step_drawingTools now event
  have hdraws := w.step_draws now event
  generalize w.step now event = w' at htools hdraws
  cases hdraws with
  | kept event w' hstands hbase hgeneration hdocument =>
    rw [w.issued?_of_not_supersedes now event hstands, Option.toList_none, List.append_nil]
    exact h.same htools hgeneration hdocument
  | accepted result image hcurrent himage =>
    rw [w.issued?_of_not_supersedes now _ rfl, Option.toList_none, List.append_nil]
    exact h.same htools rfl rfl
  | requested document hopen =>
    have hissued : w.issued? .requestBase = some (w.nextJob document) := by
      unfold issued? requestBase
      rw [hopen]
      rfl
    rw [hissued]
    exact h.request document hopen
  | renewed event w' hvoid hevent hpipeline =>
    have hissued : w.issued? event = none := by
      cases hissued : w.issued? event with
      | none => rfl
      | some job => exact absurd (w.issued?_eq_some event job hissued).1 hevent
    rw [hissued, Option.toList_none, List.append_nil]
    exact h.void htools (congrArg (fun p ↦ p.generation) hpipeline)

theorem Backed.run {issued : List BaseJob} {w : Workbench} (h : Backed issued w)
    (events : List (Instant × Event)) : Backed (issued ++ w.jobs events) (w.run events) := by
  induction events generalizing issued w with
  | nil =>
    rw [jobs, List.append_nil]
    exact h
  | cons first rest ih =>
    rw [jobs, ← List.append_assoc]
    exact ih (h.step first.1 first.2)

/-! ## The page image in use -/

/-- A page image comes of a job that was the last one handed out when its result was applied, and
that drew it from the document that is open now. -/
structure IsDrawnBy (w : Workbench) (events : List (Instant × Event)) (layer : BaseLayer)
    (job : BaseJob) : Prop where
  applied : ∃ before now after, events = before ++ (now, .applyBase job.run) :: after ∧
    ((w.run before).applyBase job.run).1 = .ok true ∧ (w.jobs before).getLast? = some job
  page_eq : layer.page = job.ticket.page
  zoom_eq : layer.zoom = job.ticket.zoom
  drawn : w.rasterizer job.document ⟨layer.page, layer.zoom * w.pipeline.pixelRatio⟩ =
    .ok layer.image
  document_eq : (w.run events).document = some job.document

theorem IsDrawnBy.concat {w : Workbench} {events : List (Instant × Event)} {layer : BaseLayer}
    {job : BaseJob} (h : w.IsDrawnBy events layer job) (now : Instant) (event : Event)
    (hdocument : ((w.run events).step now event).document = (w.run events).document) :
    w.IsDrawnBy (events ++ [(now, event)]) layer job := by
  obtain ⟨before, earlier, after, hevents, haccept, hlast⟩ := h.applied
  refine ⟨⟨before, earlier, after ++ [(now, event)], ?_, haccept, hlast⟩, h.page_eq, h.zoom_eq,
    h.drawn, ?_⟩
  · rw [hevents, List.append_assoc, List.cons_append]
  · rw [run_concat, hdocument, h.document_eq]

theorem run_drawingTools (w : Workbench) (events : List (Instant × Event)) :
    (w.run events).drawingTools = w.drawingTools := by
  induction events generalizing w with
  | nil => rfl
  | cons first rest ih => exact (ih _).trans (w.step_drawingTools first.1 first.2)

/-- A job whose image is taken over was the last one handed out, and drew the open document. -/
theorem isDrawnBy_applied (w : Workbench) (events : List (Instant × Event)) (now : Instant)
    (result : BaseResult) (job : BaseJob) (hjob : job ∈ w.jobs events) (hyields : job.Yields result)
    (image : Image) (himage : result.result = .ok image)
    (hcurrent : result.ticket.generation = (w.run events).pipeline.generation) :
    w.IsDrawnBy (events ++ [(now, .applyBase result)])
      ⟨result.ticket.page, result.ticket.zoom, image⟩ job := by
  have hbacked : Backed (w.jobs events) (w.run events) := (backed_nil w).run events
  obtain ⟨hrasterizer, hratio⟩ := Prod.mk.inj (w.run_drawingTools events)
  obtain ⟨hdraws, hrequest⟩ := hbacked.tools job hjob
  obtain rfl := hyields.eq_run himage
  have haccept := ((w.run events).applyBase_eq_true job.run).mpr ⟨hcurrent, image, himage⟩
  refine ⟨⟨events, now, [], rfl, haccept, hbacked.getLast?_eq hjob hcurrent⟩, rfl, rfl, ?_, ?_⟩
  · have hrun : job.rasterizer job.document job.ticket.request = .ok image := himage
    rw [hdraws, hrequest, hrasterizer, hratio] at hrun
    exact hrun
  · rw [run_concat]
    exact hbacked.document_eq job hjob hcurrent

/-- The page image in use shows the open document. -/
theorem exists_isDrawnBy (w : Workbench) (hempty : w.pipeline.base = none)
    (events : List (Instant × Event)) (hown : w.AppliesOwn events) (layer : BaseLayer)
    (hlayer : (w.run events).pipeline.base = some layer) : ∃ job, w.IsDrawnBy events layer job := by
  -- From the end: an event either keeps image and document, brings the image, or forgets it.
  induction events using List.reverseRecOn with
  | nil =>
    rw [show (w.run []).pipeline.base = w.pipeline.base from rfl, hempty] at hlayer
    cases hlayer
  | append_singleton events last ih =>
    obtain ⟨now, event⟩ := last
    rw [run_concat] at hlayer
    have hdraws := (w.run events).step_draws now event
    generalize hw' : (w.run events).step now event = w' at hlayer hdraws
    cases hdraws with
    | kept event w' hstands hbase hgeneration hdocument =>
      obtain ⟨job, hjob⟩ := ih hown.of_append (hbase.symm.trans hlayer)
      exact ⟨job, hjob.concat now event (hw' ▸ hdocument)⟩
    | accepted result image hcurrent himage =>
      obtain ⟨job, hjob, hyields⟩ := hown events now result [] rfl
      obtain rfl := Option.some.inj hlayer
      exact ⟨job, w.isDrawnBy_applied events now result job hjob hyields image himage hcurrent⟩
    | requested document hopen =>
      obtain ⟨job, hjob⟩ := ih hown.of_append hlayer
      exact ⟨job, hjob.concat now _ (hw' ▸ rfl)⟩
    | renewed event w' hvoid hevent hpipeline =>
      rw [hpipeline] at hlayer
      cases hlayer

/-- What lies under an overlay: the page image in use, if it shows the page of the scene, or an
empty sheet. -/
def IsGround (w : Workbench) (scene : Scene) (image : Image) (zoom : Scalar) : Prop :=
  (∃ layer, w.pipeline.base = some layer ∧ layer.page = scene.page ∧ image = layer.image ∧
    zoom = layer.zoom) ∨
  (∃ width height, image = Image.filled width height .white) ∧ zoom = scene.zoom

theorem isGround_ground (w : Workbench) (scene : Scene) :
    w.IsGround scene (w.pipeline.ground scene).1 (w.pipeline.ground scene).2 := by
  unfold Render.Pipeline.ground
  dsimp only
  split
  · exact Or.inr ⟨⟨_, _, rfl⟩, rfl⟩
  · next layer hlayer =>
    split
    · next hpage => exact Or.inl ⟨layer, hlayer, hpage, rfl, rfl⟩
    · exact Or.inr ⟨⟨_, _, rfl⟩, rfl⟩

/-- A frame is the overlay of the current page over such a ground. -/
theorem paint_eq_some (w : Workbench) (frame : Image) (h : w.paint.1 = some frame) :
    ∃ scene image zoom, w.scene = some scene ∧ scene.page = w.store.state.currentPage ∧
      w.IsGround scene image zoom ∧
      frame = Render.paintOverlay w.pipeline.fonts scene (zoom * w.pipeline.pixelRatio) image := by
  unfold paint at h
  cases hscene : w.scene with
  | none =>
    rw [hscene] at h
    cases h
  | some scene =>
    rw [hscene] at h
    have hpage : scene.page = w.store.state.currentPage := by
      unfold Workbench.scene at hscene
      obtain ⟨size, _, hcapture⟩ := Option.bind_eq_some_iff.mp hscene
      cases hcapture
      rfl
    refine ⟨scene, _, _, rfl, hpage, w.isGround_ground scene, ?_⟩
    simp only [Render.Pipeline.paintFrame] at h
    split at h
    · cases h
    · exact (Option.some.inj h).symm

/-- However loads, exports, page images and inputs follow each other, the page image in use was
drawn from the open document by the job that was the latest one when it was taken over; and every
frame shows the current page of it or an empty sheet. -/
theorem base_shows_document (settings : Settings) (library : Font.Library)
    (rasterizer : Render.Rasterizer) (sessions : Option Folder) (events : List (Instant × Event))
    (hown : (new settings library rasterizer sessions).AppliesOwn events) :
    let start := new settings library rasterizer sessions
    let w := start.run events
    (∀ layer, w.pipeline.base = some layer → ∃ job, start.IsDrawnBy events layer job) ∧
      ∀ frame, w.paint.1 = some frame →
        ∃ scene image zoom, w.scene = some scene ∧ scene.page = w.store.state.currentPage ∧
          w.IsGround scene image zoom ∧
          frame =
            Render.paintOverlay w.pipeline.fonts scene (zoom * w.pipeline.pixelRatio) image := by
  intro start w
  exact ⟨exists_isDrawnBy start rfl events hown, w.paint_eq_some⟩

/-- A document is opened and an image of its page is asked for. -/
def asking : List (Instant × Event) := opening ++ [(⟨1, 0⟩, .requestBase)]

/-- The job that is handed out then. -/
def askedFor : BaseJob := onePage.nextJob ⟨[], ⟨[.letter]⟩⟩

theorem jobs_asking : (new (.standard []) .empty Render.blank none).jobs asking = [askedFor] := rfl

theorem appliesOwn_asking : (new (.standard []) .empty Render.blank none).AppliesOwn asking :=
  (((appliesOwn_nil _).concat _ _ (by simp)).concat _ _ (by simp)).concat _ _ (by simp)

/-- Once the image that was asked for is there, it is the one in use, and lies under the frames. -/
theorem base_shows_document_asking :
    let start := new (.standard []) .empty Render.blank none
    let events := asking ++ [(⟨2, 0⟩, .applyBase askedFor.run)]
    start.AppliesOwn events ∧ (start.run events).paint.1.isSome = true ∧
      ∃ layer job, (start.run events).pipeline.base = some layer ∧
        start.IsDrawnBy events layer job := by
  intro start events
  have hown : start.AppliesOwn events :=
    appliesOwn_asking.concat _ _ fun result hresult ↦
      ⟨askedFor, by simp [jobs_asking], Or.inl (Event.applyBase.inj hresult).symm⟩
  obtain ⟨layer, hlayer⟩ := Option.isSome_iff_exists.mp
    (show (start.run events).pipeline.base.isSome = true by decide +kernel)
  obtain ⟨job, hjob⟩ :=
    (base_shows_document (.standard []) .empty Render.blank none events hown).1 layer hlayer
  exact ⟨hown, by decide +kernel, layer, job, hlayer, hjob⟩

end Workbench

end Marginalia
