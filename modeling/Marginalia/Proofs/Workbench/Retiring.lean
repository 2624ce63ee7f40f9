import Marginalia.Proofs.Editor.Retiring
import Marginalia.Proofs.Workbench.Drawing
import Marginalia.Proofs.Workbench.Export
import Marginalia.Proofs.Workbench.Undo

/-!
# What an export takes away

An export that is applied takes away just the annotations that are still as they were painted. Undo
does not bring them back, and as long as the document stays open no export begun before is applied
to it any more. An export left over from before the document was opened may have counted more
revisions, and then the document can come to the one that it fits.
-/

namespace Marginalia

/-- Whether an event can put in another document, whose annotations are numbered anew. -/
def Event.opens : Event → Bool
  | .applyLoad _ => true
  | .close => true
  | _ => false

namespace Workbench

/-! ## An applied export -/

theorem replaceDocument_store (w : Workbench) (now : Instant) (active : ActiveDocument)
    (job : ExportJob) (document : Pdf.OpenDocument) :
    (w.replaceDocument now active job document).store =
      w.store.retireExported job.annotations := by
  unfold replaceDocument
  dsimp only
  rw [persist_store]
  rfl

theorem annotations_of_beginExport (w : Workbench) (job : ExportJob)
    (h : w.beginExport = .ok job) : job.annotations = w.store.annotations := by
  unfold beginExport at h
  split at h
  · cases h
  · cases h
    rfl

theorem isCurrent_iff {w : Workbench} {active : ActiveDocument} (h : w.active = some active)
    (job : ExportJob) :
    w.isCurrent job = true ↔ active.id = job.documentId ∧ active.revision = job.revision := by
  unfold isCurrent
  rw [h]
  simp

/-- An export that is applied puts in a document of the next revision and retires what was painted
into it. -/
theorem replaced_of_applyExport {w : Workbench} {now : Instant} {outcome : ExportOutcome}
    {artifact : ExportArtifact} (h : (w.applyExport now outcome).1 = .ok (some artifact)) :
    (∃ active, w.active = some active ∧ active.revision = outcome.job.revision) ∧
      (∃ active, (w.applyExport now outcome).2.active = some active ∧
        active.id = outcome.job.documentId ∧ active.revision = outcome.job.revision + 1) ∧
      (w.applyExport now outcome).2.store = w.store.retireExported outcome.job.annotations := by
  have hcurrent := isCurrent_of_applyExport w now outcome artifact h
  unfold applyExport at h ⊢
  cases hactive : w.active with
  | none =>
    rw [hactive] at h
    cases h
  | some active =>
    obtain ⟨hid, hrevision⟩ := (isCurrent_iff hactive outcome.job).mp hcurrent
    rw [hactive] at h
    simp only [hcurrent, Bool.not_true, Bool.false_eq_true, if_false] at h ⊢
    cases hresult : outcome.result with
    | error cause =>
      rw [hresult] at h
      cases h
    | ok composed =>
      simp only [hresult] at h ⊢
      cases hbytes : Pdf.OpenDocument.ofBytes composed.bytes with
      | error cause =>
        rw [hbytes] at h
        cases h
      | ok document =>
        refine ⟨⟨active, rfl, hrevision⟩,
          ⟨_, w.replaceDocument_active now active _ document, hid, ?_⟩,
          w.replaceDocument_store now active _ document⟩
        rw [hrevision]

/-! ## Gone for good -/

/-- What a store lacks for good, it lacks as long as its document is not exchanged for another. -/
theorem lacks_step {w : Workbench} {r : AnnotationRef} (h : w.store.Lacks r) (now : Instant)
    {event : Event} (hevent : event.opens = false) : (w.step now event).store.Lacks r := by
  cases event with
  | applyLoad outcome => cases hevent
  | close => cases hevent
  | applyExport outcome =>
    rcases w.applyExport_cases now outcome with ⟨hsame, -⟩ | ⟨active, document, -, -, hw⟩
    · rw [step, hsame]
      exact h
    · rw [step, hw, replaceDocument_store]
      exact h.retireExported _
  | requestBase =>
    simp only [step, requestBase]
    split <;> exact h
  | paint =>
    simp only [step, paint]
    split <;> exact h
  | input input =>
    rw [step, handle_store, react_store]
    exact h.run _ (isEdit_of_inputRequests _ _ _)
  | _ => exact h

theorem lacks_run {w : Workbench} {r : AnnotationRef} (h : w.store.Lacks r)
    {events : List (Instant × Event)} (hevents : ∀ event ∈ events, event.2.opens = false) :
    (w.run events).store.Lacks r := by
  induction events generalizing w with
  | nil => exact h
  | cons first rest ih =>
    obtain ⟨hfirst, hrest⟩ := List.forall_mem_cons.mp hevents
    exact ih (lacks_step h first.1 hfirst) hrest

theorem isEdit_of_requests (w : Workbench) (inputs : List (Instant × Input)) :
    ∀ operation ∈ w.requests inputs, operation.isEdit = true := by
  induction inputs generalizing w with
  | nil => exact fun operation hmem ↦ absurd hmem List.not_mem_nil
  | cons first rest ih =>
    intro operation hmem
    rw [requests_cons] at hmem
    rcases List.mem_append.mp hmem with hfirst | hrest
    · exact isEdit_of_inputRequests _ _ _ operation hfirst
    · exact ih _ operation hrest

/-! ## Other exports -/

theorem staysOpen_cons_iff {w : Workbench} {now : Instant} {event : Event}
    {rest : List (Instant × Event)} :
    w.StaysOpen ((now, event) :: rest) ↔
      w.active.isSome = true ∧ (w.step now event).StaysOpen rest := by
  constructor
  · intro h
    refine ⟨h [] List.nil_prefix, fun before hbefore ↦ ?_⟩
    exact h ((now, event) :: before) (List.cons_prefix_cons.mpr ⟨rfl, hbefore⟩)
  · rintro ⟨hopen, hrest⟩ before hbefore
    rcases List.prefix_cons_iff.mp hbefore with rfl | ⟨later, rfl, hlater⟩
    · exact hopen
    · exact hrest later hlater

theorem staysOpen_nil {w : Workbench} : w.StaysOpen [] ↔ w.active.isSome = true := by
  refine ⟨fun h ↦ h [] List.nil_prefix, fun h before hbefore ↦ ?_⟩
  rw [List.prefix_nil.mp hbefore]
  exact h

/-- Loading document after document leaves none of them closed. -/
theorem staysOpen_loads (w : Workbench) (now : Instant) (loaded : LoadedDocument) (count : Nat)
    (hopen : w.active.isSome = true) : w.StaysOpen (loads now loaded w.loadGeneration count) := by
  induction count generalizing w with
  | zero => exact staysOpen_nil.mpr hopen
  | succ count ih =>
    have hload : (w.step now (.beginLoad loaded.id)).step now
        (.applyLoad ⟨⟨w.loadGeneration + 1, loaded.id⟩, .ok loaded⟩) =
          (w.beginLoad loaded.id).2.install now loaded :=
      w.run_load now loaded []
    have hgeneration := (w.beginLoad loaded.id).2.install_loadGeneration now loaded
    have hinstalled := (w.beginLoad loaded.id).2.install_active now loaded
    change _ = w.loadGeneration + 1 at hgeneration
    rw [loads, staysOpen_cons_iff, staysOpen_cons_iff, hload, ← hgeneration]
    refine ⟨hopen, hopen, ih _ ?_⟩
    rw [hinstalled]
    rfl

/-- The exports that the open document can come to fit without being closed: those of its own
revision, and those of a later one under whatever name. -/
theorem exists_isCurrent_iff {w : Workbench} {active : ActiveDocument}
    (hactive : w.active = some active) (job : ExportJob) :
    (∃ events, w.StaysOpen events ∧ (w.run events).isCurrent job = true) ↔
      (active.id = job.documentId ∧ active.revision = job.revision) ∨
        active.revision < job.revision := by
  constructor
  · rintro ⟨events, hopen, hcurrent⟩
    obtain ⟨later, hlater⟩ :=
      Option.isSome_iff_exists.mp (hopen events (List.prefix_refl events))
    obtain ⟨hid, hrevision⟩ := (isCurrent_iff hlater job).mp hcurrent
    rcases w.same_or_lt_revision events hopen active later hactive hlater with rfl | hlt
    · exact .inl ⟨hid, hrevision⟩
    · exact .inr (hrevision ▸ hlt)
  · have hopen : w.active.isSome = true := by rw [hactive]; rfl
    rintro (hfits | hlt)
    · exact ⟨[], staysOpen_nil.mpr hopen, (isCurrent_iff hactive job).mpr hfits⟩
    · obtain ⟨count, hcount⟩ := Nat.exists_eq_add_of_lt hlt
      let loaded : LoadedDocument := ⟨job.documentId, active.document, none, none, false⟩
      refine ⟨loads ⟨0, 0⟩ loaded w.loadGeneration (count + 1), w.staysOpen_loads _ _ _ hopen, ?_⟩
      refine (isCurrent_iff (w.run_loads_active ⟨0, 0⟩ loaded count) job).mpr ⟨rfl, ?_⟩
      change w.nextRevision + count = job.revision
      rw [w.nextRevision_of_open active hactive, hcount]
      omega

/-- A job counts no more revisions than the document has as long as it stays open. -/
theorem revision_le_of_beginExport {w : Workbench} {job : ExportJob}
    (hjob : w.beginExport = .ok job) {events : List (Instant × Event)} (hopen : w.StaysOpen events)
    {active : ActiveDocument} (hactive : (w.run events).active = some active) :
    job.revision ≤ active.revision := by
  obtain ⟨first, hfirst, -, hrevision, -⟩ := w.active_of_beginExport job hjob
  rcases w.same_or_lt_revision events hopen first active hfirst hactive with rfl | hlt
  · exact Nat.le_of_eq hrevision.symm
  · exact hrevision ▸ Nat.le_of_lt hlt

/-- An export that is applied leaves, in order, the annotations that are not the same as they were
painted. None of the others comes back while the document stays open, and undo leads only to
annotations that were there since. An export begun before while the document was open does nothing
any more as long as it stays open; any export does so that counts at most the revisions that were
left behind, and one that counts more comes to fit. -/
theorem applyExport_retires_painted {w : Workbench} (hw : w.Reachable) {job : ExportJob}
    (hjob : w.beginExport = .ok job) (events : List (Instant × Event)) (now : Instant)
    {result : Except Export.ExportError Export.Composed} {artifact : ExportArtifact}
    (happlied : ((w.run events).applyExport now ⟨job, result⟩).1 = .ok (some artifact))
    (hnumbers : ∀ x ∈ (w.run events).store.annotations.scalars, x.isNaN = false) :
    let before := w.run events
    let after := (before.applyExport now ⟨job, result⟩).2
    after.store.annotations.labels = before.store.annotations.labels.filter
        (fun l ↦ ¬∃ painted ∈ job.annotations.labels, painted.Same l) ∧
      after.store.annotations.patches = before.store.annotations.patches.filter
        (fun p ↦ ¬∃ painted ∈ job.annotations.patches, painted.Same p) ∧
      after.store.history.snapshots = [] ∧
      (∀ later, (∀ event ∈ later, event.2.opens = false) → ∀ r,
        before.store.annotations.contains r = true →
          after.store.annotations.contains r = false →
            (after.run later).store.annotations.contains r = false) ∧
      (∀ inputs, ∀ set ∈ (after.handleAll inputs).store.stack,
        ∃ earlier, earlier <+: after.requests inputs ∧
          set = (after.store.run earlier).annotations) ∧
      (∀ (first : Workbench) (other : ExportJob) between, first.beginExport = .ok other →
        first.run between = before → first.StaysOpen between →
          ∀ later, after.StaysOpen later → ∀ time result,
            (after.run later).applyExport time ⟨other, result⟩ = (.ok none, after.run later)) ∧
      ∀ other : ExportJob,
        (∃ later, after.StaysOpen later ∧ (after.run later).isCurrent other = true) ↔
          (job.documentId = other.documentId ∧ job.revision + 1 = other.revision) ∨
            job.revision + 1 < other.revision := by
  intro before after
  obtain ⟨⟨old, hold, hrevision⟩, ⟨active, hactive, hid, hnext⟩, hstore⟩ :=
    replaced_of_applyExport happlied
  dsimp only at hrevision hid hnext hstore
  have hbefore : before.Reachable := hw.run events
  have hdistinct : job.annotations.ids.Nodup :=
    w.annotations_of_beginExport job hjob ▸ hw.coherent.store.live.distinct
  obtain ⟨hlabels, hpatches⟩ := before.store.retireExported_annotations hdistinct hnumbers
  have hcleared : after.store.history.snapshots = [] := by
    rw [hstore]
    rfl
  have hfits (other : ExportJob) := exists_isCurrent_iff hactive other
  rw [hid, hnext] at hfits
  refine ⟨?_, ?_, hcleared, fun later hlater r hr hgone ↦ ?_, fun inputs set hset ↦ ?_,
    fun first other between hother hbetween hopen later hlater time result ↦ ?_, hfits⟩
  · rw [hstore]
    exact hlabels
  · rw [hstore]
    exact hpatches
  · have hlacks : after.store.Lacks r := by
      rw [hstore] at hgone ⊢
      exact Store.lacks_retireExported hbefore.coherent.store _ hr hgone
    exact (lacks_run hlacks hlater).absent _ List.mem_cons_self
  · rw [handleAll_store] at hset
    exact after.store.live_of_mem_stack_run hcleared _ (isEdit_of_requests after inputs) hset
  · refine applyExport_of_not_current _ time ⟨other, result⟩ ?_
    rw [Bool.eq_false_iff]
    intro hcurrent
    have hle : other.revision ≤ old.revision :=
      revision_le_of_beginExport hother hopen (hbetween ▸ hold)
    rcases (hfits other).mp ⟨later, hlater, hcurrent⟩ with ⟨-, hsame⟩ | hlt <;> omega

/-- A second patch is drawn. -/
def drawingMore : List (Instant × Event) :=
  [.setMode .addRect, .pointerDown (pointerAt 100 100), .pointerUp (pointerAt 140 140)].map
    fun input ↦ (⟨0, 0⟩, .input input)

/-- An export of a patch is begun, another patch is drawn, and the export takes away the first one
alone. -/
theorem applyExport_retires_painted_drawing :
    let drawn := withOlder.run (drawing.map (Prod.map id Event.input))
    ∃ job, drawn.beginExport = .ok job ∧
      let before := drawn.run drawingMore
      let after := (before.applyExport ⟨1, 0⟩ ⟨job, .ok ⟨newer.bytes, .empty⟩⟩).2
      before.store.annotations.patches.map Patch.id = [1, 2] ∧
        after.store.annotations.patches.map Patch.id = [2] ∧
          after.store.history.snapshots = [] := by
  intro drawn
  obtain ⟨job, hjob⟩ : ∃ job, drawn.beginExport = .ok job := ⟨_, rfl⟩
  refine ⟨job, hjob, ?_⟩
  intro before after
  have hopen : ∀ prior ∈ drawingMore.inits, (drawn.run prior).active.isSome = true := by
    decide +kernel
  have hcurrent : before.isCurrent job = true := by
    refine (drawn.isCurrent_iff_of_staysOpen job hjob drawingMore fun prior hprior ↦ ?_).mpr ?_
    · exact hopen prior ((List.mem_inits _ _).mpr hprior)
    · decide +kernel
  obtain ⟨artifact, happlied⟩ := applyExport_of_isCurrent before ⟨1, 0⟩ job ⟨newer.bytes, .empty⟩
    newer hcurrent ofBytes_newer
  have hopened : withOlder.Reachable := ⟨_, _, _, _, _, rfl⟩
  obtain ⟨-, hpatches, hcleared, -⟩ := applyExport_retires_painted (hopened.run _) hjob drawingMore
    ⟨1, 0⟩ happlied (by decide +kernel)
  dsimp only [after, before, drawn]
  refine ⟨by decide +kernel, ?_, hcleared⟩
  rw [hpatches, annotations_of_beginExport drawn job hjob]
  decide +kernel

/-- The document of an export is closed and opened again, and another export of it is applied. The
one left over is applied after it all the same. -/
theorem applyExport_leftover :
    let loaded : LoadedDocument := ⟨⟨"a"⟩, older, none, none, false⟩
    let first := withOlder.run (loads ⟨0, 0⟩ loaded withOlder.loadGeneration 1)
    let again := first.run ((⟨1, 0⟩, .close) :: loads ⟨1, 0⟩ loaded first.loadGeneration 1)
    ∃ left job, first.beginExport = .ok left ∧ again.beginExport = .ok job ∧
      let applied := again.applyExport ⟨2, 0⟩ (job.run again.builder).1
      applied.1.toOption.join.isSome = true ∧ applied.2.active.isSome = true ∧
        (applied.2.applyExport ⟨3, 0⟩ (left.run applied.2.builder).1).1.toOption.join.isSome =
          true := by
  refine ⟨_, _, rfl, rfl, ?_⟩
  decide +kernel

end Workbench

end Marginalia
