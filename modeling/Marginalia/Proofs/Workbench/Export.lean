import Mathlib.Data.List.Infix
import Marginalia.Proofs.Workbench.Coherence

/-!
# Exports and the document they replace

An export knows its document by id and revision. While a document stays open its revision grows with
every other one put in its place, so an export is applied to the very document it was begun for.
Revisions are counted from one again when a document is opened where none was open, and then an old
export may fit a document with other bytes.
-/

namespace Marginalia.Workbench

open Pdf (OpenDocument)

/-! ## While a document stays open -/

/-- Whether a document is open at every moment of a run. -/
def StaysOpen (w : Workbench) (events : List (Instant × Event)) : Prop :=
  ∀ before, before <+: events → (w.run before).active.isSome = true

theorem run_cons (w : Workbench) (now : Instant) (event : Event)
    (rest : List (Instant × Event)) :
    w.run ((now, event) :: rest) = (w.step now event).run rest := rfl

theorem install_active (w : Workbench) (now : Instant) (loaded : LoadedDocument) :
    (w.install now loaded).active =
      some ⟨loaded.id, loaded.displayName, loaded.document, w.nextRevision⟩ := by
  unfold install
  dsimp only
  rw [persist_active, resume_active]

theorem replaceDocument_active (w : Workbench) (now : Instant) (active : ActiveDocument)
    (job : ExportJob) (document : OpenDocument) :
    (w.replaceDocument now active job document).active =
      some { active with document, revision := active.revision + 1 } := by
  unfold replaceDocument
  dsimp only
  rw [persist_active]
  rfl

theorem nextRevision_of_open (w : Workbench) (active : ActiveDocument)
    (hopen : w.active = some active) : w.nextRevision = active.revision + 1 := by
  unfold nextRevision
  rw [hopen]
  rfl

/-- What may become of the open document: nothing, or it is closed, or one of the next revision is
put in its place. -/
def Follows (w w' : Workbench) : Prop :=
  w'.active = w.active ∨ w'.active = none ∨
    ∃ active, w'.active = some active ∧ active.revision = w.nextRevision

theorem follows_applyLoad (w : Workbench) (now : Instant) (outcome : LoadOutcome) :
    w.Follows (w.applyLoad now outcome).2 := by
  unfold applyLoad
  split
  · exact Or.inl rfl
  · split
    · exact Or.inr (Or.inr ⟨_, w.install_active now _, rfl⟩)
    · exact Or.inr (Or.inl rfl)
    · exact Or.inl rfl

theorem follows_applyExport (w : Workbench) (now : Instant) (outcome : ExportOutcome) :
    w.Follows (w.applyExport now outcome).2 := by
  unfold applyExport
  cases hactive : w.active with
  | none => exact Or.inl rfl
  | some active =>
    dsimp only
    split
    · exact Or.inl rfl
    · split
      · exact Or.inl rfl
      · split
        · exact Or.inl rfl
        · refine Or.inr (Or.inr ⟨_, w.replaceDocument_active now active _ _, ?_⟩)
          exact (w.nextRevision_of_open active hactive).symm

theorem follows_step (w : Workbench) (now : Instant) (event : Event) :
    w.Follows (w.step now event) := by
  cases event with
  | applyLoad outcome => exact w.follows_applyLoad now outcome
  | applyExport outcome => exact w.follows_applyExport now outcome
  | close => exact Or.inr (Or.inl rfl)
  | requestBase =>
    simp only [step, requestBase]
    split
    · exact Or.inl rfl
    · exact Or.inl rfl
  | paint =>
    simp only [step, paint]
    split
    · exact Or.inl rfl
    · exact Or.inl rfl
  | input input => exact Or.inl (w.handle_active now input)
  | _ => exact Or.inl rfl

/-- Of two documents that are open one after the other, the later is the same or of the next
revision. -/
theorem Follows.same_or_next {w w' : Workbench} (h : w.Follows w') (before after : ActiveDocument)
    (hbefore : w.active = some before) (hafter : w'.active = some after) :
    after = before ∨ after.revision = before.revision + 1 := by
  rcases h with hsame | hclosed | ⟨active, hactive, hnext⟩
  · exact Or.inl (Option.some.inj (hafter.symm.trans (hsame.trans hbefore)))
  · rw [hclosed] at hafter
    cases hafter
  · obtain rfl := Option.some.inj (hactive.symm.trans hafter)
    exact Or.inr (hnext.trans (w.nextRevision_of_open before hbefore))

/-- As long as a document stays open, it is the same one or its revision is higher. -/
theorem same_or_lt_revision (w : Workbench) (events : List (Instant × Event))
    (hopen : w.StaysOpen events) (before after : ActiveDocument)
    (hbefore : w.active = some before) (hafter : (w.run events).active = some after) :
    after = before ∨ before.revision < after.revision := by
  induction events generalizing w before with
  | nil => exact Or.inl (Option.some.inj (hafter.symm.trans hbefore))
  | cons first rest ih =>
    obtain ⟨now, event⟩ := first
    obtain ⟨middle, hmiddle⟩ :=
      Option.isSome_iff_exists.mp (hopen [(now, event)] ⟨rest, rfl⟩)
    change (w.step now event).active = some middle at hmiddle
    have hrest : (w.step now event).StaysOpen rest := by
      intro prior hprior
      exact hopen ((now, event) :: prior) (List.cons_prefix_cons.mpr ⟨rfl, hprior⟩)
    rw [run_cons] at hafter
    rcases (w.follows_step now event).same_or_next before middle hbefore hmiddle with rfl | hnext
    · exact ih _ hrest middle hmiddle hafter
    · right
      rcases ih _ hrest middle hmiddle hafter with rfl | hlt
      · omega
      · omega

theorem active_of_beginExport (w : Workbench) (job : ExportJob) (h : w.beginExport = .ok job) :
    ∃ active, w.active = some active ∧ active.id = job.documentId ∧
      active.revision = job.revision ∧ active.document.bytes = job.source := by
  unfold beginExport at h
  cases hactive : w.active with
  | none =>
    rw [hactive] at h
    cases h
  | some active =>
    rw [hactive] at h
    cases h
    exact ⟨active, rfl, rfl, rfl, rfl⟩

/-- An export is current while its document stays open just as long as nothing takes its place. -/
theorem isCurrent_iff_of_staysOpen (w : Workbench) (job : ExportJob)
    (hjob : w.beginExport = .ok job) (events : List (Instant × Event))
    (hopen : w.StaysOpen events) :
    (w.run events).isCurrent job = true ↔ (w.run events).active = w.active := by
  obtain ⟨before, hbefore, hid, hrevision, _⟩ := w.active_of_beginExport job hjob
  obtain ⟨after, hafter⟩ :=
    Option.isSome_iff_exists.mp (hopen events (List.prefix_refl events))
  have hcurrent : (w.run events).isCurrent job = true ↔
      after.id = job.documentId ∧ after.revision = job.revision := by
    unfold isCurrent
    rw [hafter]
    simp
  rw [hcurrent, hafter, hbefore]
  constructor
  · rintro ⟨_, hsame⟩
    rcases w.same_or_lt_revision events hopen before after hbefore hafter with rfl | hlt
    · rfl
    · omega
  · intro hsame
    obtain rfl := Option.some.inj hsame
    exact ⟨hid, hrevision⟩

/-- An export is applied only where it is current. -/
theorem isCurrent_of_applyExport (w : Workbench) (now : Instant) (outcome : ExportOutcome)
    (artifact : ExportArtifact)
    (h : (w.applyExport now outcome).1 = .ok (some artifact)) :
    w.isCurrent outcome.job = true := by
  unfold applyExport at h
  cases hactive : w.active with
  | none =>
    rw [hactive] at h
    cases h
  | some active =>
    rw [hactive] at h
    cases hcurrent : w.isCurrent outcome.job with
    | true => rfl
    | false =>
      simp only [hcurrent] at h
      cases h

/-! ## After it has been closed -/

theorem revision_pos_run (w : Workbench) (events : List (Instant × Event))
    (hpos : ∀ active, w.active = some active → 0 < active.revision) (active : ActiveDocument)
    (hactive : (w.run events).active = some active) : 0 < active.revision := by
  induction events generalizing w with
  | nil => exact hpos active hactive
  | cons first rest ih =>
    refine ih (w.step first.1 first.2) ?_ hactive
    intro next hnext
    rcases w.follows_step first.1 first.2 with hsame | hclosed | ⟨other, hother, hrevision⟩
    · exact hpos next (hsame.symm.trans hnext)
    · exact absurd (hclosed.symm.trans hnext) (by simp)
    · obtain rfl := Option.some.inj (hother.symm.trans hnext)
      rw [hrevision]
      exact Nat.succ_pos _

/-- Revisions are counted from one. -/
theorem Reachable.revision_pos {w : Workbench} (h : w.Reachable) (active : ActiveDocument)
    (hactive : w.active = some active) : 0 < active.revision := by
  obtain ⟨settings, library, rasterizer, sessions, events, rfl⟩ := h
  refine revision_pos_run _ events ?_ active hactive
  intro active hactive
  cases hactive

/-- A document is loaded a number of times in a row. -/
def loads (now : Instant) (loaded : LoadedDocument) : (generation count : Nat) →
    List (Instant × Event)
  | _, 0 => []
  | generation, count + 1 =>
    (now, .beginLoad loaded.id) ::
      (now, .applyLoad ⟨⟨generation + 1, loaded.id⟩, .ok loaded⟩) ::
        loads now loaded (generation + 1) count

@[simp]
theorem persist_loadGeneration (w : Workbench) (now : Instant) :
    (w.persist now).loadGeneration = w.loadGeneration := by
  obtain ⟨_, h⟩ := w.persist_eq now
  rw [h]

@[simp]
theorem resume_loadGeneration (w : Workbench) : w.resume.loadGeneration = w.loadGeneration := by
  obtain ⟨_, _, _, h⟩ := w.resume_eq
  rw [h]

theorem install_loadGeneration (w : Workbench) (now : Instant) (loaded : LoadedDocument) :
    (w.install now loaded).loadGeneration = w.loadGeneration := by
  unfold install
  dsimp only
  rw [persist_loadGeneration, resume_loadGeneration]
  rfl

/-- A load that is begun and then applied puts in its document. -/
theorem run_load (w : Workbench) (now : Instant) (loaded : LoadedDocument)
    (rest : List (Instant × Event)) :
    w.run ((now, .beginLoad loaded.id) ::
        (now, .applyLoad ⟨⟨w.loadGeneration + 1, loaded.id⟩, .ok loaded⟩) :: rest) =
      ((w.beginLoad loaded.id).2.install now loaded).run rest := by
  rw [run_cons, run_cons]
  change (((w.beginLoad loaded.id).2.applyLoad now
    ⟨⟨w.loadGeneration + 1, loaded.id⟩, .ok loaded⟩).2).run rest = _
  unfold applyLoad
  rw [if_neg (by simp [beginLoad])]

/-- Loading a document counts its revision up from that of the one that is open. -/
theorem run_loads_active (w : Workbench) (now : Instant) (loaded : LoadedDocument) (count : Nat) :
    (w.run (loads now loaded w.loadGeneration (count + 1))).active =
      some ⟨loaded.id, loaded.displayName, loaded.document, w.nextRevision + count⟩ := by
  induction count generalizing w with
  | zero =>
    unfold loads
    rw [run_load]
    exact install_active _ now loaded
  | succ count ih =>
    rw [loads, run_load]
    have hactive := (w.beginLoad loaded.id).2.install_active now loaded
    have hgeneration := (w.beginLoad loaded.id).2.install_loadGeneration now loaded
    change _ = w.loadGeneration + 1 at hgeneration
    rw [← hgeneration, ih, nextRevision_of_open _ _ hactive]
    simp only [Option.some.injEq, ActiveDocument.mk.injEq, true_and]
    change w.nextRevision + 1 + count = w.nextRevision + (count + 1)
    omega

/-- A document is opened anew under the name that an export knows, as often as the export has
revisions counted. -/
def reopening (now : Instant) (w : Workbench) (job : ExportJob) (document : OpenDocument) :
    List (Instant × Event) :=
  (now, .close) ::
    loads now ⟨job.documentId, document, none, none, false⟩ w.loadGeneration job.revision

theorem run_reopening_active (w : Workbench) (now : Instant) (job : ExportJob)
    (document : OpenDocument) (hpos : 0 < job.revision) :
    (w.run (reopening now w job document)).active =
      some ⟨job.documentId, none, document, job.revision⟩ := by
  obtain ⟨count, hcount⟩ := Nat.exists_eq_succ_of_ne_zero (Nat.ne_of_gt hpos)
  unfold reopening
  rw [run_cons, hcount]
  have hloads := w.close.run_loads_active now ⟨job.documentId, document, none, none, false⟩ count
  refine hloads.trans ?_
  change some (ActiveDocument.mk job.documentId none document (0 + 1 + count)) = _
  rw [Nat.zero_add, Nat.add_comm]

theorem applyExport_of_isCurrent (w : Workbench) (now : Instant) (job : ExportJob)
    (composed : Export.Composed) (exported : OpenDocument) (hcurrent : w.isCurrent job = true)
    (hexported : OpenDocument.ofBytes composed.bytes = .ok exported) :
    ∃ artifact, (w.applyExport now ⟨job, .ok composed⟩).1 = .ok (some artifact) := by
  unfold applyExport
  cases hactive : w.active with
  | none =>
    unfold isCurrent at hcurrent
    rw [hactive] at hcurrent
    cases hcurrent
  | some active =>
    simp only [hcurrent, hexported]
    exact ⟨_, rfl⟩

/-- An export that is not current does nothing. -/
theorem applyExport_of_not_current (w : Workbench) (now : Instant) (outcome : ExportOutcome)
    (h : w.isCurrent outcome.job = false) :
    w.applyExport now outcome = (.ok none, w) := by
  unfold applyExport
  rw [h]
  split <;> rfl

/-- An export that is applied replaces the very document it was begun for, as long as that document
has stayed open; and then it is applied as long as nothing else took its place. Once the document is
closed this is lost: an old export is applied to whatever bytes have been loaded under its name as
often as it has revisions counted. -/
theorem applyExport_own_document_unless_closed (w : Workbench) (hw : w.Reachable)
    (job : ExportJob) (hjob : w.beginExport = .ok job) (after : List (Instant × Event)) :
    (w.StaysOpen after →
      ((w.run after).isCurrent job = true ↔ (w.run after).active = w.active) ∧
        ∀ now result artifact,
          ((w.run after).applyExport now ⟨job, result⟩).1 = .ok (some artifact) →
            (w.run after).document.map OpenDocument.bytes = some job.source) ∧
      ∀ now document composed exported, OpenDocument.ofBytes composed.bytes = .ok exported →
        let reopened := (w.run after).run (reopening now (w.run after) job document)
        reopened.document = some document ∧
          ∃ artifact,
            (reopened.applyExport now ⟨job, .ok composed⟩).1 = .ok (some artifact) := by
  obtain ⟨active, hactive, _, hrevision, hsource⟩ := w.active_of_beginExport job hjob
  refine ⟨?_, ?_⟩
  · intro hopen
    have hiff := w.isCurrent_iff_of_staysOpen job hjob after hopen
    refine ⟨hiff, ?_⟩
    intro now result artifact happlied
    have hsame := hiff.mp (isCurrent_of_applyExport _ now _ artifact happlied)
    unfold document
    rw [hsame, hactive]
    exact congrArg some hsource
  · intro now document composed exported hexported reopened
    have hpos : 0 < job.revision := hrevision ▸ hw.revision_pos active hactive
    have hreopened := (w.run after).run_reopening_active now job document hpos
    refine ⟨?_, ?_⟩
    · unfold Workbench.document
      rw [hreopened]
      rfl
    · apply applyExport_of_isCurrent _ now job composed exported ?_ hexported
      unfold isCurrent
      rw [hreopened]
      simp

/-- The file of a document of one empty page, in a version of the format. -/
def onePageFile (version : Bytes) : Bytes :=
  Bytes.ofText "%PDF-" ++ version ++ [
    "", "1 0 obj", "<</Type/Catalog/Pages 2 0 R>>", "endobj",
    "2 0 obj", "<</Type/Pages/Kids[3 0 R]>>", "endobj",
    "3 0 obj", "<</Type/Page>>", "endobj",
    "xref", "0 4", "0000000000 65535 f ", "0000000009 00000 n ", "0000000054 00000 n ",
    "0000000097 00000 n ", "trailer", "<</Size 4/Root 1 0 R>>", "startxref", "127",
    "%%EOF"].flatMap fun line ↦ Bytes.ofText line ++ [10]

/-- A document of one page in the version 1.4. -/
def older : OpenDocument := ⟨onePageFile [49, 46, 52], ⟨[.letter]⟩⟩

/-- The same page in the version 1.5. -/
def newer : OpenDocument := ⟨onePageFile [49, 46, 53], ⟨[.letter]⟩⟩

theorem ofBytes_older : OpenDocument.ofBytes older.bytes = .ok older := by
  simp only [older, onePageFile, List.flatMap_cons, List.flatMap_nil]
  repeat rw [Bytes.ofText_ofList]
  decide +kernel

theorem ofBytes_newer : OpenDocument.ofBytes newer.bytes = .ok newer := by
  simp only [newer, onePageFile, List.flatMap_cons, List.flatMap_nil]
  repeat rw [Bytes.ofText_ofList]
  decide +kernel

/-- A workbench on which the first of them has just been opened. -/
def withOlder : Workbench :=
  (new (.standard []) .empty Render.blank none).run
    (loads ⟨0, 0⟩ ⟨⟨"a"⟩, older, none, none, false⟩ 0 1)

/-- While a patch is drawn on the document, an export of it stays current; and it would be applied
to another document that is loaded after that one has been closed. -/
theorem applyExport_own_document_withOlder :
    let after := drawing.map (Prod.map id Event.input)
    ∃ job, withOlder.beginExport = .ok job ∧
      (withOlder.run after).isCurrent job = true ∧
      ((withOlder.run after).run
        (reopening ⟨1, 0⟩ (withOlder.run after) job newer)).document = some newer := by
  intro after
  have hopen : ∀ before ∈ after.inits, (withOlder.run before).active.isSome = true := by
    decide +kernel
  obtain ⟨hown, hother⟩ := applyExport_own_document_unless_closed withOlder
    ⟨_, _, _, _, _, rfl⟩ _ rfl after
  refine ⟨_, rfl, ?_, (hother ⟨1, 0⟩ newer ⟨newer.bytes, .empty⟩ newer ofBytes_newer).1⟩
  apply (hown fun before hbefore ↦ hopen before ((List.mem_inits _ _).mpr hbefore)).1.mpr
  decide +kernel

/-- An export is begun, the document is closed, and another one is opened under its name. The export
is applied all the same, although it was composed from other bytes than those it replaces. -/
theorem applyExport_after_reopening :
    OpenDocument.ofBytes older.bytes = .ok older ∧ OpenDocument.ofBytes newer.bytes = .ok newer ∧
      ∃ job, withOlder.beginExport = .ok job ∧
        let reopened := withOlder.run (reopening ⟨1, 0⟩ withOlder job newer)
        reopened.document = some newer ∧ newer.bytes ≠ job.source ∧
          (reopened.applyExport ⟨2, 0⟩ (job.run reopened.builder).1).1.toOption.join.isSome =
            true := by
  refine ⟨ofBytes_older, ofBytes_newer, _, rfl, ?_⟩
  decide +kernel

end Marginalia.Workbench
