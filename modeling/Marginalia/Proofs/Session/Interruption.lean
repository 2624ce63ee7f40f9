import Marginalia.Proofs.Cache.Interruption
import Marginalia.Proofs.Session.Files
import Marginalia.Session.Saving

/-!
# Writes that fail or stop

Saving a session that does not come as far as renaming its file leaves at most a folder and a
temporary file behind, and neither is ever loaded. So sessions and cached documents alike are
replaced as a whole or not at all, wherever the program is stopped.
-/

namespace Marginalia

namespace Folder

/-- The folder, once it is made if it is missing. -/
def created : Folder → Folder
  | missing => empty
  | blocked => blocked
  | present nodes => present nodes

theorem created_created (f : Folder) : f.created.created = f.created := by
  cases f <;> rfl

theorem created_of_create {f f' : Folder} (h : f.create = .ok f') : f.created = f' := by
  cases f <;> cases h <;> rfl

theorem created_of_apply {f f' : Folder} {change : Change} (h : f.apply change = .ok f') :
    f'.created = f' := by
  cases f with
  | missing => cases h
  | blocked => cases h
  | present nodes =>
    cases change with
    | write name bytes =>
      rw [apply_write_present] at h
      split at h <;> cases h
      rfl
    | rename source target =>
      rw [apply_rename_present] at h
      split at h
      · cases h
      · split at h <;> cases h
        rfl
    | remove name =>
      rw [apply_remove_present] at h
      split at h <;> cases h
      rfl

theorem created_applyAll (f : Folder) (changes : List Change) :
    (f.created.applyAll changes).2.created = (f.created.applyAll changes).2 := by
  induction changes generalizing f with
  | nil => exact f.created_created
  | cons change rest ih =>
    rw [applyAll]
    split
    · exact f.created_created
    · next f' happly =>
      rw [← created_of_apply happly]
      exact ih f'

/-- Removing a file does the same whether the folder has been made or not. -/
theorem remove_created (f : Folder) (name : String) :
    f.created.remove name = ((f.remove name).1, (f.remove name).2.created) := by
  cases f with
  | missing => rfl
  | blocked => rfl
  | present nodes =>
    have hcreated : ((present nodes).remove name).2.created = ((present nodes).remove name).2 := by
      rw [remove]
      split
      · next happly => exact created_of_apply happly
      · rfl
      · rfl
    rw [hcreated]
    rfl

end Folder

namespace Session

/-! ## Folders that differ in the temporary file -/

/-- Two folders that differ in the temporary file only, or in whether the folder has been made. -/
abbrev Alike (f f' : Folder) : Prop := f.created.DiffersAt temporaryName f'.created

theorem load_created (f : Folder) : load f.created = load f := by
  cases f <;> rfl

theorem clear_eq (f : Folder) :
    clear f = ((f.remove fileName).1.map fun _ ↦ (), (f.remove fileName).2) := rfl

/-- Saving replaces the file in the folder. -/
theorem save_eq (f : Folder) (s : Session) : s.save f =
    match f.created.applyAll (Folder.replacing fileName temporaryName s.encode) with
    | (none, f) => (.ok (), f)
    | (some e, f) => (.error e, f) := by
  cases f <;> rfl

variable {f f' : Folder}

theorem Alike.load_eq (h : Alike f f') : load f' = load f := by
  rw [← load_created f, ← load_created f', load, load, h.read_eq fileName_ne_temporaryName]

theorem Alike.save (h : Alike f f') (s : Session) :
    (s.save f').1 = (s.save f).1 ∧ Alike (s.save f).2 (s.save f').2 := by
  obtain ⟨hanswer, hdiffers⟩ := h.replacing fileName_ne_temporaryName s.encode
  rw [← Folder.created_applyAll f, ← Folder.created_applyAll f'] at hdiffers
  rw [save_eq, save_eq]
  generalize f.created.applyAll _ = first at *
  generalize f'.created.applyAll _ = second at *
  obtain ⟨e, g⟩ := first
  obtain ⟨e', g'⟩ := second
  obtain rfl : e = e' := hanswer
  cases e <;> exact ⟨rfl, hdiffers⟩

theorem Alike.clear (h : Alike f f') :
    (clear f').1 = (clear f).1 ∧ Alike (clear f).2 (clear f').2 := by
  obtain ⟨hanswer, hdiffers⟩ := h.remove fileName_ne_temporaryName
  rw [Folder.remove_created, Folder.remove_created] at hanswer hdiffers
  rw [clear_eq, clear_eq]
  exact ⟨congrArg (Except.map fun _ ↦ ()) hanswer.symm, hdiffers⟩

theorem Alike.perform (h : Alike f f') (operation : StoreOperation) :
    (perform f' operation).1 = (perform f operation).1 ∧
      Alike (perform f operation).2 (perform f' operation).2 := by
  cases operation with
  | load => exact ⟨h.load_eq, h⟩
  | save s => exact ⟨congrArg (Except.map fun _ ↦ none) (h.save s).1, (h.save s).2⟩
  | clear => exact ⟨congrArg (Except.map fun _ ↦ none) h.clear.1, h.clear.2⟩

theorem Alike.answers_eq (h : Alike f f') (history : List StoreOperation) :
    answers f' history = answers f history := by
  induction history generalizing f f' with
  | nil => rfl
  | cons operation rest ih =>
    obtain ⟨hanswer, halike⟩ := h.perform operation
    rw [answers, answers, hanswer, ih halike]

/-! ## Saving step by step -/

/-- What the steps of saving a session can come to. -/
abbrev Saves (s : Session) (f f' : Folder) (stage : SaveStage) : Prop :=
  Relation.ReflTransGen (SaveStep s) (f, .started) (f', stage)

/-- What is on disk at a stage of saving. -/
def IsAtSave (s : Session) (f : Folder) : Folder × SaveStage → Prop
  | (f', .started) => f' = f
  | (f', .refused) => f' = f
  | (f', .replacing stage) => f.created.IsAtStage fileName temporaryName s.encode f' stage

variable {s : Session}

theorem isAtSave_of_step {p q : Folder × SaveStage} (h : IsAtSave s f p)
    (hstep : SaveStep s p q) : IsAtSave s f q := by
  cases hstep with
  | create hcreate =>
    obtain rfl : _ = f := h
    exact (Folder.created_of_create hcreate).symm
  | failCreating => exact h
  | replace hreplace => exact Folder.isAtStage_of_step h hreplace

theorem isAtSave_of_saves {p : Folder × SaveStage}
    (h : Relation.ReflTransGen (SaveStep s) (f, .started) p) : IsAtSave s f p := by
  induction h with
  | refl => rfl
  | tail _ hstep ih => exact isAtSave_of_step ih hstep

/-- Until the file is renamed, at most the folder has been made and the temporary file written. -/
theorem alike_of_saves {stage : SaveStage} (h : Saves s f f' stage)
    (hstage : stage ≠ .replacing .renamed) : Alike f f' := by
  have hat := isAtSave_of_saves h
  cases stage with
  | started => exact (show f' = f from hat) ▸ .refl _ _
  | refused => exact (show f' = f from hat) ▸ .refl _ _
  | replacing stage =>
    have hdiffers : f.created.DiffersAt temporaryName f' :=
      Folder.IsAtStage.differsAt hat fun hrenamed ↦ hstage (congrArg _ hrenamed)
    have hcreated : f'.created = f' := by
      cases f <;> cases hdiffers <;> rfl
    rwa [Alike, hcreated]

theorem saves_of_steps {stage : Folder.Stage} {f₁ : Folder} (hcreate : f.create = .ok f₁)
    (h : Relation.ReflTransGen (Folder.ReplacingStep fileName temporaryName s.encode)
      (f₁, .preparing) (f', stage)) : Saves s f f' (.replacing stage) := by
  let within (p : Folder × Folder.Stage) : Folder × SaveStage := (p.1, .replacing p.2)
  have hlift := Relation.ReflTransGen.lift (p := SaveStep s) within
    (fun _ _ hstep ↦ SaveStep.replace hstep) _ _ h
  exact .head (.create hcreate) hlift

/-- Without other faults than those of the folder, the steps come to where saving does. -/
theorem exists_saves (f : Folder) (s : Session) : ∃ stage, Saves s f (s.save f).2 stage ∧
    ((s.save f).1 = .ok () ↔ stage = .replacing .renamed) := by
  rw [save]
  cases hcreate : f.create with
  | error e =>
    have hfail : Saves s f f .refused := .single .failCreating
    exact ⟨_, hfail, by simp⟩
  | ok f₁ =>
    simp only [Folder.replacing, Folder.applyAll]
    cases hwrite : f₁.apply (.write temporaryName s.encode) with
    | error e =>
      have hfail := saves_of_steps (s := s) hcreate (.single .failBefore)
      exact ⟨_, hfail, by simp⟩
    | ok g =>
      have hwritten := Folder.steps_of_write_all hwrite fileName
      cases hrename : g.apply (.rename temporaryName fileName) with
      | error e =>
        have hfail := saves_of_steps hcreate (hwritten.tail .failRenaming)
        simp only [hrename]
        exact ⟨_, hfail, by simp⟩
      | ok g' =>
        have hdone := saves_of_steps hcreate (hwritten.tail (.rename hrename))
        simp only [hrename]
        exact ⟨_, hdone, by simp⟩

/-- Until its file is renamed, which is a single step, saving shows nothing, wherever it fails or
stops; from then on it shows the whole session. -/
structure SavesWhole (f : Folder) (s : Session) : Prop where
  before : ∀ f' stage, Saves s f f' stage → stage ≠ .replacing .renamed →
    load f' = load f ∧ ∀ history, answers f' history = answers f history
  switch : ∀ g stage g', SaveStep s (g, stage) (g', .replacing .renamed) →
    g.apply (.rename temporaryName fileName) = .ok g'
  after : ∀ f', Saves s f f' (.replacing .renamed) →
    s.save f = (.ok (), f') ∧ f'.read fileName = .ok s.encode ∧
      load f' = .ok (decode? s.encode)
  reaches : ∃ stage, Saves s f (s.save f).2 stage ∧
    ((s.save f).1 = .ok () ↔ stage = .replacing .renamed)

theorem savesWhole (f : Folder) (s : Session) : SavesWhole f s where
  before f' stage hsaves hstage := by
    have halike := alike_of_saves hsaves hstage
    exact ⟨halike.load_eq, halike.answers_eq⟩
  switch g stage g' hstep := by
    cases hstep with
    | replace hreplace => exact Folder.rename_of_step hreplace
  after f' hsaves := by
    have hat := isAtSave_of_saves hsaves
    have hread := Folder.read_of_replacing hat
    refine ⟨?_, hread, load_of_read hread⟩
    rw [save_eq, show f.created.applyAll _ = _ from hat]
  reaches := exists_saves f s

end Session

/-- Documents and sessions are put on disk as a whole or not at all: wherever that fails or stops,
nothing is shown until the file is renamed, and everything from then on. What the temporary file
holds is never looked at. -/
theorem interrupted_writes_show_nothing :
    (∀ c : Cache, c.folder.IsAscending → ∀ now id payload modifiedAt,
      c.PutsWhole now id payload modifiedAt) ∧
    (∀ (c : Cache) (id : DocumentId),
      (∀ names, c.entryNames = .ok names → Cache.temporaryName id ∉ names) ∧
        ∀ now operation, (∀ other, Cache.Operation.puts other operation = false) →
          (c.perform now operation).2.folder.node? (Cache.temporaryName id) =
            c.folder.node? (Cache.temporaryName id)) ∧
    ∀ (f : Folder) (s : Session), s.SavesWhole f :=
  ⟨fun _ hc ↦ Cache.putsWhole hc, Cache.temporary_untouched, fun f s ↦ Session.savesWhole f s⟩

/-- A put over an old entry that stops after three bytes, and a session that stops being saved where
there is no folder yet. -/
theorem interrupted_writes_show_nothing_writing :
    let id : DocumentId := ⟨"a"⟩
    let c : Cache := ⟨.present [(Cache.fileName id, .file [1, 2])], 1000, .zero⟩
    let s : Session := ⟨id, none, ⟨[], []⟩, 1, 0, ⟨0, 0⟩⟩
    c.folder.IsAscending ∧
      (∃ d stage, c.Puts id (Cache.putBytes ⟨0, 0⟩ id [7] none) d stage ∧
        d.folder.read (Cache.temporaryName id) = .ok (Cache.tag.take 3) ∧ c.ShowsSame d) ∧
      ∃ f stage, s.Saves .missing f stage ∧ f.read Session.temporaryName = .ok [] ∧
        Session.load f = .ok none := by
  intro id c s
  have hc : c.folder.IsAscending := List.pairwise_singleton _ _
  obtain ⟨hput, -, hsave⟩ := interrupted_writes_show_nothing
  refine ⟨hc, ?_, ?_⟩
  · let bytes := Cache.putBytes ⟨0, 0⟩ id [7] none
    have hbytes : bytes.take 3 = Cache.tag.take 3 := by
      simp only [bytes, Cache.putBytes, Cache.encode, List.append_assoc]
      exact List.take_append_of_le_length (by decide +kernel)
    have hall : 3 ≤ bytes.length := by
      have hlength := congrArg List.length hbytes
      rw [List.length_take, show (Cache.tag.take 3).length = 3 by decide +kernel] at hlength
      omega
    have hwrite : c.folder.apply (.write (Cache.temporaryName id) (bytes.take 3)) =
        .ok (.present (Nodes.put (Cache.temporaryName id) (.file (bytes.take 3))
          [(Cache.fileName id, .file [1, 2])])) := by
      rw [Folder.apply_write_present, Nodes.find?,
        if_neg (Cache.fileName_ne_temporaryName id id).symm]
      rfl
    have hputs := Cache.puts_of_steps c (Folder.steps_of_write hall hwrite (Cache.fileName id))
    have hsame := (hput c hc _ _ _ _).before _ _ hputs (by simp [Cache.PutStage.IsRenamed])
    refine ⟨_, _, hputs, ?_, hsame⟩
    rw [Folder.read_present, Nodes.find?_put_self, ← hbytes]
  · have hsaves : s.Saves .missing (.present [(Session.temporaryName, .file [])])
        (.replacing (.writing 0)) :=
      Session.saves_of_steps rfl (.single (.start rfl))
    exact ⟨_, _, hsaves, rfl, ((hsave _ _).before _ _ hsaves (by simp)).1⟩

end Marginalia
