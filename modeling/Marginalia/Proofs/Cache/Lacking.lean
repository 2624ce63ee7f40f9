import Marginalia.Proofs.Cache.Reach
import Marginalia.Proofs.Cache.Retention

/-!
# Caches that lack entries

Every operation other than a put goes through some of the files with the names of entries, and
leaves or takes away each entry by itself, whatever else is in the folder. So when two caches differ
only in entries that one of them lacks, they differ only in these after every history, and in none
of them that has been written again. An entry that would not be given out anyway is not missed.
-/

namespace Marginalia.Cache

section
variable {c : Cache}

/-- A change of the entry of a document, which does nothing if the folder is missing. -/
theorem ThinsWithin.of_single (h : c.IsAccessible) {c' : Cache} {id : DocumentId}
    (hmissing : c.folder = .missing → c'.folder = .missing ∧ c'.lifetime = c.lifetime)
    {keep : String → Entry → Bool}
    (hthins : c.folder.HoldsFileAt (fileName id) →
      ThinsOnly (fileName id) (keep (fileName id)) c c') :
    ThinsWithin (· = fileName id) keep c c' := by
  rcases h with hfolder | hfiles
  · obtain ⟨hfolder', hlifetime⟩ := hmissing hfolder
    exact .of_missing hfolder hfolder' hlifetime _ _
  · have hthins := hthins (hfiles _ (isEntryName_fileName id))
    refine ⟨.inr fun name hentry ↦ ?_, hthins.lifetime_eq, ?_, hthins.node?_eq⟩
    · by_cases hname : name = fileName id
      · exact hname ▸ hthins.holdsFile
      · exact (hfiles name hentry).congr (hthins.node?_eq name hname)
    · rintro _ rfl
      exact hthins.slot_eq

theorem readFresh_of_missing (h : c.folder = .missing) (now : Instant) (id : DocumentId) :
    c.readFresh now id = (.ok none, c) := by
  rw [readFresh, h]
  rfl

theorem removeFile_of_missing (h : c.folder = .missing) (name : String) :
    (c.removeFile name).2.folder = .missing := by
  rw [removeFile, h]
  rfl

end

/-! ## Operations -/

/-- The names of the files that an operation goes through. -/
def Operation.Touches (operation : Operation) (name : String) : Prop :=
  match operation.id? with
  | some id => name = fileName id
  | none => isEntryName name = true

theorem Operation.Touches.isEntryName {operation : Operation} {name : String}
    (h : operation.Touches name) : isEntryName name = true := by
  unfold Touches at h
  split at h
  · exact h ▸ isEntryName_fileName _
  · exact h

theorem Operation.put_or_not (operation : Operation) :
    (∃ id payload modifiedAt, operation = .put id payload modifiedAt) ∨
      ∀ id, operation.puts id = false := by
  cases operation with
  | put id payload modifiedAt => exact .inl ⟨id, payload, modifiedAt, rfl⟩
  | _ => exact .inr fun _ ↦ rfl

/-- Every operation other than a put leaves or takes away each entry by itself. -/
theorem perform_thinsWithin {c : Cache} (h : c.IsAccessible) (now : Instant)
    (operation : Operation) (hputs : ∀ id, operation.puts id = false) :
    ThinsWithin operation.Touches (operation.keeps c.lifetime now) c
      (c.perform now operation).2 := by
  cases operation with
  | put id payload modifiedAt => exact absurd (hputs id) (by simp [Operation.puts])
  | get id =>
    refine .of_single h (fun hmissing ↦ ?_) (fun hfile ↦ ?_)
    · simp [perform, forget, get, readFresh_of_missing hmissing, hmissing]
    · obtain ⟨c', hget, hthins⟩ := get_thinsOnly hfile now
      rw [perform, forget, hget]
      exact hthins.congr fun e _ ↦ by simp [Operation.keeps]
  | isValid id modifiedAt =>
    refine .of_single h (fun hmissing ↦ ?_) (fun hfile ↦ ?_)
    · simp [perform, forget, isValid, readFresh_of_missing hmissing, hmissing]
    · obtain ⟨answer, c', hvalid, hthins⟩ := isValid_thinsOnly hfile now modifiedAt
      rw [perform, forget, hvalid]
      exact hthins.congr fun e _ ↦ by simp [Operation.keeps]
  | invalidateIfStale id modifiedAt =>
    refine .of_single h (fun hmissing ↦ ?_) (fun hfile ↦ ?_)
    · simp [perform, forget, invalidateIfStale, readFresh_of_missing hmissing, hmissing]
    · obtain ⟨answer, c', hinvalidate, hthins⟩ := invalidateIfStale_thinsOnly hfile now modifiedAt
      rw [perform, forget, hinvalidate]
      exact hthins.congr fun e _ ↦ by simp [Operation.keeps]
  | remove id =>
    refine .of_single h (fun hmissing ↦ ?_) (fun hfile ↦ ?_)
    · exact ⟨removeFile_of_missing hmissing _, rfl⟩
    · obtain ⟨gone, c', hremove, hthins⟩ := removeFile_thinsOnly hfile
      rw [perform, forget, remove, hremove]
      exact hthins.congr fun e _ ↦ by simp [Operation.keeps]
  | clear =>
    obtain ⟨count, c', hclear, hthins⟩ := clear_thinsWithin h
    rw [perform, forget, hclear]
    exact hthins.congr fun name hname _ ↦ by simp [Operation.keeps, hname]
  | purgeExpired =>
    obtain ⟨count, c', hpurge, hthins⟩ := purgeExpired_thinsWithin h now
    rw [perform, forget, hpurge]
    exact hthins.congr fun name hname _ ↦ by simp [Operation.keeps, hname]

/-! ## Putting -/

theorem isEntryName_temporaryName (id : DocumentId) : isEntryName (temporaryName id) = false := by
  rw [isEntryName, Bool.and_eq_false_imp, List.isSuffixOf_iff_suffix]
  rintro ⟨lead, hlead⟩
  have hlast := congrArg List.getLast? hlead
  simp [temporaryName, String.toList_append] at hlast

theorem ne_temporaryName_of_isEntryName {name : String} (h : isEntryName name = true)
    (id : DocumentId) : name ≠ temporaryName id := by
  rintro rfl
  rw [isEntryName_temporaryName] at h
  cases h

/-- Nothing is put if the temporary file cannot be written. -/
theorem put_thinsWithin_of_not_holdsFileAt {c : Cache} (h : c.IsAccessible) {id : DocumentId}
    (htemporary : ¬c.folder.HoldsFileAt (temporaryName id)) (now : Instant) (payload : Bytes)
    (modifiedAt : Option Instant) :
    ThinsWithin (fun _ ↦ False) (fun _ _ ↦ true) c (c.put now id payload modifiedAt).2 := by
  have hfolder : (c.put now id payload modifiedAt).2.folder = c.folder := by
    unfold put
    cases hfolder : c.folder with
    | missing => rfl
    | blocked => rfl
    | present nodes =>
      have hblocked : nodes.find? (temporaryName id) = some .folder :=
        Decidable.byContradiction fun hfile ↦ htemporary ⟨nodes, hfolder, hfile⟩
      simp [Folder.replacing, Folder.applyAll, Folder.apply, Folder.nodes, Folder.remove, bind,
        Except.bind, hblocked]
  refine ⟨?_, (StaysWithin.put id c now payload modifiedAt).lifetime_eq, fun _ h ↦ h.elim, ?_⟩
  · rwa [IsAccessible, hfolder]
  · intro name _
    rw [hfolder]

/-- No folder stands in the way of a put whose temporary file can be written. -/
theorem IsAccessible.holdsFilesOf {c : Cache} (h : c.IsAccessible) {id : DocumentId}
    (htemporary : c.folder.HoldsFileAt (temporaryName id)) : c.HoldsFilesOf id :=
  ⟨h.holdsFileAt htemporary (isEntryName_fileName id), htemporary⟩

theorem put_isAccessible {c : Cache} (h : c.IsAccessible) (now : Instant) (id : DocumentId)
    (payload : Bytes) (modifiedAt : Option Instant) :
    (c.put now id payload modifiedAt).2.IsAccessible := by
  by_cases htemporary : c.folder.HoldsFileAt (temporaryName id)
  · obtain ⟨c', hput, hfiles, -, -, hother⟩ :=
      put_file (h.holdsFilesOf htemporary) now payload modifiedAt
    rw [hput]
    refine .inr fun name hname ↦ ?_
    by_cases heq : name = fileName id
    · exact heq ▸ hfiles.file
    · exact (h.holdsFileAt htemporary hname).congr
        (hother name heq (ne_temporaryName_of_isEntryName hname id))
  · exact (put_thinsWithin_of_not_holdsFileAt h htemporary now payload modifiedAt).isAccessible

/-- A cache stays accessible, and its lifetime stays the same. -/
theorem perform_isAccessible {c : Cache} (h : c.IsAccessible) (now : Instant)
    (operation : Operation) :
    (c.perform now operation).2.IsAccessible ∧
      (c.perform now operation).2.lifetime = c.lifetime := by
  rcases operation.put_or_not with ⟨id, payload, modifiedAt, rfl⟩ | hputs
  · exact ⟨put_isAccessible h now id payload modifiedAt,
      (StaysWithin.put id c now payload modifiedAt).lifetime_eq⟩
  · have hthins := perform_thinsWithin h now operation hputs
    exact ⟨hthins.isAccessible, hthins.lifetime_eq⟩

theorem run_isAccessible {c : Cache} (h : c.IsAccessible) (history : List (Instant × Operation)) :
    (c.run history).IsAccessible ∧ (c.run history).lifetime = c.lifetime := by
  induction history generalizing c with
  | nil => exact ⟨h, rfl⟩
  | cons entry rest ih =>
    obtain ⟨haccessible, hlifetime⟩ := perform_isAccessible h entry.1 entry.2
    obtain ⟨hrest, hsame⟩ := ih haccessible
    exact ⟨hrest, hsame.trans hlifetime⟩

/-! ## Two caches -/

/-- The second cache is like the first one, but it may lack entries; `idle` says which. -/
structure LacksOnly (idle : String → Entry → Prop) (c d : Cache) : Prop where
  lifetime_eq : d.lifetime = c.lifetime
  isAccessible : c.IsAccessible
  isAccessible' : d.IsAccessible
  slot_eq_or : ∀ name, isEntryName name = true → d.slot name = c.slot name ∨
    d.slot name = none ∧ ∀ e, c.slot name = some e → idle name e
  holdsFileAt_iff : ∀ name, isEntryName name = false →
    (d.folder.HoldsFileAt name ↔ c.folder.HoldsFileAt name)

/-- A change lacks the entries that it does not keep. -/
theorem ThinsWithin.lacksOnly {touched : String → Prop} {keep : String → Entry → Bool}
    {c c' : Cache} (hthins : ThinsWithin touched keep c c') (h : c.IsAccessible)
    (htouched : ∀ name, touched name → isEntryName name = true) :
    LacksOnly (fun name e ↦ touched name ∧ c.slot name = some e ∧ keep name e = false) c c' := by
  refine ⟨hthins.lifetime_eq, h, hthins.isAccessible, fun name _ ↦ ?_, fun name hname ↦ ?_⟩
  · by_cases htouch : touched name
    · rw [hthins.slot_eq name htouch]
      cases hslot : c.slot name with
      | none => exact .inl rfl
      | some e =>
        cases hkeep : keep name e with
        | true => exact .inl (Option.filter_some_pos hkeep)
        | false =>
          refine .inr ⟨Option.filter_some_neg (by simp [hkeep]), fun other hother ↦ ?_⟩
          obtain rfl := Option.some.inj hother
          exact ⟨htouch, rfl, hkeep⟩
    · exact .inl (slot_congr (hthins.node?_eq name htouch))
  · have huntouched : ¬touched name := fun htouch ↦ by simp [htouched name htouch] at hname
    exact Folder.holdsFileAt_congr (hthins.node?_eq name huntouched)

namespace LacksOnly

variable {idle : String → Entry → Prop} {c d : Cache}

/-- What both caches do to each entry by itself leaves them alike. -/
theorem thinsWithin (h : LacksOnly idle c d) {touched : String → Prop}
    {keep : String → Entry → Bool} {c' d' : Cache} (hc : ThinsWithin touched keep c c')
    (hd : ThinsWithin touched keep d d')
    (htouched : ∀ name, touched name → isEntryName name = true) : LacksOnly idle c' d' := by
  refine ⟨hd.lifetime_eq.trans (h.lifetime_eq.trans hc.lifetime_eq.symm), hc.isAccessible,
    hd.isAccessible, fun name hname ↦ ?_, fun name hname ↦ ?_⟩
  · by_cases htouch : touched name
    · rw [hc.slot_eq name htouch, hd.slot_eq name htouch]
      rcases h.slot_eq_or name hname with heq | ⟨hnone, hidle⟩
      · exact .inl (congrArg (Option.filter (keep name)) heq)
      · refine .inr ⟨by rw [hnone]; rfl, fun e he ↦ ?_⟩
        exact hidle e (Option.filter_eq_some_iff.mp he).1
    · rw [slot_congr (hc.node?_eq name htouch), slot_congr (hd.node?_eq name htouch)]
      exact h.slot_eq_or name hname
  · have huntouched : ¬touched name := fun htouch ↦ by simp [htouched name htouch] at hname
    rw [Folder.holdsFileAt_congr (hc.node?_eq name huntouched),
      Folder.holdsFileAt_congr (hd.node?_eq name huntouched)]
    exact h.holdsFileAt_iff name hname

theorem put (h : LacksOnly idle c d) (now : Instant) (id : DocumentId) (payload : Bytes)
    (modifiedAt : Option Instant) :
    LacksOnly idle (c.put now id payload modifiedAt).2 (d.put now id payload modifiedAt).2 := by
  have haccessible := put_isAccessible h.isAccessible now id payload modifiedAt
  have haccessible' := put_isAccessible h.isAccessible' now id payload modifiedAt
  have hname := isEntryName_temporaryName id
  by_cases htemporary : c.folder.HoldsFileAt (temporaryName id)
  · have htemporary' := (h.holdsFileAt_iff _ hname).mpr htemporary
    obtain ⟨c', hput, hfiles, hlifetime, hself, hother⟩ :=
      put_file (h.isAccessible.holdsFilesOf htemporary) now payload modifiedAt
    obtain ⟨d', hput', hfiles', hlifetime', hself', hother'⟩ :=
      put_file (h.isAccessible'.holdsFilesOf htemporary') now payload modifiedAt
    rw [hput] at haccessible ⊢
    rw [hput'] at haccessible' ⊢
    refine ⟨hlifetime'.trans (h.lifetime_eq.trans hlifetime.symm), haccessible, haccessible',
      fun name hentry ↦ ?_, fun name hentry ↦ ?_⟩
    · by_cases heq : name = fileName id
      · subst heq
        exact .inl (by rw [slot, slot, hself, hself'])
      · have hne := ne_temporaryName_of_isEntryName hentry id
        rw [slot_congr (hother name heq hne), slot_congr (hother' name heq hne)]
        exact h.slot_eq_or name hentry
    · by_cases heq : name = temporaryName id
      · exact heq ▸ iff_of_true hfiles'.temporary hfiles.temporary
      · have hne : name ≠ fileName id := by
          rintro rfl
          rw [isEntryName_fileName] at hentry
          cases hentry
        rw [Folder.holdsFileAt_congr (hother name hne heq),
          Folder.holdsFileAt_congr (hother' name hne heq)]
        exact h.holdsFileAt_iff name hentry
  · have htemporary' := fun hfile ↦ htemporary ((h.holdsFileAt_iff _ hname).mp hfile)
    exact h.thinsWithin
      (put_thinsWithin_of_not_holdsFileAt h.isAccessible htemporary now payload modifiedAt)
      (put_thinsWithin_of_not_holdsFileAt h.isAccessible' htemporary' now payload modifiedAt)
      fun _ hnever ↦ hnever.elim

/-- Whatever is asked of both caches leaves them alike. -/
theorem perform (h : LacksOnly idle c d) (now : Instant) (operation : Operation) :
    LacksOnly idle (c.perform now operation).2 (d.perform now operation).2 := by
  rcases operation.put_or_not with ⟨id, payload, modifiedAt, rfl⟩ | hputs
  · exact h.put now id payload modifiedAt
  · have hd := perform_thinsWithin h.isAccessible' now operation hputs
    rw [h.lifetime_eq] at hd
    exact h.thinsWithin (perform_thinsWithin h.isAccessible now operation hputs) hd
      fun _ htouch ↦ htouch.isEntryName

theorem run (h : LacksOnly idle c d) (history : List (Instant × Operation)) :
    LacksOnly idle (c.run history) (d.run history) := by
  induction history generalizing c d with
  | nil => exact h
  | cons entry rest ih => exact ih (h.perform entry.1 entry.2)

end LacksOnly

end Marginalia.Cache
