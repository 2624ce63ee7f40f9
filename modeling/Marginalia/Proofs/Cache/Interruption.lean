import Marginalia.Cache.Putting
import Marginalia.Proofs.Cache.Headers
import Marginalia.Proofs.Cache.Lacking
import Marginalia.Proofs.Folder.Replacing

/-!
# Puts that fail or stop

Whatever a put leaves behind when it does not come as far as renaming its file, no operation shows
it: the temporary file is no entry by its name, so nothing but another put looks at it, and that one
writes it anew. A put that comes that far has replaced the whole entry.
-/

namespace Marginalia

namespace Cache

/-- A put replaces the file, and cleans up where that fails. -/
theorem put_eq (c : Cache) (now : Instant) (id : DocumentId) (payload : Bytes)
    (modifiedAt : Option Instant) : c.put now id payload modifiedAt =
      match c.folder.applyAll (Folder.replacing (fileName id) (temporaryName id)
        (putBytes now id payload modifiedAt)) with
      | (none, folder) =>
        (.ok (), { c with folder, stats := { c.stats with writes := c.stats.writes + 1 } })
      | (some e, folder) =>
        (.error e, { c with folder := (folder.remove (temporaryName id)).2 }) := rfl

/-- The entries are the files with the names of entries. -/
theorem entryNames_eq_filter (c : Cache) : c.entryNames =
    match c.folder.names.map fun names ↦ names.filter isEntryName with
    | .error .missing => .ok []
    | .error e => .error e
    | .ok names => .ok names := by
  rw [entryNames]
  cases c.folder.names with
  | error e => cases e <;> rfl
  | ok names => rfl

/-! ## Caches that differ in one file -/

/-- Two caches that differ in one file only, and in that one only as a file. -/
structure Alike (name : String) (c d : Cache) : Prop where
  lifetime_eq : d.lifetime = c.lifetime
  stats_eq : d.stats = c.stats
  differsAt : c.folder.DiffersAt name d.folder
  ascending : c.folder.IsAscending
  ascending' : d.folder.IsAscending

/-- Two caches gave the same answer and are still alike. -/
structure AlikeAnswered {α : Type} (name : String) (a b : α × Cache) : Prop where
  answer_eq : b.1 = a.1
  alike : Alike name a.2 b.2

theorem AlikeAnswered.exists_eq {α : Type} {name : String} {a b : α × Cache}
    (h : AlikeAnswered name a b) :
    ∃ answer c d, a = (answer, c) ∧ b = (answer, d) ∧ Alike name c d :=
  ⟨a.1, a.2, b.2, rfl, Prod.ext h.answer_eq rfl, h.alike⟩

namespace Alike

variable {name : String} {c d : Cache} (h : Alike name c d)
include h

theorem count (change : CacheStats → CacheStats) :
    Alike name { c with stats := change c.stats } { d with stats := change d.stats } :=
  ⟨h.lifetime_eq, congrArg change h.stats_eq, h.differsAt, h.ascending, h.ascending'⟩

theorem countExpired : Alike name c.countExpired d.countExpired :=
  h.count fun stats ↦ { stats with expired := stats.expired + 1 }

theorem countCorrupt : Alike name c.countCorrupt d.countCorrupt :=
  h.count fun stats ↦ { stats with corrupt := stats.corrupt + 1 }

theorem isExpired_eq (now : Instant) (e : Entry) : d.isExpired now e = c.isExpired now e := by
  rw [isExpired, isExpired, h.lifetime_eq]

theorem removeFile {other : String} (hne : other ≠ name) :
    AlikeAnswered name (c.removeFile other) (d.removeFile other) := by
  obtain ⟨hanswer, hdiffers⟩ := h.differsAt.remove hne
  exact ⟨hanswer.symm, h.lifetime_eq, h.stats_eq, hdiffers, h.ascending.remove other,
    h.ascending'.remove other⟩

section
variable {id : DocumentId} (hname : fileName id ≠ name)
include hname

theorem discard : AlikeAnswered name (c.discard (fileName id)) (d.discard (fileName id)) :=
  have hremove := h.removeFile hname
  ⟨congrArg (Except.map fun _ ↦ none) hremove.answer_eq, hremove.alike⟩

theorem readFresh (now : Instant) :
    AlikeAnswered name (c.readFresh now id) (d.readFresh now id) := by
  rw [Cache.readFresh, Cache.readFresh, ← h.differsAt.read_eq hname]
  split
  · exact ⟨rfl, h⟩
  · exact ⟨rfl, h⟩
  · split
    · exact h.countCorrupt.discard hname
    · rw [h.isExpired_eq]
      split
      · exact h.countExpired.discard hname
      · exact ⟨rfl, h⟩

theorem get (now : Instant) : AlikeAnswered name (c.get now id) (d.get now id) := by
  obtain ⟨answer, c', d', hc, hd, halike⟩ := (h.readFresh hname now).exists_eq
  rw [Cache.get, Cache.get, hc, hd]
  rcases answer with e | none | e
  · exact ⟨rfl, halike⟩
  · exact ⟨rfl, halike.count fun stats ↦ { stats with misses := stats.misses + 1 }⟩
  · exact ⟨rfl, halike.count fun stats ↦ { stats with hits := stats.hits + 1 }⟩

theorem isValid (now modifiedAt : Instant) :
    AlikeAnswered name (c.isValid now id modifiedAt) (d.isValid now id modifiedAt) := by
  obtain ⟨answer, c', d', hc, hd, halike⟩ := (h.readFresh hname now).exists_eq
  rw [Cache.isValid, Cache.isValid, hc, hd]
  cases answer <;> exact ⟨rfl, halike⟩

theorem invalidateIfStale (now modifiedAt : Instant) :
    AlikeAnswered name (c.invalidateIfStale now id modifiedAt)
      (d.invalidateIfStale now id modifiedAt) := by
  obtain ⟨answer, c', d', hc, hd, halike⟩ := (h.readFresh hname now).exists_eq
  rw [Cache.invalidateIfStale, Cache.invalidateIfStale, hc, hd]
  rcases answer with e | none | e
  · exact ⟨rfl, halike⟩
  · exact ⟨rfl, halike⟩
  · dsimp only
    split
    · exact halike.removeFile hname
    · exact ⟨rfl, halike⟩

end

/-! ## Sweeps -/

theorem purgeFile {other : String} (hne : other ≠ name) (now : Instant) :
    AlikeAnswered name (c.purgeFile now other) (d.purgeFile now other) := by
  rw [Cache.purgeFile, Cache.purgeFile, ← h.differsAt.read_eq hne]
  split
  · exact ⟨rfl, h⟩
  · exact ⟨rfl, h⟩
  · split
    · exact h.countCorrupt.removeFile hne
    · rw [h.isExpired_eq]
      split
      · exact h.countExpired.removeFile hne
      · exact ⟨rfl, h⟩

omit h in
theorem sweep {step : Cache → String → Except FileError Bool × Cache}
    (hstep : ∀ c d other, Alike name c d → other ≠ name →
      AlikeAnswered name (step c other) (step d other))
    {names : List String} (hnames : name ∉ names) (h : Alike name c d) (removed : Nat) :
    AlikeAnswered name (Cache.sweep step c removed names) (Cache.sweep step d removed names) := by
  induction names generalizing c d removed with
  | nil => exact ⟨rfl, h⟩
  | cons other rest ih =>
    obtain ⟨hne, hrest⟩ := List.ne_and_not_mem_of_not_mem_cons hnames
    obtain ⟨answer, c', d', hc, hd, halike⟩ := (hstep c d other h hne.symm).exists_eq
    rw [Cache.sweep, Cache.sweep, hc, hd]
    cases answer with
    | error e => exact ⟨rfl, halike⟩
    | ok gone => exact ih hrest halike _

omit h in
theorem isEntryName_of_mem_entryNames {names : List String} (hnames : c.entryNames = .ok names)
    {other : String} (hother : other ∈ names) : isEntryName other = true := by
  rw [entryNames] at hnames
  split at hnames
  · cases hnames
    cases hother
  · cases hnames
  · cases hnames
    exact (List.mem_filter.mp hother).2

section
variable (hname : isEntryName name = false)
include hname

theorem entryNames_eq : d.entryNames = c.entryNames := by
  rw [entryNames_eq_filter, entryNames_eq_filter, h.differsAt.names_eq hname]

theorem sweepEntries {step : Cache → String → Except FileError Bool × Cache}
    (hstep : ∀ c d other, Alike name c d → other ≠ name →
      AlikeAnswered name (step c other) (step d other)) :
    AlikeAnswered name (c.sweepEntries step) (d.sweepEntries step) := by
  rw [Cache.sweepEntries, Cache.sweepEntries, h.entryNames_eq hname]
  split
  · exact ⟨rfl, h⟩
  · next names hnames =>
    refine sweep hstep (fun hmem ↦ ?_) h 0
    rw [isEntryName_of_mem_entryNames hnames hmem] at hname
    cases hname

theorem fileName_ne (id : DocumentId) : fileName id ≠ name := by
  rintro rfl
  rw [isEntryName_fileName] at hname
  cases hname

/-! ## Puts -/

theorem replacing (id : DocumentId) (bytes : Bytes) :
    let changes := Folder.replacing (fileName id) (temporaryName id) bytes
    (c.folder.applyAll changes).1 = (d.folder.applyAll changes).1 ∧
      Folder.DiffersAt name (c.folder.applyAll changes).2 (d.folder.applyAll changes).2 := by
  have hfile := fileName_ne h hname id
  by_cases htemporary : temporaryName id = name
  · subst htemporary
    exact h.differsAt.replacing hfile bytes
  · refine h.differsAt.applyAll h.ascending h.ascending' ?_
    simp [Folder.replacing, Folder.Change.names, hfile.symm, Ne.symm htemporary]

theorem put (now : Instant) (id : DocumentId) (payload : Bytes) (modifiedAt : Option Instant) :
    AlikeAnswered name (c.put now id payload modifiedAt) (d.put now id payload modifiedAt) := by
  let bytes := putBytes now id payload modifiedAt
  obtain ⟨hanswer, hdiffers⟩ := h.replacing hname id bytes
  have hf := h.ascending.applyAll (Folder.replacing (fileName id) (temporaryName id) bytes)
  have hf' := h.ascending'.applyAll (Folder.replacing (fileName id) (temporaryName id) bytes)
  rw [put_eq, put_eq]
  generalize c.folder.applyAll _ = first at *
  generalize d.folder.applyAll _ = second at *
  obtain ⟨e, f⟩ := first
  obtain ⟨e', f'⟩ := second
  obtain rfl : e = e' := hanswer
  cases e with
  | none => exact ⟨rfl, h.lifetime_eq, by simp only [h.stats_eq], hdiffers, hf, hf'⟩
  | some e =>
    exact ⟨rfl, h.lifetime_eq, h.stats_eq, hdiffers.remove_any _, hf.remove _, hf'.remove _⟩

theorem perform (now : Instant) (operation : Operation) :
    d.answer now operation = c.answer now operation ∧
      Alike name (c.perform now operation).2 (d.perform now operation).2 := by
  have hfile (id : DocumentId) : fileName id ≠ name := fileName_ne h hname id
  cases operation with
  | put id payload modifiedAt =>
    have hput := h.put hname now id payload modifiedAt
    exact ⟨congrArg Answer.done hput.answer_eq, hput.alike⟩
  | get id =>
    have hget := h.get (hfile id) now
    exact ⟨congrArg Answer.entry hget.answer_eq, hget.alike⟩
  | isValid id modifiedAt =>
    have hvalid := h.isValid (hfile id) now modifiedAt
    exact ⟨congrArg Answer.verdict hvalid.answer_eq, hvalid.alike⟩
  | invalidateIfStale id modifiedAt =>
    have hinvalidate := h.invalidateIfStale (hfile id) now modifiedAt
    exact ⟨congrArg Answer.verdict hinvalidate.answer_eq, hinvalidate.alike⟩
  | remove id =>
    have hremove := h.removeFile (hfile id)
    exact ⟨congrArg Answer.verdict hremove.answer_eq, hremove.alike⟩
  | clear =>
    have hclear : AlikeAnswered name c.clear d.clear :=
      h.sweepEntries hname fun _ _ _ halike hne ↦ halike.removeFile hne
    exact ⟨congrArg Answer.count hclear.answer_eq, hclear.alike⟩
  | purgeExpired =>
    have hpurge : AlikeAnswered name (c.purgeExpired now) (d.purgeExpired now) :=
      h.sweepEntries hname fun _ _ _ halike hne ↦ halike.purgeFile hne now
    exact ⟨congrArg Answer.count hpurge.answer_eq, hpurge.alike⟩

/-- The answers to every history are the same. -/
theorem answers_eq (history : List (Instant × Operation)) :
    d.answers history = c.answers history := by
  induction history generalizing c d with
  | nil => rfl
  | cons entry rest ih =>
    obtain ⟨hanswer, halike⟩ := h.perform hname entry.1 entry.2
    rw [answers, answers, hanswer, halike.stats_eq, ih halike]

end

end Alike

/-- Whatever is asked of a cache, the names in its folder keep ascending. -/
theorem run_isAscending {c : Cache} (hc : c.folder.IsAscending)
    (history : List (Instant × Operation)) : (c.run history).folder.IsAscending := by
  induction history generalizing c with
  | nil => exact hc
  | cons entry rest ih =>
    have halike : Alike (temporaryName ⟨""⟩) c c := ⟨rfl, rfl, .refl _ _, hc, hc⟩
    exact ih (halike.perform (isEntryName_temporaryName _) entry.1 entry.2).2.ascending

/-! ## The temporary file -/

section
variable {name : String}

theorem removeFile_node? (c : Cache) {other : String} (hne : name ≠ other) :
    (c.removeFile other).2.folder.node? name = c.folder.node? name :=
  c.folder.remove_node? hne

theorem readFresh_node? (c : Cache) (now : Instant) {id : DocumentId} (hne : name ≠ fileName id) :
    (c.readFresh now id).2.folder.node? name = c.folder.node? name := by
  rw [readFresh]
  split
  · rfl
  · rfl
  · split
    · exact c.countCorrupt.removeFile_node? hne
    · split
      · exact c.countExpired.removeFile_node? hne
      · rfl

theorem purgeFile_node? (c : Cache) (now : Instant) {other : String} (hne : name ≠ other) :
    (c.purgeFile now other).2.folder.node? name = c.folder.node? name := by
  rw [purgeFile]
  split
  · rfl
  · rfl
  · split
    · exact c.countCorrupt.removeFile_node? hne
    · split
      · exact c.countExpired.removeFile_node? hne
      · rfl

theorem sweep_node? {step : Cache → String → Except FileError Bool × Cache}
    (hstep : ∀ c other, name ≠ other → (step c other).2.folder.node? name = c.folder.node? name)
    {names : List String} (hnames : name ∉ names) (c : Cache) (removed : Nat) :
    (sweep step c removed names).2.folder.node? name = c.folder.node? name := by
  induction names generalizing c removed with
  | nil => rfl
  | cons other rest ih =>
    obtain ⟨hne, hrest⟩ := List.ne_and_not_mem_of_not_mem_cons hnames
    have hfirst := hstep c other hne
    rw [sweep]
    split
    · next heq => rwa [heq] at hfirst
    · next heq =>
      rw [heq] at hfirst
      exact (ih hrest _ _).trans hfirst

theorem sweepEntries_node? {step : Cache → String → Except FileError Bool × Cache}
    (hstep : ∀ c other, name ≠ other → (step c other).2.folder.node? name = c.folder.node? name)
    (hname : isEntryName name = false) (c : Cache) :
    (c.sweepEntries step).2.folder.node? name = c.folder.node? name := by
  rw [sweepEntries]
  split
  · rfl
  · next names hnames =>
    refine sweep_node? hstep (fun hmem ↦ ?_) c 0
    rw [Alike.isEntryName_of_mem_entryNames hnames hmem] at hname
    cases hname

/-- No operation other than a put touches a file that is no entry by its name. -/
theorem perform_node? (c : Cache) (now : Instant) {operation : Operation}
    (hputs : ∀ id, operation.puts id = false) (hname : isEntryName name = false) :
    (c.perform now operation).2.folder.node? name = c.folder.node? name := by
  have hfile (id : DocumentId) : name ≠ fileName id := by
    rintro rfl
    rw [isEntryName_fileName] at hname
    cases hname
  cases operation with
  | put id payload modifiedAt => simp [Operation.puts] at hputs
  | get id =>
    have hread := c.readFresh_node? now (hfile id)
    rw [perform, forget, get]
    split <;> next heq => rw [heq] at hread; exact hread
  | isValid id modifiedAt =>
    have hread := c.readFresh_node? now (hfile id)
    rw [perform, forget, isValid]
    split <;> next heq => rw [heq] at hread; exact hread
  | invalidateIfStale id modifiedAt =>
    have hread := c.readFresh_node? now (hfile id)
    rw [perform, forget, invalidateIfStale]
    split
    · next heq => rwa [heq] at hread
    · next heq => rwa [heq] at hread
    · next heq =>
      rw [heq] at hread
      split
      · exact (removeFile_node? _ (hfile id)).trans hread
      · exact hread
  | remove id => exact c.removeFile_node? (hfile id)
  | clear => exact sweepEntries_node? (fun c _ hne ↦ c.removeFile_node? hne) hname c
  | purgeExpired => exact sweepEntries_node? (fun c _ hne ↦ c.purgeFile_node? now hne) hname c

end

/-! ## Puts step by step -/

/-- Whether a put has come as far as renaming the file. -/
def PutStage.IsRenamed : PutStage → Prop
  | .replacing stage => stage = .renamed
  | .counted => True

/-- What the steps of a put can come to. -/
abbrev Puts (id : DocumentId) (bytes : Bytes) (c d : Cache) (stage : PutStage) : Prop :=
  Relation.ReflTransGen (PutStep id bytes) (c, .replacing .preparing) (d, stage)

/-- What is on disk, and what has been counted, at a stage of a put. -/
def IsAtPut (id : DocumentId) (bytes : Bytes) (c : Cache) : Cache × PutStage → Prop
  | (d, .replacing stage) => ∃ f : Folder, d = { c with folder := f } ∧ f.IsAscending ∧
      c.folder.IsAtStage (fileName id) (temporaryName id) bytes f stage
  | (d, .counted) => ∃ f : Folder,
      c.folder.applyAll (Folder.replacing (fileName id) (temporaryName id) bytes) = (none, f) ∧
      d = { c with folder := f, stats := { c.stats with writes := c.stats.writes + 1 } }

section
variable {id : DocumentId} {bytes : Bytes} {c : Cache}

theorem isAtPut_of_step {p q : Cache × PutStage} (h : IsAtPut id bytes c p)
    (hstep : PutStep id bytes p q) : IsAtPut id bytes c q := by
  cases hstep with
  | replace hreplace =>
    obtain ⟨f, rfl, hascending, hstage⟩ := h
    exact ⟨_, rfl, hascending.step hreplace, Folder.isAtStage_of_step hstage hreplace⟩
  | count =>
    obtain ⟨f, rfl, -, hstage⟩ := h
    exact ⟨f, hstage, rfl⟩
  | clean =>
    obtain ⟨f, rfl, hascending, hstage⟩ := h
    exact ⟨_, rfl, hascending.remove _,
      (hstage.differsAt (by simp)).trans (Folder.differsAt_remove f _)⟩
  | failCleaning =>
    obtain ⟨f, rfl, hascending, hstage⟩ := h
    exact ⟨f, rfl, hascending, hstage.differsAt (by simp)⟩

theorem isAtPut_of_puts (hc : c.folder.IsAscending) {p : Cache × PutStage}
    (h : Relation.ReflTransGen (PutStep id bytes) (c, .replacing .preparing) p) :
    IsAtPut id bytes c p := by
  induction h with
  | refl => exact ⟨c.folder, rfl, hc, rfl⟩
  | tail _ hstep ih => exact isAtPut_of_step ih hstep

/-- Until the file is renamed, the cache differs from what it was in the temporary file only. -/
theorem alike_of_puts (hc : c.folder.IsAscending) {d : Cache} {stage : PutStage}
    (h : Puts id bytes c d stage) (hstage : ¬stage.IsRenamed) : Alike (temporaryName id) c d := by
  cases stage with
  | counted => exact absurd trivial hstage
  | replacing stage =>
    obtain ⟨f, rfl, hascending, hat⟩ := isAtPut_of_puts hc h
    exact ⟨rfl, rfl, hat.differsAt hstage, hc, hascending⟩

end

/-! ## Before and after -/

/-- Nothing that can be asked of the second cache, or of one opened in its folder, tells it from the
first one. -/
structure ShowsSame (c d : Cache) : Prop where
  stats_eq : d.stats = c.stats
  get_eq : ∀ now id, (d.get now id).1 = (c.get now id).1
  entryNames_eq : d.entryNames = c.entryNames
  answers_eq : ∀ history, d.answers history = c.answers history
  reopened_eq : ∀ lifetime history,
    (openIn d.folder lifetime).map (fun d ↦ d.answers history) =
      (openIn c.folder lifetime).map fun c ↦ c.answers history

/-- The folder is the one after a put that worked, and so is the cache once the put has been
counted: the file has all bytes of the entry, which is given out, and the others are as before. -/
structure ShowsPut (now : Instant) (id : DocumentId) (payload : Bytes)
    (modifiedAt : Option Instant) (c d : Cache) (stage : PutStage) : Prop where
  put_eq : (c.put now id payload modifiedAt).1 = .ok ()
  folder_eq : d.folder = (c.put now id payload modifiedAt).2.folder
  lifetime_eq : d.lifetime = c.lifetime
  stats_eq : stage = .replacing .renamed → d.stats = c.stats
  counted_eq : stage = .counted → d = (c.put now id payload modifiedAt).2
  read_eq : d.folder.read (fileName id) = .ok (putBytes now id payload modifiedAt)
  get_eq : Header.Fits ⟨id, now, modifiedAt, payload.length⟩ → ∀ later,
    let e : Entry := ⟨id, payload, now.asRead, modifiedAt.map Instant.asRead⟩
    age later e < c.lifetime → (d.get later id).1 = .ok (some e)
  node?_eq : ∀ name, name ≠ fileName id → name ≠ temporaryName id →
    d.folder.node? name = c.folder.node? name

theorem Alike.showsSame {name : String} {c d : Cache} (h : Alike name c d)
    (hname : isEntryName name = false) : ShowsSame c d := by
  refine ⟨h.stats_eq, fun now id ↦ (h.get (fileName_ne h hname id) now).answer_eq,
    h.entryNames_eq hname, h.answers_eq hname, fun lifetime history ↦ ?_⟩
  obtain ⟨-, -, hdiffers, hascending, hascending'⟩ := h
  generalize c.folder = f at *
  generalize d.folder = f' at *
  cases hdiffers with
  | missing => rfl
  | blocked => rfl
  | @present nodes nodes' herase hfolder =>
    have halike : Alike name ⟨.present nodes, lifetime, .zero⟩ ⟨.present nodes', lifetime, .zero⟩ :=
      ⟨rfl, rfl, .present herase hfolder, hascending, hascending'⟩
    exact congrArg Except.ok (halike.answers_eq hname history)

section
variable (c : Cache) (now : Instant) (id : DocumentId) (payload : Bytes)
  (modifiedAt : Option Instant)

theorem put_of_replacing {f : Folder}
    (h : c.folder.applyAll (Folder.replacing (fileName id) (temporaryName id)
      (putBytes now id payload modifiedAt)) = (none, f)) :
    c.put now id payload modifiedAt =
      (.ok (), { c with folder := f, stats := { c.stats with writes := c.stats.writes + 1 } }) := by
  rw [put_eq, h]

/-- What has been written is given out, if it can be read. -/
theorem get_of_read {d : Cache} {bytes : Bytes} {e : Entry}
    (hread : d.folder.read (fileName id) = .ok bytes) (hdecode : decode? bytes = some e)
    (hid : e.id = id) (hfresh : age now e < d.lifetime) : (d.get now id).1 = .ok (some e) := by
  have hfilter : (decode? bytes).filter (fun e ↦ e.id = id) = some e := by
    rw [hdecode, Option.filter_some_pos (by simpa using hid)]
  have hexpired : d.isExpired now e = false := decide_eq_false (Nat.not_le_of_lt hfresh)
  simp only [get, readFresh, hread, hfilter, hexpired, Bool.false_eq_true, if_false]

theorem showsPut_of_replacing {d : Cache} {stage : PutStage}
    (h : c.folder.applyAll (Folder.replacing (fileName id) (temporaryName id)
      (putBytes now id payload modifiedAt)) = (none, d.folder))
    (hlifetime : d.lifetime = c.lifetime)
    (hstats : stage = .replacing .renamed → d.stats = c.stats)
    (hcounted : stage = .counted → d = (c.put now id payload modifiedAt).2) :
    ShowsPut now id payload modifiedAt c d stage := by
  have hput := put_of_replacing c now id payload modifiedAt h
  have hread := Folder.read_of_replacing h
  refine ⟨by rw [hput], by rw [hput], hlifetime, hstats, hcounted, hread, ?_, ?_⟩
  · intro hfits later e hfresh
    exact get_of_read later id hread (decode?_encode_of_fits hfits rfl) rfl (hlifetime ▸ hfresh)
  · intro name hfile htemporary
    have hstays := (StaysWithin.put id c now payload modifiedAt).node?_eq name hfile htemporary
    rwa [hput] at hstays

theorem showsPut_of_puts (hc : c.folder.IsAscending) {d : Cache} {stage : PutStage}
    (h : Puts id (putBytes now id payload modifiedAt) c d stage) (hstage : stage.IsRenamed) :
    ShowsPut now id payload modifiedAt c d stage := by
  cases stage with
  | replacing stage =>
    obtain rfl : stage = .renamed := hstage
    obtain ⟨f, rfl, -, hat⟩ := isAtPut_of_puts hc h
    exact showsPut_of_replacing c now id payload modifiedAt hat rfl (fun _ ↦ rfl) (by cases ·)
  | counted =>
    obtain ⟨f, hat, rfl⟩ := isAtPut_of_puts hc h
    refine showsPut_of_replacing c now id payload modifiedAt hat rfl (by cases ·) fun _ ↦ ?_
    rw [put_of_replacing c now id payload modifiedAt hat]

theorem puts_of_steps {id : DocumentId} {bytes : Bytes} {f : Folder} {stage : Folder.Stage}
    (h : Relation.ReflTransGen (Folder.ReplacingStep (fileName id) (temporaryName id) bytes)
      (c.folder, .preparing) (f, stage)) :
    Puts id bytes c { c with folder := f } (.replacing stage) := by
  let within (p : Folder × Folder.Stage) : Cache × PutStage :=
    ({ c with folder := p.1 }, .replacing p.2)
  have hlift := Relation.ReflTransGen.lift (p := PutStep id bytes) within
    (fun _ _ hstep ↦ PutStep.replace hstep) _ _ h
  exact hlift

/-- Without other faults than those of the folder, the steps come to where the put does. -/
theorem exists_puts : ∃ stage,
    Puts id (putBytes now id payload modifiedAt) c (c.put now id payload modifiedAt).2 stage ∧
      ((c.put now id payload modifiedAt).1 = .ok () → stage = .counted) ∧
      ((c.put now id payload modifiedAt).1 ≠ .ok () → stage = .replacing .failed) := by
  rw [put_eq]
  simp only [Folder.replacing, Folder.applyAll]
  cases hwrite : c.folder.apply
      (.write (temporaryName id) (putBytes now id payload modifiedAt)) with
  | error e =>
    have hfail : Puts id (putBytes now id payload modifiedAt) c c (.replacing .failed) :=
      .single (.replace .failBefore)
    dsimp only
    rw [Folder.remove_of_write_error hwrite]
    exact ⟨_, hfail, by simp⟩
  | ok f =>
    have hwritten := puts_of_steps c (Folder.steps_of_write_all hwrite (fileName id))
    cases hrename : f.apply (.rename (temporaryName id) (fileName id)) with
    | error e =>
      have hclean := (hwritten.tail (.replace .failRenaming)).tail .clean
      simp only [hrename]
      exact ⟨_, hclean, by simp⟩
    | ok g =>
      have hcount := (hwritten.tail (.replace (.rename hrename))).tail .count
      simp only [hrename]
      exact ⟨_, hcount, by simp⟩

end

/-- A step by which the file comes to be renamed is the renaming. -/
theorem rename_of_putStep {id : DocumentId} {bytes : Bytes} {c c' : Cache} {stage stage' : PutStage}
    (hstep : PutStep id bytes (c, stage) (c', stage')) (hbefore : ¬stage.IsRenamed)
    (hafter : stage'.IsRenamed) :
    c.folder.apply (.rename (temporaryName id) (fileName id)) = .ok c'.folder := by
  cases hstep with
  | replace hreplace =>
    obtain rfl : _ = Folder.Stage.renamed := hafter
    exact Folder.rename_of_step hreplace
  | count => exact absurd rfl hbefore
  | clean => cases hafter
  | failCleaning => cases hafter

/-- Until its file is renamed, which is a single step, a put shows nothing, wherever it fails or
stops; from then on it shows the whole entry. -/
structure PutsWhole (c : Cache) (now : Instant) (id : DocumentId) (payload : Bytes)
    (modifiedAt : Option Instant) : Prop where
  before : ∀ d stage, Puts id (putBytes now id payload modifiedAt) c d stage →
    ¬stage.IsRenamed → ShowsSame c d
  switch : ∀ d stage d' stage',
    PutStep id (putBytes now id payload modifiedAt) (d, stage) (d', stage') →
      ¬stage.IsRenamed → stage'.IsRenamed →
      d.folder.apply (.rename (temporaryName id) (fileName id)) = .ok d'.folder
  after : ∀ d stage, Puts id (putBytes now id payload modifiedAt) c d stage →
    stage.IsRenamed → ShowsPut now id payload modifiedAt c d stage
  reaches : ∃ stage,
    Puts id (putBytes now id payload modifiedAt) c (c.put now id payload modifiedAt).2 stage ∧
      ((c.put now id payload modifiedAt).1 = .ok () → stage = .counted) ∧
      ((c.put now id payload modifiedAt).1 ≠ .ok () → stage = .replacing .failed)

theorem putsWhole {c : Cache} (hc : c.folder.IsAscending) (now : Instant) (id : DocumentId)
    (payload : Bytes) (modifiedAt : Option Instant) : PutsWhole c now id payload modifiedAt where
  before _ _ hputs hstage :=
    (alike_of_puts hc hputs hstage).showsSame (isEntryName_temporaryName id)
  switch _ _ _ _ hstep hbefore hafter := rename_of_putStep hstep hbefore hafter
  after _ _ hputs hstage := showsPut_of_puts c now id payload modifiedAt hc hputs hstage
  reaches := exists_puts c now id payload modifiedAt

/-- The temporary file is never listed as an entry, and no operation other than a put touches it. -/
theorem temporary_untouched (c : Cache) (id : DocumentId) :
    (∀ names, c.entryNames = .ok names → temporaryName id ∉ names) ∧
      ∀ now operation, (∀ other, Operation.puts other operation = false) →
        (c.perform now operation).2.folder.node? (temporaryName id) =
          c.folder.node? (temporaryName id) := by
  refine ⟨fun names hnames hmem ↦ ?_, fun now operation hputs ↦
    perform_node? c now hputs (isEntryName_temporaryName id)⟩
  have hentry := Alike.isEntryName_of_mem_entryNames hnames hmem
  rw [isEntryName_temporaryName] at hentry
  cases hentry

end Cache

end Marginalia
