import Marginalia.Loading.Event
import Marginalia.Proofs.Cache.Retention
import Marginalia.Proofs.Workbench.Export

/-!
# Saves and loads

A finished export is put into the cache without regard to loads under way. A load that looks into
the cache afterwards finds it there, and ends if it can be opened. A load that had looked before,
and found nothing to open, goes on all the same: it may still remove what is in the cache by then,
and its last step puts bytes of its own there.
-/

namespace Marginalia

open Cache (Entry fileName)

/-! ## What others leave alone -/

namespace Cache

/-- A change of a cache that leaves the entries of other names as they are. -/
structure Frames (id : DocumentId) (c c' : Cache) : Prop where
  holdsFiles : c'.folder.HoldsFiles
  lifetime_eq : c'.lifetime = c.lifetime
  slot_eq : ∀ other, fileName other ≠ fileName id →
    c'.slot (fileName other) = c.slot (fileName other)

namespace Frames

variable {id : DocumentId} {c c' c'' : Cache}

theorem refl (h : c.folder.HoldsFiles) : Frames id c c := ⟨h, rfl, fun _ _ ↦ rfl⟩

theorem trans (h : Frames id c c') (h' : Frames id c' c'') : Frames id c c'' :=
  ⟨h'.holdsFiles, h'.lifetime_eq.trans h.lifetime_eq,
    fun other hname ↦ (h'.slot_eq other hname).trans (h.slot_eq other hname)⟩

theorem of_thinsAt {keep : Entry → Bool} (h : ThinsAt (fileName id) keep c c') :
    Frames id c c' := by
  refine ⟨h.holdsFiles, h.lifetime_eq, ?_⟩
  intro other hname
  rw [h.slot_eq]
  cases c.slot (fileName other) <;> simp [Option.filter, hname]

theorem put (h : c.folder.HoldsFiles) (now : Instant) (payload : Bytes)
    (modifiedAt : Option Instant) : Frames id c (c.put now id payload modifiedAt).2 := by
  obtain ⟨c', hput, hfiles, hlifetime, -, hother⟩ := put_slot h now id payload modifiedAt
  rw [hput]
  exact ⟨hfiles, hlifetime, hother⟩

end Frames

/-- What passes a lookup of an entry that is kept is left there. -/
theorem ThinsAt.slot_eq_some {name : String} {keep : Entry → Bool} {c c' : Cache}
    (h : ThinsAt name keep c c') {e : Entry} (he : c.slot name = some e) (hkeep : keep e = true) :
    c'.slot name = some e := by
  rw [h.slot_eq, he]
  simp [Option.filter, hkeep]

end Cache

/-! ## The cache under a load -/

namespace LoadStage

variable {format : Pdf.FileFormat}

/-- A load leaves the entries of other documents as they are. -/
theorem step_frames {c : Cache} (h : c.folder.HoldsFiles) (format : Pdf.FileFormat)
    (source : Source) (now : Instant) (id : DocumentId) (stage : LoadStage) (fetches : Fetches) :
    ∃ c', (stage.step format source now id ⟨some c, fetches⟩).2.cache = some c' ∧
      c.Frames id c' := by
  have hsame : ∃ c', some c = some c' ∧ c.Frames id c' := ⟨c, rfl, .refl h⟩
  cases stage with
  | start =>
    simp only [step, askMetadata]
    split <;> exact hsame
  | validating known modifiedAt =>
    obtain ⟨answer, c', hinvalidate, hthins⟩ := Cache.invalidateIfStale_thins h now id modifiedAt
    refine ⟨c', ?_, .of_thinsAt hthins⟩
    simp [step, Depot.withCache, hinvalidate]
  | looking known =>
    obtain ⟨c', hget, hthins⟩ := Cache.get_thins h now id
    refine ⟨c', ?_, .of_thinsAt hthins⟩
    cases hfound : (c.slot (fileName id)).filter (Entry.isCurrentFor id c.lifetime now) with
    | none =>
      simp only [step, hget, hfound]
      rfl
    | some e =>
      simp only [step, hget, hfound]
  | opening known payload =>
    simp only [step]
    split <;> exact hsame
  | discarding known =>
    obtain ⟨gone, c', hremove, hthins⟩ := Cache.removeFile_thins h (fileName id)
    refine ⟨c', ?_, .of_thinsAt hthins⟩
    simp [step, askBytes, Depot.withCache, Cache.remove, hremove]
  | fetching known answer => cases answer <;> exact hsame
  | probing known bytes =>
    simp only [step]
    split <;> exact hsame
  | storing known document => exact ⟨_, rfl, .put h now document.bytes known.modifiedAt⟩
  | finished result => exact hsame

/-! ## A load of a saved document -/

/-- Whether a load has found nothing in the cache that can be opened, so that it will ask for the
bytes or has done so. -/
def hasMissed (format : Pdf.FileFormat) : LoadStage → Bool
  | opening _ payload => !(format.openDocument payload).isOk
  | discarding _ => true
  | fetching _ _ => true
  | probing _ _ => true
  | storing _ _ => true
  | _ => false

/-- Whether the next step of a load removes or replaces what the cache holds of its document,
whatever that is. -/
def overrides : LoadStage → Bool
  | discarding _ => true
  | storing _ _ => true
  | _ => false

theorem hasMissed_of_overrides {stage : LoadStage} (h : stage.overrides = true) :
    stage.hasMissed format = true := by
  cases stage with
  | discarding known => rfl
  | storing known document => rfl
  | _ => cases h

/-- A step of a load at which an entry of its document is not found to be too old, or older than its
source. -/
def Spares (lifetime : Nat) (now : Instant) (e : Entry) : LoadStage → Prop
  | validating _ modifiedAt =>
    Cache.age now e < lifetime ∧ e.effectiveTime.lt modifiedAt = false
  | looking _ => Cache.age now e < lifetime
  | _ => True

/-- A step that spares an entry and overrides nothing leaves it in the cache. Only a load that has
missed before it, or finds an entry that cannot be opened, has missed after it. -/
theorem step_of_slot {c : Cache} (h : c.folder.HoldsFiles) {e : Entry}
    (he : c.slot (fileName e.id) = some e) (format : Pdf.FileFormat) (source : Source)
    (now : Instant) (stage : LoadStage) (hspares : stage.Spares c.lifetime now e)
    (hkeeps : stage.overrides = false) (fetches : Fetches) :
    ∃ c', (stage.step format source now e.id ⟨some c, fetches⟩).2.cache = some c' ∧
      c'.slot (fileName e.id) = some e ∧
      ((stage.step format source now e.id ⟨some c, fetches⟩).1.hasMissed format = true →
        stage.hasMissed format = true ∨ (format.openDocument e.payload).isOk = false) := by
  cases stage with
  | start =>
    simp only [step, askMetadata]
    split
    · next heq => cases heq
    · exact ⟨c, rfl, he, fun hmissed ↦ by cases hmissed⟩
    · exact ⟨c, rfl, he, fun hmissed ↦ by cases hmissed⟩
  | validating known modifiedAt =>
    obtain ⟨hyoung, hnew⟩ := hspares
    obtain ⟨answer, c', hinvalidate, hthins⟩ :=
      Cache.invalidateIfStale_thins h now e.id modifiedAt
    refine ⟨c', ?_, ?_, fun hmissed ↦ by cases hmissed⟩
    · simp [step, Depot.withCache, hinvalidate]
    · exact hthins.slot_eq_some he (by simp [Entry.isCurrentFor, hyoung, hnew])
  | looking known =>
    have hcurrent : e.isCurrentFor e.id c.lifetime now = true := by
      have hyoung : Cache.age now e < c.lifetime := hspares
      simp [Entry.isCurrentFor, hyoung]
    obtain ⟨c', hget, hthins⟩ := Cache.get_thins h now e.id
    have hfound : (c.slot (fileName e.id)).filter (Entry.isCurrentFor e.id c.lifetime now) =
        some e := by
      simp [he, Option.filter, hcurrent]
    rw [hfound] at hget
    simp only [step, hget]
    refine ⟨c', rfl, hthins.slot_eq_some he hcurrent, fun hmissed ↦ .inr ?_⟩
    simpa [hasMissed] using hmissed
  | opening known payload =>
    cases hopen : format.openDocument payload with
    | ok document =>
      simp only [step, hopen]
      exact ⟨c, rfl, he, fun hmissed ↦ by cases hmissed⟩
    | error error =>
      simp only [step, hopen]
      refine ⟨c, rfl, he, fun _ ↦ .inl ?_⟩
      simp [hasMissed, hopen, Except.isOk, Except.toBool]
  | discarding known => cases hkeeps
  | fetching known answer => cases answer <;> exact ⟨c, rfl, he, fun _ ↦ .inl rfl⟩
  | probing known bytes =>
    refine ⟨c, ?_, he, fun _ ↦ .inl rfl⟩
    simp only [step]
    split <;> rfl
  | storing known other => cases hkeeps
  | finished result => exact ⟨c, rfl, he, fun hmissed ↦ by cases hmissed⟩

/-- A load that finds an entry in the cache that cannot be opened puts there what it fetches. -/
theorem steps_of_broken {source : Source} {now : Instant} {id : DocumentId} {c : Cache}
    (h : c.folder.HoldsFiles) {e : Entry} (he : c.slot (fileName id) = some e)
    (hcurrent : e.isCurrentFor id c.lifetime now = true) {error : Pdf.EngineError}
    (hbroken : format.openDocument e.payload = .error error) {name : Option String} {bytes : Bytes}
    {document : Pdf.OpenDocument} (hknown : source.metadata id = .ok ⟨name, none⟩)
    (hbytes : source.bytes id = .ok bytes) (hopen : format.openDocument bytes = .ok document)
    (fetches : Fetches) :
    ∃ c', c.Frames id c' ∧
      (steps format source now id stepLimit (.start, ⟨some c, fetches⟩)).2.cache =
        some (c'.put now id document.bytes none).2 := by
  obtain ⟨c₁, hget, hthins⟩ := Cache.get_thins h now id
  obtain ⟨gone, c₂, hremove, hgone⟩ := Cache.removeFile_thins hthins.holdsFiles (fileName id)
  have hfound : (c.slot (fileName id)).filter (Entry.isCurrentFor id c.lifetime now) = some e := by
    simp [he, Option.filter, hcurrent]
  rw [hfound] at hget
  refine ⟨c₂, (Cache.Frames.of_thinsAt hthins).trans (.of_thinsAt hgone), ?_⟩
  simp [stepLimit, steps, step, askMetadata, askBytes, Depot.withCache, Cache.remove, hknown,
    hbytes, hget, hbroken, hremove, hopen]

end LoadStage

/-! ## Events -/

namespace Loader

variable {format : Pdf.FileFormat}

theorem enter_depot (l : Loader) (id : DocumentId) : (l.enter id).2.depot = l.depot := by
  unfold enter
  split <;> rfl

theorem mem_runs_enter {l : Loader} {id : DocumentId} {run : Nat} {load : LoadRun}
    (h : (run, load) ∈ (l.enter id).2.runs) :
    (run, load) ∈ l.runs ∨ load = ⟨id, .start, none⟩ := by
  unfold enter at h
  split at h
  · exact Or.inl h
  · rcases List.mem_cons.mp h with hnew | hold
    · cases hnew
      exact Or.inr rfl
    · exact Or.inl hold

theorem mem_of_lookup_eq_some {α : Type} {entries : List (Nat × α)} {key : Nat} {value : α}
    (h : entries.lookup key = some value) : (key, value) ∈ entries := by
  obtain ⟨before, after, hsplit, -⟩ := List.lookup_eq_some_iff.mp h
  simp [hsplit]

theorem advance_of_none {l : Loader} {run : Nat} (hload : l.runs.lookup run = none)
    (format : Pdf.FileFormat) (source : Source) (now : Instant) (round : Nat) :
    l.advance format source now round run = l := by
  unfold advance
  rw [hload]

section
variable {l : Loader} {run : Nat} {load : LoadRun} (hload : l.runs.lookup run = some load)
  (format : Pdf.FileFormat) (source : Source) (now : Instant) (round : Nat)
include hload

theorem advance_depot : (l.advance format source now round run).depot =
    (load.stage.step format source now load.id l.depot).2 := by
  unfold advance
  rw [hload]
  dsimp only
  split <;> rfl

theorem mem_runs_advance_cases {other : Nat} {next : LoadRun}
    (h : (other, next) ∈ (l.advance format source now round run).runs) :
    (other, next) ∈ l.runs ∧ other ≠ run ∨ other = run ∧
      next = ⟨load.id, (load.stage.step format source now load.id l.depot).1, some round⟩ := by
  unfold advance at h
  rw [hload] at h
  dsimp only at h
  split at h
  · obtain ⟨hold, hother⟩ := List.mem_filter.mp h
    exact Or.inl ⟨hold, by simpa using hother⟩
  · obtain ⟨entry, hentry, hmap⟩ := List.mem_map.mp h
    split at hmap
    · rename_i hrun
      cases hmap
      exact Or.inr ⟨hrun, rfl⟩
    · rename_i hrun
      cases hmap
      exact Or.inl ⟨hentry, hrun⟩

theorem mem_runs_advance {other : Nat} {next : LoadRun}
    (h : (other, next) ∈ (l.advance format source now round run).runs) :
    (other, next) ∈ l.runs ∨ other = run ∧
      next = ⟨load.id, (load.stage.step format source now load.id l.depot).1, some round⟩ :=
  (mem_runs_advance_cases hload format source now round h).imp_left And.left

end

/-- A loader with a cache of files, in which no load works on another document of the same name as
this one. -/
structure Serves (l : Loader) (id : DocumentId) (lifetime : Nat) : Prop where
  hasCache : ∃ c, l.depot.cache = some c ∧ c.folder.HoldsFiles ∧ c.lifetime = lifetime
  respectsName : ∀ run load, (run, load) ∈ l.runs → fileName id = fileName load.id → load.id = id

/-- An event that is not about another document of the same name. -/
def Event.RespectsName (id : DocumentId) (event : Event) : Prop :=
  ∀ other, event.id? = some other → fileName id = fileName other → other = id

theorem storeExport_eq {l : Loader} {c : Cache} (hc : l.depot.cache = some c) (now : Instant)
    (id : DocumentId) (bytes : Bytes) :
    l.storeExport now id bytes = l.withCache (c.put now id bytes none).2 := by
  unfold storeExport
  rw [hc]

theorem step_cache_eq {l : Loader} {c c' : Cache} (hc : l.depot.cache = some c) {now : Instant}
    {operation : Cache.Operation} {answer : Except FileError Unit}
    (hperform : c.perform now operation = (answer, c')) :
    l.step format now (.cache operation) = l.withCache c' := by
  simp only [Loader.step, cache, hc, hperform]

theorem Serves.step {l : Loader} {id : DocumentId} {lifetime : Nat} (h : l.Serves id lifetime)
    (format : Pdf.FileFormat) (now : Instant) {event : Event} (hname : event.RespectsName id) :
    (l.step format now event).Serves id lifetime := by
  obtain ⟨⟨c, hc, hfiles, hlifetime⟩, hnames⟩ := h
  cases event with
  | ask other =>
    refine ⟨⟨c, ?_, hfiles, hlifetime⟩, ?_⟩
    · exact (congrArg Depot.cache (l.enter_depot other)).trans hc
    · intro run load hload
      rcases mem_runs_enter hload with hold | hnew
      · exact hnames run load hold
      · rw [hnew]
        exact hname other rfl
  | advance source round run =>
    cases hload : l.runs.lookup run with
    | none =>
      have hsame : l.step format now (.advance source round run) = l :=
        advance_of_none hload format source now round
      rw [hsame]
      exact ⟨⟨c, hc, hfiles, hlifetime⟩, hnames⟩
    | some load =>
      obtain ⟨c', hc', hframes⟩ :=
        load.stage.step_frames hfiles format source now load.id l.depot.fetches
      refine ⟨⟨c', ?_, hframes.holdsFiles, hframes.lifetime_eq.trans hlifetime⟩, ?_⟩
      · rw [← hc] at hc'
        exact (congrArg Depot.cache (advance_depot hload format source now round)).trans hc'
      · intro other next hnext
        rcases mem_runs_advance hload format source now round hnext with hold | ⟨_, rfl⟩
        · exact hnames other next hold
        · exact hnames run load (mem_of_lookup_eq_some hload)
  | storeExport other bytes =>
    have hframes : c.Frames other _ := .put hfiles now bytes none
    change (l.storeExport now other bytes).Serves id lifetime
    rw [storeExport_eq hc]
    exact ⟨⟨_, rfl, hframes.holdsFiles, hframes.lifetime_eq.trans hlifetime⟩, hnames⟩
  | cache operation =>
    obtain ⟨c', hperform, hfiles', hlifetime', -⟩ := Cache.perform_slot hfiles now operation
    rw [step_cache_eq hc hperform]
    exact ⟨⟨c', rfl, hfiles', hlifetime'.trans hlifetime⟩, hnames⟩

theorem Serves.advance {l : Loader} {id : DocumentId} {lifetime : Nat} (h : l.Serves id lifetime)
    (format : Pdf.FileFormat) (source : Source) (now : Instant) (round run : Nat) :
    (l.advance format source now round run).Serves id lifetime := by
  have hname : Event.RespectsName id (.advance source round run) := fun other h ↦ by cases h
  exact h.step format now hname

theorem Serves.run {l : Loader} {id : DocumentId} {lifetime : Nat} (h : l.Serves id lifetime)
    (format : Pdf.FileFormat) {events : List (Instant × Event)}
    (hnames : ∀ entry ∈ events, entry.2.RespectsName id) :
    (l.run format events).Serves id lifetime := by
  induction events generalizing l with
  | nil => exact h
  | cons entry rest ih =>
    obtain ⟨hfirst, hrest⟩ := List.forall_mem_cons.mp hnames
    exact ih (h.step format entry.1 hfirst) hrest

theorem run_append_advance (l : Loader) (events : List (Instant × Event)) (source : Source)
    (now : Instant) (round run : Nat) :
    l.run format (events ++ [(now, .advance source round run)]) =
      (l.run format events).advance format source now round run :=
  List.foldl_append

theorem serves_new {c : Cache} (hfiles : c.folder.HoldsFiles) (id : DocumentId) :
    (new (some c)).Serves id c.lifetime :=
  ⟨⟨c, rfl, hfiles, rfl⟩, fun _ _ h ↦ by cases h⟩

/-! ## After a save -/

/-- A run that may remove or replace bytes that are saved now: a load of the document that has found
nothing in the cache to open, or any run at all if the bytes cannot be opened themselves. -/
def MayOverride (format : Pdf.FileFormat) (l : Loader) (id : DocumentId) (bytes : Bytes)
    (run : Nat) : Prop :=
  (∃ load, (run, load) ∈ l.runs ∧ load.id = id ∧ load.stage.hasMissed format = true) ∨
    (format.openDocument bytes).isOk = false

/-- An event by which an entry is not replaced, removed or found to be too old or older than its
source; of the loads in `late` none takes a step that overrides what the cache holds. -/
def Event.Spares (l : Loader) (late : Nat → Prop) (lifetime : Nat) (now : Instant) (e : Entry) :
    Event → Prop
  | .ask _ => True
  | .advance _ _ run => ∀ load, l.runs.lookup run = some load → load.id = e.id →
      load.stage.Spares lifetime now e ∧ (late run → load.stage.overrides = false)
  | .storeExport id _ => id ≠ e.id
  | .cache operation => operation.puts e.id = false ∧ operation.Spares lifetime now e

/-- All events of a run spare an entry. -/
def Undisturbed (format : Pdf.FileFormat) (late : Nat → Prop) (lifetime : Nat) (e : Entry) :
    Loader → List (Instant × Event) → Prop
  | _, [] => True
  | l, (now, event) :: rest =>
    event.Spares l late lifetime now e ∧
      Undisturbed format late lifetime e (l.step format now event) rest

/-- A saved entry is in the cache, and of the loads of its document only those in `late` have found
nothing there to open. -/
structure Holds (format : Pdf.FileFormat) (l : Loader) (late : Nat → Prop) (lifetime : Nat)
    (e : Entry) : Prop where
  serves : l.Serves e.id lifetime
  kept : ∀ c, l.depot.cache = some c → c.slot (fileName e.id) = some e
  late_of_missed : ∀ run load, (run, load) ∈ l.runs → load.id = e.id →
    load.stage.hasMissed format = true → late run
  late_of_broken : (format.openDocument e.payload).isOk = false → ∀ run, late run

section
variable {l : Loader} {late : Nat → Prop} {lifetime : Nat} {e : Entry} {run : Nat}
  {load : LoadRun} (h : l.Holds format late lifetime e) (hload : l.runs.lookup run = some load)
  (now : Instant) (source : Source) (round : Nat)
include h hload

/-- A load of the entry's document whose step does not override it. -/
theorem Holds.advance_same (hid : load.id = e.id) (hspares : load.stage.Spares lifetime now e)
    (hkeeps : load.stage.overrides = false)
    (hserves : (l.advance format source now round run).Serves e.id lifetime) :
    (l.advance format source now round run).Holds format late lifetime e := by
  obtain ⟨c, hc, hfiles, hlifetime⟩ := h.serves.hasCache
  have hmem := mem_of_lookup_eq_some hload
  have hdepot : l.depot = ⟨some c, l.depot.fetches⟩ := by rw [← hc]
  obtain ⟨c', hc', he', hmissed'⟩ := load.stage.step_of_slot hfiles (h.kept c hc)
    format source now (hlifetime ▸ hspares) hkeeps l.depot.fetches
  rw [← hid, ← hdepot] at hc' hmissed'
  refine ⟨hserves, ?_, ?_, h.late_of_broken⟩
  · intro c'' hc''
    have hcache := congrArg Depot.cache (advance_depot hload format source now round)
    have hsame : some c'' = some c' := hc''.symm.trans (hcache.trans hc')
    cases hsame
    exact he'
  · intro other next hnext hnextId hmissed
    rcases mem_runs_advance hload format source now round hnext with hold | ⟨rfl, rfl⟩
    · exact h.late_of_missed other next hold hnextId hmissed
    · rcases hmissed' hmissed with hbefore | hbroken
      · exact h.late_of_missed _ load hmem hid hbefore
      · exact h.late_of_broken hbroken _

theorem Holds.advance_other (hid : load.id ≠ e.id)
    (hserves : (l.advance format source now round run).Serves e.id lifetime) :
    (l.advance format source now round run).Holds format late lifetime e := by
  obtain ⟨c, hc, hfiles, -⟩ := h.serves.hasCache
  obtain ⟨c', hc', hframes⟩ :=
    load.stage.step_frames hfiles format source now load.id l.depot.fetches
  have hdiffer : fileName e.id ≠ fileName load.id :=
    fun hsame ↦ hid (h.serves.respectsName run load (mem_of_lookup_eq_some hload) hsame)
  rw [← hc] at hc'
  refine ⟨hserves, ?_, ?_, h.late_of_broken⟩
  · intro c'' hc''
    have hcache := congrArg Depot.cache (advance_depot hload format source now round)
    have hsame : some c'' = some c' := hc''.symm.trans (hcache.trans hc')
    cases hsame
    rw [hframes.slot_eq e.id hdiffer, h.kept c hc]
  · intro other next hnext hnextId hmissed
    rcases mem_runs_advance hload format source now round hnext with hold | ⟨rfl, rfl⟩
    · exact h.late_of_missed other next hold hnextId hmissed
    · exact absurd hnextId hid

end

section
variable {l : Loader} {late : Nat → Prop} {lifetime : Nat} {e : Entry}
  (h : l.Holds format late lifetime e) (now : Instant)
include h

theorem Holds.ask (id : DocumentId)
    (hserves : (l.step format now (.ask id)).Serves e.id lifetime) :
    (l.step format now (.ask id)).Holds format late lifetime e := by
  refine ⟨hserves, ?_, ?_, h.late_of_broken⟩
  · intro c hc
    exact h.kept c ((congrArg Depot.cache (l.enter_depot id)).symm.trans hc)
  · intro run load hload hid hmissed
    rcases mem_runs_enter hload with hold | hnew
    · exact h.late_of_missed run load hold hid hmissed
    · rw [hnew] at hmissed
      cases hmissed

theorem Holds.advance {source : Source} {round run : Nat}
    (hspares : (Event.advance source round run).Spares l late lifetime now e)
    (hserves : (l.advance format source now round run).Serves e.id lifetime) :
    (l.advance format source now round run).Holds format late lifetime e := by
  cases hload : l.runs.lookup run with
  | none =>
    rw [advance_of_none hload]
    exact h
  | some load =>
    by_cases hid : load.id = e.id
    · obtain ⟨hstep, hlate⟩ := hspares load hload hid
      -- only a load that has missed can be about to override something
      have hkeeps : load.stage.overrides = false := by
        by_contra hoverrides
        have hmissed : load.stage.hasMissed format = true :=
          LoadStage.hasMissed_of_overrides (by simpa using hoverrides)
        exact hoverrides <|
          hlate (h.late_of_missed run load (mem_of_lookup_eq_some hload) hid hmissed)
      exact h.advance_same hload now source round hid hstep hkeeps hserves
    · exact h.advance_other hload now source round hid hserves

theorem Holds.storeExport {id : DocumentId} (bytes : Bytes) (hid : fileName e.id ≠ fileName id)
    (hserves : (l.storeExport now id bytes).Serves e.id lifetime) :
    (l.storeExport now id bytes).Holds format late lifetime e := by
  obtain ⟨c, hc, hfiles, -⟩ := h.serves.hasCache
  have hframes : c.Frames id _ := .put hfiles now bytes none
  rw [storeExport_eq hc now id bytes] at hserves ⊢
  refine ⟨hserves, ?_, h.late_of_missed, h.late_of_broken⟩
  intro c' hc'
  cases hc'
  rw [hframes.slot_eq e.id hid, h.kept c hc]

theorem Holds.cache {operation : Cache.Operation}
    (hputsAt : operation.putsAt e.id = false)
    (hkeeps : operation.keeps lifetime now (fileName e.id) e = true)
    (hserves : (l.step format now (.cache operation)).Serves e.id lifetime) :
    (l.step format now (.cache operation)).Holds format late lifetime e := by
  obtain ⟨c, hc, hfiles, hlifetime⟩ := h.serves.hasCache
  obtain ⟨c', hperform, -, -, hslot⟩ := Cache.perform_slot hfiles now operation
  rw [step_cache_eq hc hperform] at hserves ⊢
  refine ⟨hserves, ?_, h.late_of_missed, h.late_of_broken⟩
  intro c'' hc''
  cases hc''
  rw [hslot e.id (by simp [hputsAt]), Cache.Operation.onSlot_of_putsAt_eq_false hputsAt,
    h.kept c hc, hlifetime]
  simp [Option.filter, hkeeps]

/-- One event leaves a saved entry where it is. -/
theorem Holds.step {event : Event} (hname : event.RespectsName e.id)
    (hspares : event.Spares l late lifetime now e) :
    (l.step format now event).Holds format late lifetime e := by
  have hserves := h.serves.step format now hname
  cases event with
  | ask id => exact h.ask now id hserves
  | advance source round run => exact h.advance now hspares hserves
  | storeExport id bytes =>
    exact h.storeExport now bytes (fun hsame ↦ hspares (hname id rfl hsame)) hserves
  | cache operation =>
    obtain ⟨hputs, hspared⟩ := hspares
    exact h.cache now (Cache.Operation.putsAt_of_puts hname hputs)
      ((Cache.Operation.keeps_iff_spares hname lifetime now).mpr hspared) hserves

end

theorem Holds.run {l : Loader} {late : Nat → Prop} {lifetime : Nat} {e : Entry}
    (h : l.Holds format late lifetime e) {events : List (Instant × Event)}
    (hnames : ∀ entry ∈ events, entry.2.RespectsName e.id)
    (hspared : Undisturbed format late lifetime e l events) :
    (l.run format events).Holds format late lifetime e := by
  induction events generalizing l with
  | nil => exact h
  | cons entry rest ih =>
    obtain ⟨now, event⟩ := entry
    obtain ⟨hfirst, hrest⟩ := List.forall_mem_cons.mp hnames
    obtain ⟨hevent, hspared⟩ := hspared
    exact ih (h.step now hfirst hevent) hrest hspared

/-- Once an export is saved it is in the cache, and only loads that had missed before may override
it, or any if it cannot be opened. -/
theorem holds_storeExport {l : Loader} {id : DocumentId} {lifetime : Nat}
    (h : l.Serves id lifetime) (format : Pdf.FileFormat) (saved : Instant) (bytes : Bytes)
    (hreads : Cache.Header.ReadsBack ⟨id, saved, none, bytes.length⟩) :
    (l.storeExport saved id bytes).Holds format (l.MayOverride format id bytes) lifetime
      ⟨id, bytes, saved, none⟩ := by
  obtain ⟨c, hc, hfiles, hlifetime⟩ := h.hasCache
  obtain ⟨c', hput, hfiles', hlifetime', hself, -⟩ := Cache.put_slot hfiles saved id bytes none
  rw [storeExport_eq hc, hput]
  refine ⟨⟨⟨c', rfl, hfiles', hlifetime'.trans hlifetime⟩, h.respectsName⟩, ?_, ?_, ?_⟩
  · intro c'' hc''
    cases hc''
    exact hself hreads
  · exact fun run load hload hid hmissed ↦ .inl ⟨load, hload, hid, hmissed⟩
  · exact fun hbroken run ↦ .inr hbroken

/-- What a lookup gives out from the cache of a loader. -/
theorem get_of_slot {l : Loader} {id : DocumentId} {lifetime : Nat} (h : l.Serves id lifetime)
    {e : Entry} (hid : e.id = id)
    (hkept : ∀ c, l.depot.cache = some c → c.slot (fileName id) = some e) {now : Instant}
    (hyoung : Cache.age now e < lifetime) :
    ∃ c, l.cache = some c ∧ (c.get now id).1 = .ok (some e) := by
  obtain ⟨c, hc, hfiles, hlifetime⟩ := h.hasCache
  obtain ⟨c', hget, -⟩ := Cache.get_thins hfiles now id
  refine ⟨c, hc, ?_⟩
  rw [hget, hkept c hc, hlifetime]
  simp [Option.filter, Entry.isCurrentFor, hid, hyoung]

section
variable {l : Loader} {id : DocumentId} {lifetime : Nat} (h : l.Serves id lifetime) {run : Nat}
  {known : RemoteMetadata} {reached : Option Nat}
include h

/-- The last step of a load puts what it fetched into the cache, whatever is there. -/
theorem slot_advance_storing {document : Pdf.OpenDocument}
    (hload : l.runs.lookup run = some ⟨id, .storing known document, reached⟩)
    (format : Pdf.FileFormat) (source : Source) (now : Instant) (round : Nat)
    (hreads : Cache.Header.ReadsBack ⟨id, now, known.modifiedAt, document.bytes.length⟩) (c : Cache)
    (hc : (l.advance format source now round run).depot.cache = some c) :
    c.slot (fileName id) = some ⟨id, document.bytes, now, known.modifiedAt⟩ := by
  obtain ⟨c₀, hc₀, hfiles, -⟩ := h.hasCache
  obtain ⟨c', hput, -, -, hself, -⟩ :=
    Cache.put_slot hfiles now id document.bytes known.modifiedAt
  have hcache := congrArg Depot.cache (advance_depot hload format source now round)
  simp only [LoadStage.step, Depot.withCache, hc₀, Option.map_some, hput] at hcache
  cases hcache.symm.trans hc
  exact hself hreads

/-- A load that could not open what it found removes what the cache holds by now. -/
theorem get_advance_discarding
    (hload : l.runs.lookup run = some ⟨id, .discarding known, reached⟩)
    (format : Pdf.FileFormat) (source : Source) (now : Instant) (round : Nat) (later : Instant) :
    ∃ c, (l.advance format source now round run).cache = some c ∧
      (c.get later id).1 = .ok none := by
  obtain ⟨c₀, hc₀, hfiles, -⟩ := h.hasCache
  obtain ⟨gone, c', hremove, hthins⟩ := Cache.removeFile_thins hfiles (fileName id)
  have hcache := congrArg Depot.cache (advance_depot hload format source now round)
  simp only [LoadStage.step, LoadStage.askBytes, Depot.withCache, hc₀, Option.map_some,
    Cache.remove, hremove] at hcache
  refine ⟨c', hcache, ?_⟩
  obtain ⟨c'', hget, -⟩ := Cache.get_thins hthins.holdsFiles later id
  rw [hget, hthins.slot_eq]
  simp

end

/-- What a load fetches is in the cache when it has ended, if what the cache held before makes no
document. -/
theorem slot_load_of_broken {l : Loader} {id : DocumentId} {lifetime : Nat}
    (h : l.Serves id lifetime) {e : Entry} (hid : e.id = id)
    (hkept : ∀ c, l.depot.cache = some c → c.slot (fileName id) = some e) (now : Instant)
    (hyoung : Cache.age now e < lifetime) {error : Pdf.EngineError}
    (hbroken : Pdf.OpenDocument.ofBytes e.payload = .error error) {source : Source}
    {name : Option String} {bytes : Bytes} {document : Pdf.OpenDocument}
    (hknown : source.metadata id = .ok ⟨name, none⟩) (hbytes : source.bytes id = .ok bytes)
    (hopen : Pdf.OpenDocument.ofBytes bytes = .ok document)
    (hreads : Cache.Header.ReadsBack ⟨id, now, none, document.bytes.length⟩) :
    (l.load source now id).2.Serves id lifetime ∧
      ∀ c, (l.load source now id).2.depot.cache = some c →
        c.slot (fileName id) = some ⟨id, document.bytes, now, none⟩ := by
  obtain ⟨c, hc, hfiles, hlifetime⟩ := h.hasCache
  have hcurrent : e.isCurrentFor id c.lifetime now = true := by
    simp [Entry.isCurrentFor, hid, hlifetime, hyoung]
  obtain ⟨c', hframes, hsteps⟩ := LoadStage.steps_of_broken hfiles (hkept c hc) hcurrent hbroken
    hknown hbytes hopen l.depot.fetches
  obtain ⟨c'', hput, hfiles', hlifetime', hself, -⟩ :=
    Cache.put_slot hframes.holdsFiles now id document.bytes none
  have hdepot : l.depot = ⟨some c, l.depot.fetches⟩ := by rw [← hc]
  have hcache : (l.load source now id).2.depot.cache = some c'' := by
    rw [hput, ← hdepot] at hsteps
    exact hsteps
  refine ⟨⟨⟨c'', hcache, hfiles', ?_⟩, h.respectsName⟩, ?_⟩
  · exact hlifetime'.trans (hframes.lifetime_eq.trans hlifetime)
  · intro found hfound
    cases hcache.symm.trans hfound
    exact hself hreads

/-- A saved export is looked up until it is too old, as long as no event disturbs it. Loads of its
document do not, however they take their steps, but for those that had found nothing in the cache to
open when the export was saved: if the export can be opened, later ones find it. Those loads have
two steps by which the export is lost: one removes whatever the cache holds, because the load could
not open what it had found there before, and the last one puts older bytes in its place. -/
theorem get_after_storeExport (format : Pdf.FileFormat) (c : Cache)
    (hfiles : c.folder.HoldsFiles) (before after : List (Instant × Event)) (id : DocumentId)
    (bytes : Bytes) (saved : Instant)
    (hreads : Cache.Header.ReadsBack ⟨id, saved, none, bytes.length⟩)
    (hnames : ∀ entry ∈ before ++ after, entry.2.RespectsName id) :
    let e : Entry := ⟨id, bytes, saved, none⟩
    let l := (new (some c)).run format before
    let l' := (l.storeExport saved id bytes).run format after
    (Undisturbed format (l.MayOverride format id bytes) c.lifetime e
        (l.storeExport saved id bytes) after →
      (∀ now, Cache.age now e < c.lifetime →
        ∃ cache, l'.cache = some cache ∧ (cache.get now id).1 = .ok (some e)) ∧
      ∀ run load, (run, load) ∈ l'.runs → load.id = id → load.stage.hasMissed format = true →
        l.MayOverride format id bytes run) ∧
      (∀ run known reached, l'.runs.lookup run = some ⟨id, .discarding known, reached⟩ →
        ∀ source round stepped now,
          ∃ cache, (l'.advance format source stepped round run).cache = some cache ∧
            (cache.get now id).1 = .ok none) ∧
      ∀ run known other reached, l'.runs.lookup run = some ⟨id, .storing known other, reached⟩ →
        ∀ stored, Cache.Header.ReadsBack ⟨id, stored, known.modifiedAt, other.bytes.length⟩ →
          ∀ source round now, let e' : Entry := ⟨id, other.bytes, stored, known.modifiedAt⟩
            Cache.age now e' < c.lifetime →
              ∃ cache, (l'.advance format source stored round run).cache = some cache ∧
                (cache.get now id).1 = .ok (some e') := by
  intro e l l'
  obtain ⟨hbefore, hafter⟩ := List.forall_mem_append.mp hnames
  have hserves : l.Serves id c.lifetime := (serves_new hfiles id).run format hbefore
  have hholds := holds_storeExport hserves format saved bytes hreads
  have hserves' : l'.Serves id c.lifetime := hholds.serves.run format hafter
  refine ⟨?_, ?_, ?_⟩
  · intro hspared
    have hholds' := hholds.run hafter hspared
    exact ⟨fun now hyoung ↦ get_of_slot hserves' rfl hholds'.kept hyoung, hholds'.late_of_missed⟩
  · intro run known reached hload source round stepped now
    exact get_advance_discarding hserves' hload format source stepped round now
  · intro run known other reached hload stored hreads' source round now e' hyoung
    have hadvanced : (l'.advance format source stored round run).Serves id c.lifetime :=
      hserves'.advance format source stored round run
    exact get_of_slot hadvanced rfl
      (slot_advance_storing hserves' hload format source stored round hreads') hyoung

open Workbench (older newer ofBytes_older ofBytes_newer)

deriving instance DecidableEq for LoadStage, LoadRun

/-- A source that has a document and does not know when it was modified. -/
def outdated : Source := ⟨fun _ ↦ .ok ⟨none, none⟩, fun _ ↦ .ok older.bytes⟩

/-- A cache that keeps documents for a minute. -/
def minuteCache : Cache := ⟨.empty, 60000000000, .zero⟩

/-- A load is begun, finds nothing in the cache, and has asked for the bytes. -/
def fetching : List (Instant × Event) :=
  [(⟨0, 0⟩, .ask ⟨"a"⟩), (⟨0, 0⟩, .advance outdated 0 0), (⟨0, 0⟩, .advance outdated 1 0)]

/-- The load goes on until it has only to put its document into the cache. -/
def probing : List (Instant × Event) :=
  [(⟨2, 0⟩, .advance outdated 2 0), (⟨2, 0⟩, .advance outdated 3 0)]

/-- An export is saved while the load fetches. -/
def savedWhileFetching : Loader :=
  ((new (some minuteCache)).run .standard fetching).storeExport ⟨1, 0⟩ ⟨"a"⟩ newer.bytes

theorem undisturbed_probing :
    Undisturbed .standard
      (((new (some minuteCache)).run .standard fetching).MayOverride .standard ⟨"a"⟩ newer.bytes)
      60000000000 ⟨⟨"a"⟩, newer.bytes, ⟨1, 0⟩, none⟩ savedWhileFetching probing := by
  have hfetching : savedWhileFetching.runs.lookup 0 =
      some ⟨⟨"a"⟩, .fetching ⟨none, none⟩ (.ok older.bytes), some 1⟩ := by decide +kernel
  have hprobing : (savedWhileFetching.advance .standard outdated ⟨2, 0⟩ 2 0).runs.lookup 0 =
      some ⟨⟨"a"⟩, .probing ⟨none, none⟩ older.bytes, some 2⟩ := by decide +kernel
  refine ⟨?_, ?_, trivial⟩
  · intro load hload _
    cases hfetching.symm.trans hload
    exact ⟨trivial, fun _ ↦ rfl⟩
  · intro load hload _
    cases hprobing.symm.trans hload
    exact ⟨trivial, fun _ ↦ rfl⟩

theorem runs_probing : (savedWhileFetching.run .standard probing).runs.lookup 0 =
    some ⟨⟨"a"⟩, .storing ⟨none, none⟩ older, some 3⟩ := by
  decide +kernel

theorem readsBack_newer : Cache.Header.ReadsBack ⟨⟨"a"⟩, ⟨1, 0⟩, none, newer.bytes.length⟩ :=
  Cache.Header.readsBack_of_asRead (by decide +kernel) (by decide +kernel) rfl

theorem readsBack_older {saved : Instant} (h : saved ∈ [⟨1, 0⟩, ⟨2, 0⟩, ⟨3, 0⟩]) :
    Cache.Header.ReadsBack ⟨⟨"a"⟩, saved, none, older.bytes.length⟩ := by
  have hfits : ∀ saved ∈ [⟨1, 0⟩, ⟨2, 0⟩, ⟨3, 0⟩],
      let header : Cache.Header := ⟨⟨"a"⟩, saved, none, older.bytes.length⟩
      header.encode.length < 0x100000000 ∧ header.asRead = header := by
    decide +kernel
  have hlength : older.bytes.length < 0x10000000000000000 := by decide +kernel
  exact Cache.Header.readsBack_of_asRead (hfits saved h).1 hlength (hfits saved h).2

/-- Until the load takes its last step the export is looked up, and afterwards the older bytes. -/
theorem get_after_storeExport_fetching :
    (∃ cache, (savedWhileFetching.run .standard probing).cache = some cache ∧
      (cache.get ⟨3, 0⟩ ⟨"a"⟩).1 = .ok (some ⟨⟨"a"⟩, newer.bytes, ⟨1, 0⟩, none⟩)) ∧
      ∃ cache, ((savedWhileFetching.run .standard probing).advance .standard outdated
          ⟨3, 0⟩ 4 0).cache = some cache ∧
        (cache.get ⟨4, 0⟩ ⟨"a"⟩).1 = .ok (some ⟨⟨"a"⟩, older.bytes, ⟨3, 0⟩, none⟩) := by
  obtain ⟨hkept, -, hreplaced⟩ := get_after_storeExport .standard minuteCache
    Folder.holdsFiles_empty fetching probing ⟨"a"⟩ newer.bytes ⟨1, 0⟩ readsBack_newer
    (by simp [fetching, probing, Event.RespectsName, Event.id?])
  refine ⟨(hkept undisturbed_probing).1 ⟨3, 0⟩ (by decide), ?_⟩
  exact hreplaced 0 _ older _ runs_probing ⟨3, 0⟩ (readsBack_older (by decide)) outdated 4
    ⟨4, 0⟩ (by decide)

/-- What a loader looks up in its cache. -/
def cached? (l : Loader) (now : Instant) (id : DocumentId) : Option Bytes := do
  let (answer, _) ← l.cache.map fun cache ↦ cache.get now id
  let entry ← answer.toOption.join
  return entry.payload

theorem cached?_of_slot {l : Loader} {id : DocumentId} {lifetime : Nat} (h : l.Serves id lifetime)
    {e : Entry} (hid : e.id = id)
    (hkept : ∀ c, l.depot.cache = some c → c.slot (fileName id) = some e) {now : Instant}
    (hyoung : Cache.age now e < lifetime) : l.cached? now id = some e.payload := by
  obtain ⟨c, hc, hget⟩ := get_of_slot h hid hkept hyoung
  simp [cached?, hc, hget, Except.toOption]

theorem cached?_of_miss {l : Loader} {c : Cache} (hc : l.cache = some c) {now : Instant}
    {id : DocumentId} (hget : (c.get now id).1 = .ok none) : l.cached? now id = none := by
  simp [cached?, hc, hget, Except.toOption]

/-- A load finds bytes in the cache that are no document, and an export is saved before it tries to
open them. -/
def savedWhileOpening : Loader :=
  (((new (some minuteCache)).storeExport ⟨0, 0⟩ ⟨"a"⟩ [122, 122]).run .standard
    fetching).storeExport ⟨1, 0⟩ ⟨"a"⟩ newer.bytes

/-- A load that was begun before an export is saved puts the older bytes back over it, or removes it
where the load has found bytes that cannot be opened. Such bytes themselves are replaced by a load
that is begun later. -/
theorem cached?_after_older_load :
    Pdf.OpenDocument.ofBytes newer.bytes = .ok newer ∧ older.bytes ≠ newer.bytes ∧
      savedWhileFetching.cached? ⟨1, 0⟩ ⟨"a"⟩ = some newer.bytes ∧
      (savedWhileFetching.run .standard (probing ++ [(⟨2, 0⟩, .advance outdated 4 0)])).cached?
        ⟨3, 0⟩ ⟨"a"⟩ = some older.bytes ∧
      savedWhileOpening.cached? ⟨1, 0⟩ ⟨"a"⟩ = some newer.bytes ∧
      (savedWhileOpening.run .standard [(⟨2, 0⟩, .advance outdated 2 0),
        (⟨2, 0⟩, .advance outdated 3 0)]).cached? ⟨3, 0⟩ ⟨"a"⟩ = none ∧
      let saved := (new (some minuteCache)).storeExport ⟨0, 0⟩ ⟨"a"⟩ [122, 122]
      saved.cached? ⟨1, 0⟩ ⟨"a"⟩ = some [122, 122] ∧
        (saved.load outdated ⟨1, 0⟩ ⟨"a"⟩).2.cached? ⟨1, 0⟩ ⟨"a"⟩ = some older.bytes := by
  have hempty : (new (some minuteCache)).Serves ⟨"a"⟩ 60000000000 :=
    serves_new Folder.holdsFiles_empty ⟨"a"⟩
  have hfetching : ((new (some minuteCache)).run .standard fetching).Serves ⟨"a"⟩ 60000000000 :=
    hempty.run .standard (by simp [fetching, Event.RespectsName, Event.id?])
  have hsaved := holds_storeExport hfetching .standard ⟨1, 0⟩ newer.bytes readsBack_newer
  have hbroken := holds_storeExport hempty .standard ⟨0, 0⟩ [122, 122]
    (Cache.Header.readsBack_of_asRead (by decide +kernel) (by decide) rfl)
  have hopening := hbroken.serves.run .standard
    (show ∀ entry ∈ fetching, entry.2.RespectsName ⟨"a"⟩ by
      simp [fetching, Event.RespectsName, Event.id?])
  have hresaved := holds_storeExport hopening .standard ⟨1, 0⟩ newer.bytes readsBack_newer
  refine ⟨ofBytes_newer, by decide +kernel, ?_, ?_, ?_, ?_, ?_⟩
  · exact cached?_of_slot hsaved.serves rfl hsaved.kept (by decide)
  · have hprobing : (savedWhileFetching.run .standard probing).Serves ⟨"a"⟩ 60000000000 :=
      hsaved.serves.run .standard (by simp [probing, Event.RespectsName, Event.id?])
    have hserves := hprobing.advance .standard outdated ⟨2, 0⟩ 4 0
    have hstored := slot_advance_storing hprobing runs_probing .standard outdated ⟨2, 0⟩ 4
      (readsBack_older (by decide))
    rw [run_append_advance]
    exact cached?_of_slot (e := ⟨⟨"a"⟩, older.bytes, ⟨2, 0⟩, none⟩) hserves rfl hstored (by decide)
  · exact cached?_of_slot hresaved.serves rfl hresaved.kept (by decide)
  · have hdiscarding :
        (savedWhileOpening.advance .standard outdated ⟨2, 0⟩ 2 0).runs.lookup 0 =
          some ⟨⟨"a"⟩, .discarding ⟨none, none⟩, some 2⟩ := by decide +kernel
    have hserves := hresaved.serves.advance .standard outdated ⟨2, 0⟩ 2 0
    obtain ⟨c, hc, hget⟩ :=
      get_advance_discarding hserves hdiscarding .standard outdated ⟨2, 0⟩ 3 ⟨3, 0⟩
    exact cached?_of_miss hc hget
  · intro saved
    have hunreadable : Pdf.OpenDocument.ofBytes [122, 122] = .error .parse := by decide +kernel
    have hknown : outdated.metadata ⟨"a"⟩ = .ok ⟨none, none⟩ := rfl
    obtain ⟨hserves, hstored⟩ := slot_load_of_broken hbroken.serves rfl hbroken.kept
      ⟨1, 0⟩ (by decide) hunreadable hknown rfl ofBytes_older (readsBack_older (by decide))
    exact ⟨cached?_of_slot hbroken.serves rfl hbroken.kept (by decide),
      cached?_of_slot (e := ⟨⟨"a"⟩, older.bytes, ⟨1, 0⟩, none⟩) hserves rfl hstored (by decide)⟩

end Loader

end Marginalia
