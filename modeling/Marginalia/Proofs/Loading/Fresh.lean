import Marginalia.Proofs.Cache.Headers
import Marginalia.Proofs.Cache.Reach
import Marginalia.Proofs.Loading.Saves

/-!
# What a single load answers

A load of a document takes its steps while others use the cache for other documents. From the cache
it takes an entry only if that is of the document, young enough, as new as the source says, and can
be opened; otherwise nothing is left in the cache before the bytes are asked for. What is fetched is
put there, so that the next load finds it.
-/

namespace Marginalia

open Cache (Entry Header fileName temporaryName)

/-! ## Looking into the cache -/

namespace Cache

/-- A cache holds an entry that a load takes for its document: it is not too old, and not older than
the source says. -/
def Offers (format : Pdf.FileFormat) (c : Cache) (now : Instant) (id : DocumentId)
    (modifiedAt : Option Instant) (document : Pdf.OpenDocument) : Prop :=
  ∃ e, c.slot (fileName id) = some e ∧ e.isCurrentFor id c.lifetime now = true ∧
    (∀ time, modifiedAt = some time → e.effectiveTime.lt time = false) ∧
    format.openDocument e.payload = .ok document

section
variable {format : Pdf.FileFormat} {c c' : Cache} {now : Instant} {id : DocumentId}
  {modifiedAt : Option Instant} {document other : Pdf.OpenDocument}

theorem offers_congr (hslot : c'.slot (fileName id) = c.slot (fileName id))
    (hlifetime : c'.lifetime = c.lifetime) :
    c'.Offers format now id modifiedAt document ↔ c.Offers format now id modifiedAt document := by
  simp only [Offers, hslot, hlifetime]

theorem Offers.eq (h : c.Offers format now id modifiedAt document)
    (hother : c.Offers format now id modifiedAt other) : document = other := by
  obtain ⟨e, he, -, -, hopen⟩ := h
  obtain ⟨e', he', -, -, hopen'⟩ := hother
  cases he.symm.trans he'
  exact Except.ok.inj (hopen.symm.trans hopen')

/-- Once what is older than the source has been removed, the rest is offered for its age alone. -/
theorem offers_of_thinsOnly {time : Instant}
    (h : ThinsOnly (fileName id)
      (fun e ↦ e.isCurrentFor id c.lifetime now && !e.effectiveTime.lt time) c c') :
    c'.Offers format now id none document ↔ c.Offers format now id (some time) document := by
  constructor
  · rintro ⟨e, he, hcurrent, -, hopen⟩
    rw [h.slot_eq] at he
    obtain ⟨he, hkeep⟩ := Option.filter_eq_some_iff.mp he
    simp only [Bool.and_eq_true, Bool.not_eq_true'] at hkeep
    exact ⟨e, he, hkeep.1, fun _ htime ↦ Option.some.inj htime ▸ hkeep.2, hopen⟩
  · rintro ⟨e, he, hcurrent, hnew, hopen⟩
    refine ⟨e, ?_, h.lifetime_eq ▸ hcurrent, fun _ htime ↦ (by cases htime), hopen⟩
    rw [h.slot_eq, he]
    simp [Option.filter, hcurrent, hnew time rfl]

/-- What a lookup finds is what is offered, as far as it can be opened. -/
theorem offers_iff_of_filter {e : Entry}
    (hfound : (c.slot (fileName id)).filter (Entry.isCurrentFor id c.lifetime now) = some e) :
    c.Offers format now id none document ↔ format.openDocument e.payload = .ok document := by
  obtain ⟨he, hcurrent⟩ := Option.filter_eq_some_iff.mp hfound
  constructor
  · rintro ⟨e', he', -, -, hopen⟩
    cases he.symm.trans he'
    exact hopen
  · exact fun hopen ↦ ⟨e, he, hcurrent, fun _ htime ↦ (by cases htime), hopen⟩

theorem not_offers_of_filter
    (hfound : (c.slot (fileName id)).filter (Entry.isCurrentFor id c.lifetime now) = none) :
    ¬c.Offers format now id none document := by
  rintro ⟨e, he, hcurrent, -, -⟩
  rw [he] at hfound
  simp [Option.filter, hcurrent] at hfound

/-- A cache offers what has just been put into it, as far as the header has room. -/
theorem offers_of_file (hlifetime : 0 < c.lifetime)
    (hopen : format.openDocument document.bytes = .ok document)
    (hfits : Header.Fits ⟨id, now, modifiedAt, document.bytes.length⟩)
    (hfile : c.folder.file? (fileName id) =
      some (encode ⟨id, now, modifiedAt, document.bytes.length⟩ document.bytes)) :
    c.Offers format now id modifiedAt document := by
  refine ⟨⟨id, document.bytes, now.asRead, modifiedAt.map Instant.asRead⟩, ?_, ?_, ?_, hopen⟩
  · rw [slot, hfile, Option.bind_some]
    exact decode?_encode_of_fits hfits rfl
  · rw [Entry.isCurrentFor, age_asRead hfits.capturedAt]
    simpa using hlifetime
  · rintro time rfl
    exact Instant.asRead_lt (hfits.modifiedAt time rfl)

end

end Cache

theorem Pdf.FileFormat.bytes_of_openDocument {format : FileFormat} {bytes : Bytes}
    {document : OpenDocument} (h : format.openDocument bytes = .ok document) :
    document.bytes = bytes := by
  unfold openDocument at h
  cases hprobe : format.probe bytes with
  | error e =>
    rw [hprobe] at h
    cases h
  | ok info =>
    rw [hprobe] at h
    cases h
    rfl

/-! ## Steps amid those of others -/

/-- What a load takes its source to know; one that fails knows nothing. -/
def Source.known (source : Source) (id : DocumentId) : RemoteMetadata :=
  match source.metadata id with
  | .ok known => known
  | .error _ => ⟨none, none⟩

/-- Something that others do to a depot without regard to a document: its files in the cache and the
lifetime of the cache stay as they are. -/
def IsElsewhere (id : DocumentId) (act : Depot → Depot) : Prop :=
  ∀ c fetches, ∃ c' fetches', act ⟨some c, fetches⟩ = ⟨some c', fetches'⟩ ∧ c.LeavesAlone id c'

/-- Whatever is asked of the cache about another document is elsewhere. -/
theorem isElsewhere_perform {operation : Cache.Operation} {id other : DocumentId}
    (hid : operation.id? = some other) (hname : fileName id ≠ fileName other) (now : Instant) :
    IsElsewhere id fun depot ↦
      { depot with cache := depot.cache.map fun c ↦ (c.perform now operation).2 } :=
  fun c fetches ↦ ⟨(c.perform now operation).2, fetches, rfl,
    (Cache.StaysWithin.perform hid c now).leavesAlone hname⟩

namespace LoadStage

variable {format : Pdf.FileFormat}

/-- Whatever step a load of another document takes is elsewhere. -/
theorem isElsewhere_step {id other : DocumentId} (hname : fileName id ≠ fileName other)
    (format : Pdf.FileFormat) (source : Source) (now : Instant) (stage : LoadStage) :
    IsElsewhere id fun depot ↦ (stage.step format source now other depot).2 := by
  intro c fetches
  obtain ⟨c', hc', hwithin⟩ :
      ∃ c', (stage.step format source now other ⟨some c, fetches⟩).2.cache = some c' ∧
        Cache.StaysWithin other c c' := by
    cases stage with
    | start =>
      simp only [step, askMetadata]
      split <;> exact ⟨c, rfl, .refl⟩
    | validating known modifiedAt =>
      exact ⟨_, rfl, .invalidateIfStale other c now modifiedAt⟩
    | looking known =>
      have hget := Cache.StaysWithin.get other c now
      simp only [step]
      split <;> rename_i heq <;> rw [heq] at hget <;> exact ⟨_, rfl, hget⟩
    | opening known payload =>
      simp only [step]
      split <;> exact ⟨c, rfl, .refl⟩
    | discarding known => exact ⟨_, rfl, .removeFile other c⟩
    | fetching known answer => cases answer <;> exact ⟨c, rfl, .refl⟩
    | probing known bytes =>
      simp only [step]
      split <;> exact ⟨c, rfl, .refl⟩
    | storing known document =>
      exact ⟨_, rfl, .put other c now document.bytes known.modifiedAt⟩
    | finished result => exact ⟨c, rfl, .refl⟩
  refine ⟨c', (stage.step format source now other ⟨some c, fetches⟩).2.fetches, ?_,
    hwithin.leavesAlone hname⟩
  dsimp only
  rw [← hc']

/-- How many steps are left at most. -/
def stepsLeft : LoadStage → Nat
  | start => 8
  | validating _ _ => 7
  | looking _ => 6
  | opening _ _ => 5
  | discarding _ => 4
  | fetching _ _ => 3
  | probing _ _ => 2
  | storing _ _ => 1
  | finished _ => 0

/-- Some steps of a load; before each of them others do something. The last part of the state counts
how often this load has asked for bytes. -/
def stepsAmid (format : Pdf.FileFormat) (others : Nat → Depot → Depot) (source : Source)
    (now : Instant) (id : DocumentId) :
    Nat → LoadStage × Depot × Nat → LoadStage × Depot × Nat
  | 0, state => state
  | n + 1, (stage, depot, asked) =>
    let before := others n depot
    let (stage, after) := stage.step format source now id before
    stepsAmid format others source now id n
      (stage, after, asked + (after.fetches.bytes - before.fetches.bytes))

theorem bytes_le_step (format : Pdf.FileFormat) (source : Source) (now : Instant)
    (id : DocumentId) (stage : LoadStage) (depot : Depot) :
    depot.fetches.bytes ≤ (stage.step format source now id depot).2.fetches.bytes := by
  cases stage with
  | start =>
    simp only [step, askMetadata, askBytes]
    split <;> simp
  | looking known =>
    simp only [step, askBytes]
    repeat' split
    all_goals simp
  | opening known payload =>
    simp only [step]
    split <;> exact Nat.le_refl _
  | discarding known => exact Nat.le_succ _
  | fetching known answer => cases answer <;> exact Nat.le_refl _
  | probing known bytes =>
    simp only [step]
    split <;> exact Nat.le_refl _
  | validating known modifiedAt => exact Nat.le_refl _
  | storing known document => exact Nat.le_refl _
  | finished result => exact Nat.le_refl _

theorem bytes_le_steps (format : Pdf.FileFormat) (source : Source) (now : Instant)
    (id : DocumentId) (n : Nat) (stage : LoadStage) (depot : Depot) :
    depot.fetches.bytes ≤ (steps format source now id n (stage, depot)).2.fetches.bytes := by
  induction n generalizing stage depot with
  | zero => exact Nat.le_refl _
  | succ n ih => exact (bytes_le_step format source now id stage depot).trans (ih _ _)

theorem stepsAmid_nobody (format : Pdf.FileFormat) (source : Source) (now : Instant)
    (id : DocumentId) (n : Nat) (stage : LoadStage) (depot : Depot) (asked : Nat) :
    stepsAmid format (fun _ depot ↦ depot) source now id n (stage, depot, asked) =
      ((steps format source now id n (stage, depot)).1,
        (steps format source now id n (stage, depot)).2,
        asked + ((steps format source now id n (stage, depot)).2.fetches.bytes -
          depot.fetches.bytes)) := by
  induction n generalizing stage depot asked with
  | zero => simp [stepsAmid, steps]
  | succ n ih =>
    have hstep := bytes_le_step format source now id stage depot
    rw [stepsAmid, steps]
    obtain ⟨⟨next, after⟩, hnext⟩ : ∃ state, stage.step format source now id depot = state :=
      ⟨_, rfl⟩
    rw [hnext] at hstep ⊢
    have hsteps := bytes_le_steps format source now id n next after
    refine (ih _ _ _).trans (Prod.ext rfl (Prod.ext rfl ?_))
    dsimp only at hstep ⊢
    omega

/-- How a load of a document can have come to a stage, what is in the cache then, and how often it
has asked for bytes; `c₀` is the cache that the load began with. -/
inductive ReachedFrom (format : Pdf.FileFormat) (source : Source) (now : Instant)
    (id : DocumentId) (c₀ : Cache) : LoadStage → Cache → Nat → Prop
  | start {c : Cache} (hslot : c.slot (fileName id) = c₀.slot (fileName id)) :
    ReachedFrom format source now id c₀ .start c 0
  | validating {c : Cache} {modifiedAt : Instant}
    (hslot : c.slot (fileName id) = c₀.slot (fileName id))
    (htime : (source.known id).modifiedAt = some modifiedAt) :
    ReachedFrom format source now id c₀ (.validating (source.known id) modifiedAt) c 0
  | looking {c : Cache}
    (hoffers : ∀ document, c.Offers format now id none document ↔
      c₀.Offers format now id (source.known id).modifiedAt document) :
    ReachedFrom format source now id c₀ (.looking (source.known id)) c 0
  | opening {c : Cache} {payload : Bytes}
    (hoffers : ∀ document, format.openDocument payload = .ok document ↔
      c₀.Offers format now id (source.known id).modifiedAt document) :
    ReachedFrom format source now id c₀ (.opening (source.known id) payload) c 0
  | discarding {c : Cache}
    (hmissed : ∀ other, ¬c₀.Offers format now id (source.known id).modifiedAt other) :
    ReachedFrom format source now id c₀ (.discarding (source.known id)) c 0
  | fetching {c : Cache} (hempty : c.slot (fileName id) = none)
    (hmissed : ∀ other, ¬c₀.Offers format now id (source.known id).modifiedAt other) :
    ReachedFrom format source now id c₀ (.fetching (source.known id) (source.bytes id)) c 1
  | probing {c : Cache} {bytes : Bytes} (hempty : c.slot (fileName id) = none)
    (hmissed : ∀ other, ¬c₀.Offers format now id (source.known id).modifiedAt other)
    (hbytes : source.bytes id = .ok bytes) :
    ReachedFrom format source now id c₀ (.probing (source.known id) bytes) c 1
  | storing {c : Cache} {document : Pdf.OpenDocument}
    (hmissed : ∀ other, ¬c₀.Offers format now id (source.known id).modifiedAt other)
    (hbytes : source.bytes id = .ok document.bytes)
    (hopen : format.openDocument document.bytes = .ok document) :
    ReachedFrom format source now id c₀ (.storing (source.known id) document) c 1
  | served {c : Cache} {document : Pdf.OpenDocument}
    (hoffers : c₀.Offers format now id (source.known id).modifiedAt document) :
    ReachedFrom format source now id c₀ (.finished (.ok
      ⟨id, document, (source.known id).name, (source.known id).modifiedAt, true⟩)) c 0
  | stored {c : Cache} {document : Pdf.OpenDocument}
    (hmissed : ∀ other, ¬c₀.Offers format now id (source.known id).modifiedAt other)
    (hbytes : source.bytes id = .ok document.bytes)
    (hopen : format.openDocument document.bytes = .ok document)
    (hfile : c.folder.file? (fileName id) = some (Cache.encode
      ⟨id, now, (source.known id).modifiedAt, document.bytes.length⟩ document.bytes)) :
    ReachedFrom format source now id c₀ (.finished (.ok
      ⟨id, document, (source.known id).name, (source.known id).modifiedAt, false⟩)) c 1
  | failed {c : Cache} {e : LoadError} (hempty : c.slot (fileName id) = none)
    (hmissed : ∀ other, ¬c₀.Offers format now id (source.known id).modifiedAt other) :
    ReachedFrom format source now id c₀ (.finished (.error e)) c 1

/-- A load that has come to a stage on a depot; its cache can be read and written. -/
def IsUnderWay (format : Pdf.FileFormat) (source : Source) (now : Instant) (id : DocumentId)
    (c₀ : Cache) : LoadStage × Depot × Nat → Prop
  | (stage, depot, asked) => ∃ c, depot.cache = some c ∧ c.HoldsFilesOf id ∧
      c.lifetime = c₀.lifetime ∧ ReachedFrom format source now id c₀ stage c asked

section
variable {source : Source} {now : Instant} {id : DocumentId} {c₀ : Cache} {stage : LoadStage}
  {asked : Nat}

/-- What others do leaves a load where it is. -/
theorem ReachedFrom.amid {c c' : Cache} (h : ReachedFrom format source now id c₀ stage c asked)
    (halone : c.LeavesAlone id c') : ReachedFrom format source now id c₀ stage c' asked := by
  have hslot := halone.slot_eq
  cases h with
  | start hstart => exact .start (hslot.trans hstart)
  | validating hstart htime => exact .validating (hslot.trans hstart) htime
  | looking hoffers =>
    exact .looking fun document ↦
      (Cache.offers_congr hslot halone.lifetime_eq).trans (hoffers document)
  | opening hoffers => exact .opening hoffers
  | discarding hmissed => exact .discarding hmissed
  | fetching hempty hmissed => exact .fetching (hslot.trans hempty) hmissed
  | probing hempty hmissed hbytes => exact .probing (hslot.trans hempty) hmissed hbytes
  | storing hmissed hbytes hopen => exact .storing hmissed hbytes hopen
  | served hoffers => exact .served hoffers
  | stored hmissed hbytes hopen hfile =>
    exact .stored hmissed hbytes hopen ((Folder.file?_congr halone.file_eq).trans hfile)
  | failed hempty hmissed => exact .failed (hslot.trans hempty) hmissed

theorem IsUnderWay.amid {depot : Depot}
    (h : IsUnderWay format source now id c₀ (stage, depot, asked)) {act : Depot → Depot}
    (hact : IsElsewhere id act) :
    IsUnderWay format source now id c₀ (stage, act depot, asked) := by
  obtain ⟨c, hc, hfiles, hlifetime, hreached⟩ := h
  obtain ⟨c', fetches', heq, halone⟩ := hact c depot.fetches
  have hdepot : depot = ⟨some c, depot.fetches⟩ := by rw [← hc]
  rw [hdepot, heq]
  exact ⟨c', rfl, halone.holdsFilesOf hfiles, halone.lifetime_eq.trans hlifetime,
    hreached.amid halone⟩

/-- What thins the file of a document leaves the one beside it as it is. -/
theorem holdsFilesOf_of_thinsOnly {c c' : Cache} (h : c.HoldsFilesOf id) {keep : Entry → Bool}
    (hthins : Cache.ThinsOnly (fileName id) keep c c') : c'.HoldsFilesOf id :=
  ⟨hthins.holdsFile,
    h.temporary.congr (hthins.node?_eq _ (Cache.fileName_ne_temporaryName id id).symm)⟩

/-- The next step of a load leads to a stage that it can have reached, with fewer steps left. -/
def GoesOn (format : Pdf.FileFormat) (source : Source) (now : Instant) (id : DocumentId)
    (c₀ : Cache) (stage : LoadStage) (depot : Depot) (asked : Nat) : Prop :=
  let (next, after) := stage.step format source now id depot
  IsUnderWay format source now id c₀
      (next, after, asked + (after.fetches.bytes - depot.fetches.bytes)) ∧
    next.stepsLeft ≤ stage.stepsLeft - 1

theorem GoesOn.of_step {next : LoadStage} {c c' : Cache} {fetches fetches' : Fetches}
    (hstep : stage.step format source now id ⟨some c, fetches⟩ = (next, ⟨some c', fetches'⟩))
    (hfiles : c'.HoldsFilesOf id) (hlifetime : c'.lifetime = c₀.lifetime)
    (hreached : ReachedFrom format source now id c₀ next c'
      (asked + (fetches'.bytes - fetches.bytes)))
    (hleft : next.stepsLeft ≤ stage.stepsLeft - 1) :
    GoesOn format source now id c₀ stage ⟨some c, fetches⟩ asked := by
  rw [GoesOn, hstep]
  exact ⟨⟨c', rfl, hfiles, hlifetime, hreached⟩, hleft⟩

section
variable {c : Cache} (hfiles : c.HoldsFilesOf id) (hlifetime : c.lifetime = c₀.lifetime)
  (fetches : Fetches)
include hfiles hlifetime

theorem goesOn_start (hslot : c.slot (fileName id) = c₀.slot (fileName id)) :
    GoesOn format source now id c₀ .start ⟨some c, fetches⟩ 0 := by
  have hknown : (askMetadata source id ⟨some c, fetches⟩).1 = source.known id := rfl
  cases htime : (source.known id).modifiedAt with
  | none =>
    have hstep : LoadStage.start.step format source now id ⟨some c, fetches⟩ =
        (.looking (source.known id), ⟨some c, ⟨fetches.metadata + 1, fetches.bytes⟩⟩) := by
      simp only [LoadStage.step, hknown, htime]
      rfl
    refine .of_step hstep hfiles hlifetime ?_ (by decide : 6 ≤ 7)
    simpa using .looking fun document ↦ htime ▸ Cache.offers_congr hslot hlifetime
  | some time =>
    have hstep : LoadStage.start.step format source now id ⟨some c, fetches⟩ =
        (.validating (source.known id) time,
          ⟨some c, ⟨fetches.metadata + 1, fetches.bytes⟩⟩) := by
      simp only [LoadStage.step, hknown, htime]
      rfl
    refine .of_step hstep hfiles hlifetime ?_ (Nat.le_refl 7)
    simpa using .validating hslot htime

theorem goesOn_validating {time : Instant} (hslot : c.slot (fileName id) = c₀.slot (fileName id))
    (htime : (source.known id).modifiedAt = some time) :
    GoesOn format source now id c₀ (.validating (source.known id) time) ⟨some c, fetches⟩ 0 := by
  obtain ⟨answer, c', hinvalidate, hthins⟩ :=
    Cache.invalidateIfStale_thinsOnly hfiles.file now time
  have hstep : (validating (source.known id) time).step format source now id ⟨some c, fetches⟩ =
      (.looking (source.known id), ⟨some c', fetches⟩) := by
    simp only [LoadStage.step, Depot.withCache, Option.map_some, hinvalidate]
  refine .of_step hstep (holdsFilesOf_of_thinsOnly hfiles hthins)
    (hthins.lifetime_eq.trans hlifetime) ?_ (Nat.le_refl 6)
  simpa using .looking fun document ↦ (Cache.offers_of_thinsOnly hthins).trans
    (htime ▸ Cache.offers_congr hslot hlifetime)

/-- A load that has looked into the cache and found nothing asks for the bytes once. -/
theorem goesOn_looking
    (hoffers : ∀ document, c.Offers format now id none document ↔
      c₀.Offers format now id (source.known id).modifiedAt document) :
    GoesOn format source now id c₀ (.looking (source.known id)) ⟨some c, fetches⟩ 0 := by
  obtain ⟨c', hget, hthins⟩ := Cache.get_thinsOnly hfiles.file now
  have hfiles' := holdsFilesOf_of_thinsOnly hfiles hthins
  have hlifetime' := hthins.lifetime_eq.trans hlifetime
  cases hfound : (c.slot (fileName id)).filter (Entry.isCurrentFor id c.lifetime now) with
  | none =>
    have hmissed : ∀ document, ¬c₀.Offers format now id (source.known id).modifiedAt document :=
      fun document hoffered ↦ Cache.not_offers_of_filter hfound ((hoffers document).mpr hoffered)
    have hstep : (looking (source.known id)).step format source now id ⟨some c, fetches⟩ =
        (.fetching (source.known id) (source.bytes id),
          ⟨some c', ⟨fetches.metadata, fetches.bytes + 1⟩⟩) := by
      simp only [LoadStage.step, hget, hfound, askBytes]
    refine .of_step hstep hfiles' hlifetime' ?_ (by decide : 3 ≤ 5)
    simpa using .fetching (hthins.slot_eq.trans hfound) hmissed
  | some e =>
    have hstep : (looking (source.known id)).step format source now id ⟨some c, fetches⟩ =
        (.opening (source.known id) e.payload, ⟨some c', fetches⟩) := by
      simp only [LoadStage.step, hget, hfound]
    refine .of_step hstep hfiles' hlifetime' ?_ (Nat.le_refl 5)
    simpa using .opening fun document ↦
      (Cache.offers_iff_of_filter hfound).symm.trans (hoffers document)

theorem goesOn_opening {payload : Bytes}
    (hoffers : ∀ document, format.openDocument payload = .ok document ↔
      c₀.Offers format now id (source.known id).modifiedAt document) :
    GoesOn format source now id c₀ (.opening (source.known id) payload)
      ⟨some c, fetches⟩ 0 := by
  cases hopen : format.openDocument payload with
  | ok document =>
    have hstep : (opening (source.known id) payload).step format source now id
          ⟨some c, fetches⟩ =
        (.finished (.ok ⟨id, document, (source.known id).name, (source.known id).modifiedAt, true⟩),
          ⟨some c, fetches⟩) := by
      simp only [LoadStage.step, hopen]
    refine .of_step hstep hfiles hlifetime ?_ (Nat.zero_le _)
    simpa using .served ((hoffers document).mp hopen)
  | error error =>
    have hmissed : ∀ document,
        ¬c₀.Offers format now id (source.known id).modifiedAt document := by
      intro document hoffered
      cases hopen.symm.trans ((hoffers document).mpr hoffered)
    have hstep : (opening (source.known id) payload).step format source now id
        ⟨some c, fetches⟩ = (.discarding (source.known id), ⟨some c, fetches⟩) := by
      simp only [LoadStage.step, hopen]
    refine .of_step hstep hfiles hlifetime ?_ (Nat.le_refl 4)
    simpa using .discarding hmissed

theorem goesOn_discarding
    (hmissed : ∀ other, ¬c₀.Offers format now id (source.known id).modifiedAt other) :
    GoesOn format source now id c₀ (.discarding (source.known id)) ⟨some c, fetches⟩ 0 := by
  obtain ⟨gone, c', hremove, hthins⟩ := Cache.removeFile_thinsOnly hfiles.file
  have hstep : (discarding (source.known id)).step format source now id ⟨some c, fetches⟩ =
      (.fetching (source.known id) (source.bytes id),
        ⟨some c', ⟨fetches.metadata, fetches.bytes + 1⟩⟩) := by
    simp only [LoadStage.step, Depot.withCache, Option.map_some, Cache.remove, hremove, askBytes]
  refine .of_step hstep (holdsFilesOf_of_thinsOnly hfiles hthins)
    (hthins.lifetime_eq.trans hlifetime) ?_ (Nat.le_refl 3)
  simpa using .fetching (by simp [hthins.slot_eq]) hmissed

theorem goesOn_fetching (hempty : c.slot (fileName id) = none)
    (hmissed : ∀ other, ¬c₀.Offers format now id (source.known id).modifiedAt other) :
    GoesOn format source now id c₀ (.fetching (source.known id) (source.bytes id))
      ⟨some c, fetches⟩ 1 := by
  cases hbytes : source.bytes id with
  | error e =>
    refine .of_step rfl hfiles hlifetime ?_ (Nat.zero_le _)
    simpa using .failed hempty hmissed
  | ok bytes =>
    refine .of_step rfl hfiles hlifetime ?_ (Nat.le_refl 2)
    simpa using .probing hempty hmissed hbytes

theorem goesOn_probing {bytes : Bytes} (hempty : c.slot (fileName id) = none)
    (hmissed : ∀ other, ¬c₀.Offers format now id (source.known id).modifiedAt other)
    (hbytes : source.bytes id = .ok bytes) :
    GoesOn format source now id c₀ (.probing (source.known id) bytes) ⟨some c, fetches⟩ 1 := by
  cases hopen : format.openDocument bytes with
  | error e =>
    have hstep : (probing (source.known id) bytes).step format source now id ⟨some c, fetches⟩ =
        (.finished (.error (.invalidDocument e)), ⟨some c, fetches⟩) := by
      simp only [LoadStage.step, hopen]
    refine .of_step hstep hfiles hlifetime ?_ (Nat.zero_le _)
    simpa using .failed hempty hmissed
  | ok document =>
    have hsame := Pdf.FileFormat.bytes_of_openDocument hopen
    have hstep : (probing (source.known id) bytes).step format source now id ⟨some c, fetches⟩ =
        (.storing (source.known id) document, ⟨some c, fetches⟩) := by
      simp only [LoadStage.step, hopen]
    refine .of_step hstep hfiles hlifetime ?_ (Nat.le_refl 1)
    simpa using .storing hmissed (hsame ▸ hbytes) (hsame ▸ hopen)

theorem goesOn_storing {document : Pdf.OpenDocument}
    (hmissed : ∀ other, ¬c₀.Offers format now id (source.known id).modifiedAt other)
    (hbytes : source.bytes id = .ok document.bytes)
    (hopen : format.openDocument document.bytes = .ok document) :
    GoesOn format source now id c₀ (.storing (source.known id) document)
      ⟨some c, fetches⟩ 1 := by
  obtain ⟨c', hput, hfiles', hlifetime', hfile, -⟩ :=
    Cache.put_file hfiles now document.bytes (source.known id).modifiedAt
  have hstep : (storing (source.known id) document).step format source now id
        ⟨some c, fetches⟩ =
      (.finished (.ok ⟨id, document, (source.known id).name, (source.known id).modifiedAt, false⟩),
        ⟨some c', fetches⟩) := by
    simp only [LoadStage.step, Depot.withCache, Option.map_some, hput]
  refine .of_step hstep hfiles' (hlifetime'.trans hlifetime) ?_ (Nat.zero_le _)
  simpa using .stored hmissed hbytes hopen hfile

theorem goesOn_finished {result : LoadResult}
    (h : ReachedFrom format source now id c₀ (.finished result) c asked) :
    GoesOn format source now id c₀ (.finished result) ⟨some c, fetches⟩ asked :=
  .of_step rfl hfiles hlifetime (by simpa using h) (Nat.zero_le _)

end

theorem IsUnderWay.goesOn {depot : Depot}
    (h : IsUnderWay format source now id c₀ (stage, depot, asked)) :
    GoesOn format source now id c₀ stage depot asked := by
  obtain ⟨c, hc, hfiles, hlifetime, hreached⟩ := h
  obtain ⟨cache, fetches⟩ := depot
  cases hc
  cases hreached with
  | start hslot => exact goesOn_start hfiles hlifetime fetches hslot
  | validating hslot htime => exact goesOn_validating hfiles hlifetime fetches hslot htime
  | looking hoffers => exact goesOn_looking hfiles hlifetime fetches hoffers
  | opening hoffers => exact goesOn_opening hfiles hlifetime fetches hoffers
  | discarding hmissed => exact goesOn_discarding hfiles hlifetime fetches hmissed
  | fetching hempty hmissed => exact goesOn_fetching hfiles hlifetime fetches hempty hmissed
  | probing hempty hmissed hbytes =>
    exact goesOn_probing hfiles hlifetime fetches hempty hmissed hbytes
  | storing hmissed hbytes hopen =>
    exact goesOn_storing hfiles hlifetime fetches hmissed hbytes hopen
  | served hoffers => exact goesOn_finished hfiles hlifetime fetches (.served hoffers)
  | stored hmissed hbytes hopen hfile =>
    exact goesOn_finished hfiles hlifetime fetches (.stored hmissed hbytes hopen hfile)
  | failed hempty hmissed =>
    exact goesOn_finished hfiles hlifetime fetches (.failed hempty hmissed)

/-- A load goes on amid others, and has ended when no steps are left. -/
theorem IsUnderWay.stepsAmid {others : Nat → Depot → Depot}
    (hothers : ∀ n, IsElsewhere id (others n)) (n : Nat) {depot : Depot}
    (h : IsUnderWay format source now id c₀ (stage, depot, asked)) :
    IsUnderWay format source now id c₀
        (LoadStage.stepsAmid format others source now id n (stage, depot, asked)) ∧
      (LoadStage.stepsAmid format others source now id n (stage, depot, asked)).1.stepsLeft ≤
        stage.stepsLeft - n := by
  induction n generalizing stage depot asked with
  | zero => exact ⟨h, Nat.le_refl _⟩
  | succ n ih =>
    obtain ⟨hstep, hleft⟩ := (h.amid (hothers n)).goesOn
    obtain ⟨hsteps, hrest⟩ := ih hstep
    exact ⟨hsteps, hrest.trans (by omega)⟩

end

end LoadStage

/-! ## Loads -/

namespace Loader

/-- Load a document while others do something before each step; the number says how often the load
has asked for bytes. -/
def loadAmid (format : Pdf.FileFormat) (others : Nat → Depot → Depot) (source : Source)
    (now : Instant) (l : Loader) (id : DocumentId) : Option LoadResult × Nat × Loader :=
  let (stage, depot, asked) := LoadStage.stepsAmid format others source now id
    LoadStage.stepLimit (.start, l.depot, 0)
  (stage.result?, asked, { l with depot })

/-- While nobody else does anything, a load amid others is a load as such. -/
theorem loadAmid_nobody (source : Source) (now : Instant) (l : Loader) (id : DocumentId) :
    l.loadAmid .standard (fun _ depot ↦ depot) source now id =
      ((l.load source now id).1,
        (l.load source now id).2.depot.fetches.bytes - l.depot.fetches.bytes,
        (l.load source now id).2) := by
  rw [loadAmid, LoadStage.stepsAmid_nobody, Nat.zero_add]
  rfl

/-- What a load promises that began with one cache and left another one. -/
structure IsFresh (format : Pdf.FileFormat) (source : Source) (id : DocumentId)
    (before after : Cache) (asked : Nat) (result : LoadResult) : Prop where
  not_stale : ∀ loaded, result = .ok loaded → loaded.fromCache = true →
    ∃ e, before.slot (fileName id) = some e ∧ e.id = id ∧ e.payload = loaded.document.bytes ∧
      ∀ known time, source.metadata id = .ok known → known.modifiedAt = some time →
        e.effectiveTime.lt time = false
  opens : ∀ loaded, result = .ok loaded →
    format.openDocument loaded.document.bytes = .ok loaded.document
  fromCache_iff : ∀ loaded, result = .ok loaded → (loaded.fromCache = true ↔ asked = 0)
  fetched : ∀ loaded, result = .ok loaded → loaded.fromCache = false →
    source.bytes id = .ok loaded.document.bytes
  nothing_left : ∀ e, result = .error e → ∀ later, (after.get later id).1 = .ok none

section
variable {format : Pdf.FileFormat} {source : Source} {now : Instant} {id : DocumentId}
  {before after : Cache} {asked : Nat} {result : LoadResult}

/-- A load amid others ends, in one of three ways. -/
theorem exists_loadAmid {l : Loader} (hcache : l.cache = some before)
    (hfiles : before.HoldsFilesOf id) (format : Pdf.FileFormat) (source : Source) (now : Instant)
    {others : Nat → Depot → Depot} (hothers : ∀ n, IsElsewhere id (others n)) :
    ∃ result asked l' after, l.loadAmid format others source now id = (some result, asked, l') ∧
      l'.cache = some after ∧ after.HoldsFilesOf id ∧ after.lifetime = before.lifetime ∧
      LoadStage.ReachedFrom format source now id before (.finished result) after asked := by
  have hstart : LoadStage.IsUnderWay format source now id before (.start, l.depot, 0) :=
    ⟨before, hcache, hfiles, rfl, .start rfl⟩
  obtain ⟨hend, hleft⟩ := hstart.stepsAmid hothers LoadStage.stepLimit
  obtain ⟨⟨stage, depot, asked⟩, hsteps⟩ :
    ∃ state, LoadStage.stepsAmid format others source now id LoadStage.stepLimit
      (.start, l.depot, 0) = state := ⟨_, rfl⟩
  rw [hsteps] at hend hleft
  rw [loadAmid, hsteps]
  obtain ⟨after, hafter, hfiles', hlifetime, hreached⟩ := hend
  cases stage with
  | finished result => exact ⟨result, asked, _, after, rfl, hafter, hfiles', hlifetime, hreached⟩
  | _ => cases hleft

theorem isFresh_of_reachedFrom
    (h : LoadStage.ReachedFrom format source now id before (.finished result) after asked)
    (hfiles : after.HoldsFilesOf id) : IsFresh format source id before after asked result := by
  cases h with
  | @served _ document hoffers =>
    obtain ⟨e, he, hcurrent, hnew, hopen⟩ := hoffers
    have hbytes := Pdf.FileFormat.bytes_of_openDocument hopen
    refine ⟨?_, ?_, ?_, ?_, ?_⟩
    · rintro loaded ⟨⟩ -
      refine ⟨e, he, ?_, hbytes.symm, ?_⟩
      · simp only [Entry.isCurrentFor, decide_eq_true_eq] at hcurrent
        exact hcurrent.1
      · intro known time hknown htime
        refine hnew time ?_
        rw [Source.known, hknown]
        exact htime
    · rintro loaded ⟨⟩
      exact hbytes ▸ hopen
    · rintro loaded ⟨⟩
      simp
    · rintro loaded ⟨⟩ ⟨⟩
    · rintro e ⟨⟩
  | stored hmissed hbytes hopen hfile =>
    refine ⟨?_, ?_, ?_, ?_, ?_⟩
    · rintro loaded ⟨⟩ ⟨⟩
    · rintro loaded ⟨⟩
      exact hopen
    · rintro loaded ⟨⟩
      simp
    · rintro loaded ⟨⟩ -
      exact hbytes
    · rintro e ⟨⟩
  | failed hempty hmissed =>
    refine ⟨?_, ?_, ?_, ?_, ?_⟩
    · rintro loaded ⟨⟩
    · rintro loaded ⟨⟩
    · rintro loaded ⟨⟩
    · rintro loaded ⟨⟩
    · intro e _ later
      obtain ⟨c, hget, -⟩ := Cache.get_thinsOnly hfiles.file later
      rw [hget, hempty]
      rfl

end

/-- A load amid those of others, whatever the cache holds at its start. It never takes a cached
document that is older than the source says; what it answers with can be opened, and comes from the
cache just if no bytes were asked for; and when it fails, nothing is left in the cache. What it
fetched is kept as far as its header has room, so that a load that follows at once, of a source that
still says the same, takes it from the cache. -/
theorem loadAmid_isFresh (format : Pdf.FileFormat) {l : Loader} {cache : Cache}
    (hcache : l.cache = some cache) {id : DocumentId} (hfiles : cache.HoldsFilesOf id)
    (hlifetime : 0 < cache.lifetime) (source : Source) (now : Instant)
    {others : Nat → Depot → Depot}
    (hothers : ∀ n, IsElsewhere id (others n)) :
    ∃ result asked l' after, l.loadAmid format others source now id = (some result, asked, l') ∧
      l'.cache = some after ∧ IsFresh format source id cache after asked result ∧
      ∀ loaded, result = .ok loaded → loaded.fromCache = false →
        Header.Fits ⟨id, now, loaded.modifiedAt, loaded.document.bytes.length⟩ →
        ∀ (source' : Source) (others' : Nat → Depot → Depot),
          source'.metadata id = source.metadata id → (∀ n, IsElsewhere id (others' n)) →
          ∃ l'', l'.loadAmid format others' source' now id =
            (some (.ok { loaded with fromCache := true }), 0, l'') := by
  obtain ⟨result, asked, l', after, hload, hafter, hfiles', hlifetime', hreached⟩ :=
    exists_loadAmid hcache hfiles format source now hothers
  refine ⟨result, asked, l', after, hload, hafter, isFresh_of_reachedFrom hreached hfiles', ?_⟩
  rintro loaded rfl hfetched hfits source' others' hsource hothers'
  have hknown : source'.known id = source.known id := by rw [Source.known, hsource, Source.known]
  cases hreached with
  | served hoffers => cases hfetched
  | @stored _ document hmissed hbytes hopen hfile =>
    have hoffers := Cache.offers_of_file (hlifetime'.symm ▸ hlifetime) hopen hfits hfile
    obtain ⟨next, asked', l'', after', hload', -, -, -, hreached'⟩ :=
      exists_loadAmid hafter hfiles' format source' now hothers'
    refine ⟨l'', hload'.trans ?_⟩
    -- The second load can only have found what the first one left.
    cases hreached' with
    | served hfound =>
      rw [hknown] at hfound ⊢
      rw [hfound.eq hoffers]
    | stored hmissed' => exact absurd (hknown ▸ hoffers) (hmissed' document)
    | failed _ hmissed' => exact absurd (hknown ▸ hoffers) (hmissed' document)

open Workbench (older newer ofBytes_older)

/-- A source that has a document and knows when it was modified. -/
def dated : Source := ⟨fun _ ↦ .ok ⟨some "plan", some ⟨5, 0⟩⟩, fun _ ↦ .ok older.bytes⟩

/-- A cache that holds a file of a document that cannot be read, and a folder beside it. -/
def spoiltCache : Cache :=
  ⟨.present [(fileName ⟨"a"⟩, .file [1, 2, 3]), ("notes", .folder)], 60000000000, .zero⟩

/-- Others keep another document in the cache, time and again. -/
def keepsOther (_ : Nat) (depot : Depot) : Depot :=
  { depot with
    cache := depot.cache.map fun c ↦ (c.perform ⟨9, 0⟩ (.put ⟨"b"⟩ newer.bytes none)).2 }

/-- A file that cannot be read is replaced by what is fetched, which the next load finds. -/
theorem loadAmid_isFresh_spoiltCache :
    ∃ l', (new (some spoiltCache)).loadAmid .standard keepsOther dated ⟨10, 0⟩ ⟨"a"⟩ =
        (some (.ok ⟨⟨"a"⟩, older, some "plan", some ⟨5, 0⟩, false⟩), 1, l') ∧
      ∃ l'', l'.loadAmid .standard keepsOther dated ⟨10, 0⟩ ⟨"a"⟩ =
        (some (.ok ⟨⟨"a"⟩, older, some "plan", some ⟨5, 0⟩, true⟩), 0, l'') := by
  have hput : (Cache.Operation.put ⟨"b"⟩ newer.bytes none).id? = some ⟨"b"⟩ := rfl
  have hothers : ∀ n, IsElsewhere ⟨"a"⟩ (keepsOther n) := fun _ ↦
    isElsewhere_perform hput (by decide +kernel) ⟨9, 0⟩
  have hcache : (new (some spoiltCache)).cache = some spoiltCache := rfl
  have hfiles : spoiltCache.HoldsFilesOf ⟨"a"⟩ :=
    ⟨⟨_, rfl, by decide +kernel⟩, ⟨_, rfl, by decide +kernel⟩⟩
  obtain ⟨result, asked, l', after, hload, -, -, hnext⟩ :=
    loadAmid_isFresh .standard hcache hfiles (by decide) dated ⟨10, 0⟩ hothers
  have hfirst : ((new (some spoiltCache)).loadAmid .standard keepsOther dated ⟨10, 0⟩ ⟨"a"⟩).1 =
      some (.ok ⟨⟨"a"⟩, older, some "plan", some ⟨5, 0⟩, false⟩) ∧
      ((new (some spoiltCache)).loadAmid .standard keepsOther dated ⟨10, 0⟩ ⟨"a"⟩).2.1 = 1 := by
    decide +kernel
  rw [hload] at hfirst
  obtain ⟨⟨⟩, rfl⟩ := hfirst
  refine ⟨l', hload, ?_⟩
  exact hnext _ rfl rfl ⟨by decide +kernel, by decide +kernel, by decide, by rintro t ⟨⟩; decide⟩
    dated keepsOther rfl hothers

end Loader

end Marginalia
