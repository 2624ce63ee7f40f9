import Marginalia.Proofs.Cache.Headers
import Marginalia.Proofs.Cache.Lacking

/-!
# Validity and invalidation

A cached document is valid for a time of its source exactly if it is fresh and its own time is not
before that one; it is invalidated exactly if it is fresh and its time is before. Both questions,
and the purge of expired entries, remove files on the way. No lookup notices that these are gone, as
long as an entry that was too old does not become younger. It does not while the clock goes on,
unless leap seconds are involved: in a leap second an entry may be older than right after it.
-/

namespace Marginalia

/-! ## Times -/

namespace Instant

theorem le_trans {a b c : Instant} (hab : a.le b = true) (hbc : b.le c = true) :
    a.le c = true := by
  simp only [le, Bool.or_eq_true, Bool.and_eq_true, decide_eq_true_eq, beq_iff_eq] at *
  omega

/-- The time does not lie in a leap second. -/
def IsOrdinary (t : Instant) : Prop := t.nano < 1000000000

instance (t : Instant) : Decidable t.IsOrdinary := inferInstanceAs (Decidable (_ < _))

/-- Without leap seconds the time that has passed is the difference of the times. -/
theorem since_eq {later earlier : Instant} (hlater : later.IsOrdinary)
    (hearlier : earlier.IsOrdinary) :
    later.since earlier = later.toNanos - earlier.toNanos := by
  have hnotLater : ¬1000000000 ≤ later.nano := Nat.not_le_of_lt hlater
  have hnotEarlier : ¬1000000000 ≤ earlier.nano := Nat.not_le_of_lt hearlier
  simp [since, hnotLater, hnotEarlier]

end Instant

namespace Cache

/-- Without leap seconds an entry does not become younger while the clock goes on. -/
theorem age_le_age {now later : Instant} (hle : now.le later = true) (hnow : now.IsOrdinary)
    (hlater : later.IsOrdinary) {e : Entry} (he : e.capturedAt.IsOrdinary) :
    age now e ≤ age later e := by
  rw [age, age, Instant.since_eq hnow he, Instant.since_eq hlater he]
  rw [Instant.IsOrdinary] at hnow hlater
  simp only [Instant.le, Bool.or_eq_true, Bool.and_eq_true, decide_eq_true_eq, beq_iff_eq] at hle
  simp only [Instant.toNanos]
  omega

/-! ## Answers -/

/-- The file of a document is read as a fresh entry of it. -/
structure HasFresh (c : Cache) (now : Instant) (id : DocumentId) (e : Entry) : Prop where
  slot_eq : c.slot (fileName id) = some e
  id_eq : e.id = id
  fresh : age now e < c.lifetime

/-- The entry that is given out for a document. -/
def current (c : Cache) (now : Instant) (id : DocumentId) : Option Entry :=
  (c.slot (fileName id)).filter (Entry.isCurrentFor id c.lifetime now)

theorem current_eq_some_iff {c : Cache} {now : Instant} {id : DocumentId} {e : Entry} :
    c.current now id = some e ↔ c.HasFresh now id e := by
  rw [current, Option.filter_eq_some_iff, Entry.isCurrentFor, decide_eq_true_iff]
  constructor
  · rintro ⟨hslot, hid, hfresh⟩
    exact ⟨hslot, hid, hfresh⟩
  · intro h
    exact ⟨h.slot_eq, h.id_eq, h.fresh⟩

theorem any_current_iff {c : Cache} {now : Instant} {id : DocumentId} {holds : Entry → Bool} :
    (c.current now id).any holds = true ↔ ∃ e, c.HasFresh now id e ∧ holds e = true := by
  simp only [Option.any_eq_true, current_eq_some_iff]

theorem readFresh_eq {c : Cache} (h : c.IsAccessible) (now : Instant) (id : DocumentId) :
    ∃ c', c.readFresh now id = (.ok (c.current now id), c') ∧
      ∀ e, c.current now id = some e →
        c'.folder.HoldsFileAt (fileName id) ∧ c'.slot (fileName id) = some e := by
  rcases h with hmissing | hfiles
  · refine ⟨c, ?_, ?_⟩
    · rw [readFresh_of_missing hmissing, current, slot_of_missing hmissing]
      rfl
    · intro e he
      rw [current, slot_of_missing hmissing] at he
      cases he
  · obtain ⟨c', hread, hthins⟩ := readFresh_thinsOnly (hfiles _ (isEntryName_fileName id)) now
    refine ⟨c', hread, fun e he ↦ ⟨hthins.holdsFile, ?_⟩⟩
    rw [hthins.slot_eq]
    exact he

theorem get_eq {c : Cache} (h : c.IsAccessible) (now : Instant) (id : DocumentId) :
    (c.get now id).1 = .ok (c.current now id) := by
  obtain ⟨c', hread, -⟩ := readFresh_eq h now id
  rw [get, hread]
  cases c.current now id <;> rfl

theorem isValid_eq {c : Cache} (h : c.IsAccessible) (now : Instant) (id : DocumentId)
    (modifiedAt : Instant) :
    (c.isValid now id modifiedAt).1 =
      .ok ((c.current now id).any fun e ↦ modifiedAt.le e.effectiveTime) := by
  obtain ⟨c', hread, -⟩ := readFresh_eq h now id
  rw [isValid, hread]

theorem removeFile_of_slot {c : Cache} {name : String} (h : c.folder.HoldsFileAt name)
    {e : Entry} (he : c.slot name = some e) : (c.removeFile name).1 = .ok true := by
  obtain ⟨bytes, hfile, -⟩ := Option.bind_eq_some_iff.mp he
  obtain ⟨nodes, hnodes, hblocked⟩ := h
  rw [hnodes] at hfile
  cases hfind : nodes.find? name with
  | none =>
    rw [Folder.file?_of_find?_none hfind] at hfile
    cases hfile
  | some node =>
    cases node with
    | folder => exact absurd hfind hblocked
    | file _ =>
      simp [removeFile, hnodes, Folder.remove, Folder.apply, Folder.nodes, bind, Except.bind,
        hfind, pure, Except.pure]

theorem invalidateIfStale_eq {c : Cache} (h : c.IsAccessible) (now : Instant) (id : DocumentId)
    (modifiedAt : Instant) :
    (c.invalidateIfStale now id modifiedAt).1 =
      .ok ((c.current now id).any fun e ↦ e.effectiveTime.lt modifiedAt) := by
  obtain ⟨c', hread, hfile⟩ := readFresh_eq h now id
  rw [invalidateIfStale, hread]
  cases hcurrent : c.current now id with
  | none => rfl
  | some e =>
    obtain ⟨hholds, hslot⟩ := hfile e hcurrent
    by_cases hstale : e.effectiveTime.lt modifiedAt = true
    · simp [hstale, removeFile_of_slot hholds hslot]
    · simp [hstale]

/-! ## What is not noticed -/

/-- No lookup of a document at one of the times tells the second cache from the first one, whatever
has been asked of both before. -/
def Unnoticed (id : DocumentId) (times : Instant → Prop) (c d : Cache) : Prop :=
  ∀ history later, times later →
    ((d.run history).get later id).1 = ((c.run history).get later id).1

/-- The entry that is kept for a document is not younger at the later time. -/
def IsNotYounger (c : Cache) (id : DocumentId) (now later : Instant) : Prop :=
  ∀ e, c.slot (fileName id) = some e → e.id = id → age now e ≤ age later e

/-- What is too old for its document stays that. -/
theorem IsNotYounger.isCurrentFor_eq_false {c : Cache} {id : DocumentId} {now later : Instant}
    (h : c.IsNotYounger id now later) {e : Entry} (he : c.slot (fileName id) = some e)
    (hstale : e.isCurrentFor id c.lifetime now = false) :
    e.isCurrentFor id c.lifetime later = false := by
  simp only [Entry.isCurrentFor, decide_eq_false_iff_not, not_and, Nat.not_lt] at hstale ⊢
  intro hid
  exact (hstale hid).trans (h e he hid)

/-- Entries that would not be given out are not missed. -/
theorem LacksOnly.unnoticed {idle : String → Entry → Prop} {c d : Cache} (h : LacksOnly idle c d)
    {id : DocumentId} {times : Instant → Prop}
    (hidle : ∀ e later, idle (fileName id) e → times later →
      e.isCurrentFor id c.lifetime later = false) : Unnoticed id times c d := by
  intro history later hlater
  have hrun := h.run history
  obtain ⟨hfiles, hlifetime⟩ := run_isAccessible h.isAccessible history
  rw [get_eq hrun.isAccessible', get_eq hfiles, current, current, hrun.lifetime_eq, hlifetime]
  rcases hrun.slot_eq_or _ (isEntryName_fileName id) with heq | ⟨hnone, hspare⟩
  · rw [heq]
  · rw [hnone]
    cases hslot : (c.run history).slot (fileName id) with
    | none => rfl
    | some e =>
      rw [Option.filter_some_neg]
      · rfl
      · simp [hidle e later (hspare e hslot) hlater]

/-- A change that no lookup notices of a document whose entry does not become younger, nor of any
document with another file. -/
structure IsHarmless (id : DocumentId) (now : Instant) (c d : Cache) : Prop where
  here : Unnoticed id (c.IsNotYounger id now) c d
  elsewhere : ∀ other, fileName other ≠ fileName id → Unnoticed other (fun _ ↦ True) c d

/-- To take away an entry that is too old, or belongs to another document, is harmless. -/
theorem ThinsWithin.isHarmless {c d : Cache} (h : c.IsAccessible) {id : DocumentId} {now : Instant}
    {keep : String → Entry → Bool} (hthins : ThinsWithin (· = fileName id) keep c d)
    (hkeep : ∀ e, c.current now id = some e → keep (fileName id) e = true) :
    IsHarmless id now c d := by
  have hlacks := hthins.lacksOnly h fun name hname ↦ hname ▸ isEntryName_fileName id
  constructor
  · refine hlacks.unnoticed fun e later ⟨_, hslot, hgone⟩ hlater ↦ ?_
    refine hlater.isCurrentFor_eq_false hslot ?_
    rw [Bool.eq_false_iff]
    intro hcurrent
    have hkept := hkeep e (Option.filter_eq_some_iff.mpr ⟨hslot, hcurrent⟩)
    rw [hgone] at hkept
    cases hkept
  · exact fun other hother ↦ hlacks.unnoticed fun _ _ ⟨hname, _⟩ _ ↦ absurd hname hother

/-! ## Forgetting -/

/-- What a put writes can be told from the entries of other documents. -/
def Operation.IsStorable (now : Instant) : Operation → Prop
  | put id payload modifiedAt =>
    (Header.encode ⟨id, now, modifiedAt, payload.length⟩).length < 0x100000000 ∧
      payload.length < 0x10000000000000000
  | _ => True

/-- A document that is not in the cache is found again only when it has been put. -/
def Forgets (c : Cache) (id : DocumentId) : Prop :=
  ∀ history, (∀ entry ∈ history, entry.2.puts id = false ∧
      (entry.2.putsAt id = true → entry.2.IsStorable entry.1)) →
    ∀ later, ((c.run history).get later id).1 = .ok none ∧
      ∀ modifiedAt, ((c.run history).isValid later id modifiedAt).1 = .ok false

/-- The cache has no entry of a document. -/
structure HasNone (c : Cache) (id : DocumentId) : Prop where
  isAccessible : c.IsAccessible
  foreign : ∀ e, c.slot (fileName id) = some e → e.id ≠ id

theorem HasNone.current_eq {id : DocumentId} {c : Cache} (h : c.HasNone id) (now : Instant) :
    c.current now id = none := by
  rw [Option.eq_none_iff_forall_ne_some]
  intro e he
  obtain ⟨hslot, hid, -⟩ := current_eq_some_iff.mp he
  exact h.foreign e hslot hid

/-- The entry of another document may be put in the place of the one that is gone. -/
theorem HasNone.put {id : DocumentId} {c : Cache} (h : c.HasNone id) (now : Instant)
    {other : DocumentId} (hother : other ≠ id) (payload : Bytes) (modifiedAt : Option Instant)
    (hstorable : fileName id = fileName other →
      (Operation.put other payload modifiedAt).IsStorable now) :
    (c.put now other payload modifiedAt).2.HasNone id := by
  refine ⟨put_isAccessible h.isAccessible now other payload modifiedAt, fun e he ↦ ?_⟩
  by_cases hname : fileName id = fileName other
  · by_cases htemporary : c.folder.HoldsFileAt (temporaryName other)
    · obtain ⟨c', hput, -, -, hself, -⟩ :=
        put_file (h.isAccessible.holdsFilesOf htemporary) now payload modifiedAt
      obtain ⟨hfits, hlength⟩ := hstorable hname
      rw [hput, hname, slot, hself, Option.bind_some,
        decode?_encode_of_header hfits (Header.decode?_encode _ hlength) rfl] at he
      rw [← Option.some.inj he]
      exact hother
    · have hthins := put_thinsWithin_of_not_holdsFileAt h.isAccessible htemporary now payload
        modifiedAt
      rw [slot_congr (hthins.node?_eq _ not_false)] at he
      exact h.foreign e he
  · have halone := (StaysWithin.put other c now payload modifiedAt).leavesAlone hname
    rw [halone.slot_eq] at he
    exact h.foreign e he

theorem HasNone.perform {id : DocumentId} {c : Cache} (h : c.HasNone id) (now : Instant)
    {operation : Operation} (hputs : operation.puts id = false)
    (hstorable : operation.putsAt id = true → operation.IsStorable now) :
    (c.perform now operation).2.HasNone id := by
  rcases operation.put_or_not with ⟨other, payload, modifiedAt, rfl⟩ | hnever
  · refine h.put now ?_ payload modifiedAt fun hname ↦ hstorable ?_
    · simpa [Operation.puts] using hputs
    · simpa [Operation.putsAt] using hname
  · have hthins := perform_thinsWithin h.isAccessible now operation hnever
    refine ⟨hthins.isAccessible, fun e he ↦ h.foreign e ?_⟩
    by_cases htouch : operation.Touches (fileName id)
    · rw [hthins.slot_eq _ htouch] at he
      exact (Option.filter_eq_some_iff.mp he).1
    · rwa [slot_congr (hthins.node?_eq _ htouch)] at he

theorem HasNone.forgets {id : DocumentId} {c : Cache} (h : c.HasNone id) : c.Forgets id := by
  intro history hhistory later
  have hnone : (c.run history).HasNone id := by
    induction history generalizing c with
    | nil => exact h
    | cons entry rest ih =>
      obtain ⟨⟨hputs, hstorable⟩, hrest⟩ := List.forall_mem_cons.mp hhistory
      exact ih (h.perform entry.1 hputs hstorable) hrest
  constructor
  · rw [get_eq hnone.isAccessible, hnone.current_eq]
  · intro modifiedAt
    rw [isValid_eq hnone.isAccessible, hnone.current_eq]
    rfl

/-! ## Validity -/

/-- A look at whether a document is valid is harmless. -/
theorem isHarmless_isValid {c : Cache} (h : c.IsAccessible) (now : Instant) (id : DocumentId)
    (modifiedAt : Instant) : IsHarmless id now c (c.isValid now id modifiedAt).2 := by
  have hthins := perform_thinsWithin h now (.isValid id modifiedAt) fun _ ↦ rfl
  refine ThinsWithin.isHarmless h hthins fun e he ↦ ?_
  have hcurrent := (Option.filter_eq_some_iff.mp he).2
  simp [Operation.keeps, hcurrent]

/-- So is an invalidation of what is not stale. -/
theorem isHarmless_invalidateIfStale {c : Cache} (h : c.IsAccessible) {now : Instant}
    {id : DocumentId} {modifiedAt : Instant}
    (hkept : ∀ e, c.HasFresh now id e → e.effectiveTime.lt modifiedAt = false) :
    IsHarmless id now c (c.invalidateIfStale now id modifiedAt).2 := by
  have hthins := perform_thinsWithin h now (.invalidateIfStale id modifiedAt) fun _ ↦ rfl
  refine ThinsWithin.isHarmless h hthins fun e he ↦ ?_
  have hcurrent := (Option.filter_eq_some_iff.mp he).2
  simp [Operation.keeps, hcurrent, hkept e (current_eq_some_iff.mp he)]

/-- What has been invalidated is gone. -/
theorem hasNone_invalidateIfStale {c : Cache} (h : c.IsAccessible) {now : Instant}
    {id : DocumentId} {modifiedAt : Instant} {e : Entry} (hfresh : c.HasFresh now id e)
    (hstale : e.effectiveTime.lt modifiedAt = true) :
    (c.invalidateIfStale now id modifiedAt).2.HasNone id := by
  have hthins := perform_thinsWithin h now (.invalidateIfStale id modifiedAt) fun _ ↦ rfl
  refine ⟨hthins.isAccessible, fun other hother ↦ ?_⟩
  have hslot := hthins.slot_eq (fileName id) rfl
  rw [hfresh.slot_eq, Option.filter_some_neg (by simp [Operation.keeps, hstale])] at hslot
  cases hslot.symm.trans hother

/-- No lookup notices that expired entries have been purged. -/
theorem unnoticed_purgeExpired {c : Cache} (h : c.IsAccessible) (now : Instant)
    (id : DocumentId) : Unnoticed id (c.IsNotYounger id now) c (c.purgeExpired now).2 := by
  have hthins := perform_thinsWithin h now .purgeExpired fun _ ↦ rfl
  have hlacks := hthins.lacksOnly h fun _ htouch ↦ htouch
  refine hlacks.unnoticed fun e later ⟨_, hslot, hgone⟩ hlater ↦ ?_
  refine hlater.isCurrentFor_eq_false hslot ?_
  have hold : c.lifetime ≤ age now e := by
    simpa [Operation.keeps, isEntryName_fileName] using hgone
  simp [Entry.isCurrentFor, hold]

/-- Validity and invalidation agree about the time of a cached document, and validity for a time is
validity for all earlier ones. What has been invalidated stays away until the document is put again.
All other looks at the cache go unnoticed in the lookups that follow, as long as what is too old
does not become younger; and it does not while the clock goes on without leap seconds. -/
theorem isValid_iff_not_invalidated (c : Cache) (h : c.IsAccessible) (now : Instant)
    (id : DocumentId) :
    (∀ modifiedAt, ∃ valid, (c.isValid now id modifiedAt).1 = .ok valid ∧
        (valid = true ↔ ∃ e, c.HasFresh now id e ∧ modifiedAt.le e.effectiveTime = true) ∧
        (valid = true → ∀ earlier, earlier.le modifiedAt = true →
          (c.isValid now id earlier).1 = .ok true) ∧
        IsHarmless id now c (c.isValid now id modifiedAt).2) ∧
      (∀ modifiedAt, ∃ removed, (c.invalidateIfStale now id modifiedAt).1 = .ok removed ∧
        (removed = true ↔ ∃ e, c.HasFresh now id e ∧ e.effectiveTime.lt modifiedAt = true) ∧
        (removed = true → (c.invalidateIfStale now id modifiedAt).2.Forgets id) ∧
        (removed = false → IsHarmless id now c (c.invalidateIfStale now id modifiedAt).2)) ∧
      (∀ other, Unnoticed other (c.IsNotYounger other now) c (c.purgeExpired now).2) ∧
      ∀ other later, now.le later = true → now.IsOrdinary → later.IsOrdinary →
        (∀ e, c.slot (fileName other) = some e → e.capturedAt.IsOrdinary) →
          c.IsNotYounger other now later := by
  refine ⟨fun modifiedAt ↦ ?_, fun modifiedAt ↦ ?_, unnoticed_purgeExpired h now, ?_⟩
  · refine ⟨_, isValid_eq h now id modifiedAt, any_current_iff, ?_,
      isHarmless_isValid h now id modifiedAt⟩
    intro hvalid earlier hle
    obtain ⟨e, hfresh, hnew⟩ := any_current_iff.mp hvalid
    rw [isValid_eq h, any_current_iff.mpr ⟨e, hfresh, Instant.le_trans hle hnew⟩]
  · refine ⟨_, invalidateIfStale_eq h now id modifiedAt, any_current_iff, ?_, ?_⟩
    · intro hremoved
      obtain ⟨e, hfresh, hstale⟩ := any_current_iff.mp hremoved
      exact (hasNone_invalidateIfStale h hfresh hstale).forgets
    · intro hkept
      refine isHarmless_invalidateIfStale h fun e hfresh ↦ ?_
      rw [Bool.eq_false_iff]
      intro hstale
      rw [any_current_iff.mpr ⟨e, hfresh, hstale⟩] at hkept
      cases hkept
  · intro other later hle hnow hlater hordinary e he _
    exact age_le_age hle hnow hlater (hordinary e he)

/-! ## One document -/

/-- A cache of one document, whose source was last modified at a time that may be unknown. -/
def holding (lifetime : Nat) (capturedAt : Instant) (modifiedAt : Option Instant) : Cache :=
  Cache.run ⟨.empty, lifetime, .zero⟩ [(capturedAt, .put ⟨"a"⟩ [1] modifiedAt)]

theorem isAccessible_holding (lifetime : Nat) (capturedAt : Instant)
    (modifiedAt : Option Instant) : (holding lifetime capturedAt modifiedAt).IsAccessible :=
  (run_isAccessible (isAccessible_of_holdsFiles Folder.holdsFiles_empty) _).1

theorem lifetime_holding (lifetime : Nat) (capturedAt : Instant) (modifiedAt : Option Instant) :
    (holding lifetime capturedAt modifiedAt).lifetime = lifetime :=
  (run_isAccessible (isAccessible_of_holdsFiles Folder.holdsFiles_empty) _).2

theorem slot_holding (lifetime : Nat) {capturedAt : Instant} {modifiedAt : Option Instant}
    (hreads : Header.ReadsBack ⟨⟨"a"⟩, capturedAt, modifiedAt, 1⟩) :
    (holding lifetime capturedAt modifiedAt).slot (fileName ⟨"a"⟩) =
      some ⟨⟨"a"⟩, [1], capturedAt, modifiedAt⟩ := by
  have hempty : (⟨.empty, lifetime, .zero⟩ : Cache).folder.HoldsFiles := Folder.holdsFiles_empty
  obtain ⟨c', hput, -, -, hslot, -⟩ := put_slot hempty capturedAt ⟨"a"⟩ [1] modifiedAt
  rw [holding, run_cons, perform, hput]
  exact hslot hreads

/-- The document is valid for the time of its source and all earlier ones, invalidated for later
ones, and away then; a purge after a minute goes unnoticed from then on. -/
theorem isValid_iff_not_invalidated_holding :
    let c := holding 60000000000 ⟨0, 0⟩ (some ⟨5, 0⟩)
    c.IsAccessible ∧ (c.isValid ⟨1, 0⟩ ⟨"a"⟩ ⟨5, 0⟩).1 = .ok true ∧
      (c.isValid ⟨1, 0⟩ ⟨"a"⟩ ⟨4, 999⟩).1 = .ok true ∧
      (c.invalidateIfStale ⟨1, 0⟩ ⟨"a"⟩ ⟨5, 1⟩).1 = .ok true ∧
      (c.invalidateIfStale ⟨1, 0⟩ ⟨"a"⟩ ⟨5, 1⟩).2.Forgets ⟨"a"⟩ ∧
      Unnoticed ⟨"a"⟩ (fun later ↦ later = ⟨70, 0⟩) c (c.purgeExpired ⟨60, 0⟩).2 := by
  intro c
  have hreads : Header.ReadsBack ⟨⟨"a"⟩, ⟨0, 0⟩, some ⟨5, 0⟩, 1⟩ :=
    Header.readsBack_of_asRead (by decide +kernel) (by decide) (by decide +kernel)
  have hslot := slot_holding 60000000000 hreads
  have haccessible : c.IsAccessible := isAccessible_holding _ _ _
  have hfresh : c.HasFresh ⟨1, 0⟩ ⟨"a"⟩ ⟨⟨"a"⟩, [1], ⟨0, 0⟩, some ⟨5, 0⟩⟩ :=
    ⟨hslot, rfl, (lifetime_holding _ _ _).symm ▸ by decide⟩
  obtain ⟨hvalid, hinvalidate, -⟩ := isValid_iff_not_invalidated c haccessible ⟨1, 0⟩ ⟨"a"⟩
  obtain ⟨valid, hanswer, hiff, hearlier, -⟩ := hvalid ⟨5, 0⟩
  obtain rfl : valid = true := hiff.mpr ⟨_, hfresh, rfl⟩
  obtain ⟨removed, hremoved, hstale, hforgets, -⟩ := hinvalidate ⟨5, 1⟩
  obtain rfl : removed = true := hstale.mpr ⟨_, hfresh, rfl⟩
  obtain ⟨-, -, hpurge, hyounger⟩ := isValid_iff_not_invalidated c haccessible ⟨60, 0⟩ ⟨"a"⟩
  refine ⟨haccessible, hanswer, hearlier rfl ⟨4, 999⟩ (by decide), hremoved, hforgets rfl, ?_⟩
  rintro history later rfl
  refine hpurge ⟨"a"⟩ history ⟨70, 0⟩ ?_
  refine hyounger ⟨"a"⟩ ⟨70, 0⟩ (by decide) (by decide) (by decide) fun e he ↦ ?_
  obtain rfl := Option.some.inj (hslot.symm.trans he)
  decide

/-- In a leap second the document is an hour old, and removed though nothing is invalidated; shortly
after, it would have been younger than that and given out. -/
theorem get_after_leap_second :
    let c := holding 3600000000000 ⟨39600, 300000000⟩ none
    let now : Instant := ⟨43199, 1500000000⟩
    let later : Instant := ⟨43200, 100000000⟩
    let after := (c.invalidateIfStale now ⟨"a"⟩ ⟨0, 0⟩).2
    c.IsAccessible ∧ now.le later = true ∧
      (c.invalidateIfStale now ⟨"a"⟩ ⟨0, 0⟩).1 = .ok false ∧
      (after.get later ⟨"a"⟩).1 = .ok none ∧
      (c.get later ⟨"a"⟩).1 = .ok (some ⟨⟨"a"⟩, [1], ⟨39600, 300000000⟩, none⟩) := by
  intro c now later after
  have hreads : Header.ReadsBack ⟨⟨"a"⟩, ⟨39600, 300000000⟩, none, 1⟩ :=
    Header.readsBack_of_asRead (by decide +kernel) (by decide) (by decide +kernel)
  have hslot := slot_holding 3600000000000 hreads
  have hlifetime : c.lifetime = 3600000000000 := lifetime_holding _ _ _
  have haccessible : c.IsAccessible := isAccessible_holding _ _ _
  have hthins := perform_thinsWithin haccessible now (.invalidateIfStale ⟨"a"⟩ ⟨0, 0⟩) fun _ ↦ rfl
  have hafter : after.IsAccessible := hthins.isAccessible
  have hgone : after.slot (fileName ⟨"a"⟩) = none := by
    refine (hthins.slot_eq _ rfl).trans ?_
    rw [hslot, hlifetime]
    exact Option.filter_some_neg (by simp [Operation.keeps]; decide)
  refine ⟨haccessible, by decide, ?_, ?_, ?_⟩
  · rw [invalidateIfStale_eq haccessible, current, hslot, hlifetime]
    decide
  · rw [get_eq hafter, current, hgone]
    rfl
  · rw [get_eq haccessible, current, hslot, hlifetime]
    decide

end Cache

end Marginalia
