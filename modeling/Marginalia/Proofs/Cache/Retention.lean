import Mathlib.Data.List.Induction
import Marginalia.Proofs.Cache.Files
import Marginalia.Proofs.Cache.Headers

/-!
# What a cache gives out

Under each name a cache keeps the entry of the last put to that name, until an operation takes it
away. An entry is given out only for its own document, so two documents whose names are the same
push each other out but are never taken for each other. Entries that are too old are removed when
they are come across, and not before: one that was never looked at while it was too old comes back
when the clock is set back.
-/

namespace Marginalia.Cache

/-! ## One operation -/

namespace Operation

/-- Whether an operation other than a put leaves an entry under a name. -/
def keeps (lifetime : Nat) (now : Instant) (name : String) : Operation → Entry → Bool
  | put _ _ _, _ => true
  | get id, e => name ≠ fileName id || e.isCurrentFor id lifetime now
  | isValid id _, e => name ≠ fileName id || e.isCurrentFor id lifetime now
  | invalidateIfStale id modifiedAt, e =>
    name ≠ fileName id ||
      (e.isCurrentFor id lifetime now && !e.effectiveTime.lt modifiedAt)
  | remove id, _ => name ≠ fileName id
  | clear, _ => !isEntryName name
  | purgeExpired, e => !isEntryName name || age now e < lifetime

/-- What is kept under a name after an operation. -/
def onSlot (lifetime : Nat) (now : Instant) (name : String) (kept : Option Entry) :
    Operation → Option Entry
  | put id payload modifiedAt =>
    if name = fileName id then some ⟨id, payload, now, modifiedAt⟩ else kept
  | operation => kept.filter (operation.keeps lifetime now name)

/-- What an operation writes can be read again. -/
def IsReadable (now : Instant) : Operation → Prop
  | put id payload modifiedAt => Header.ReadsBack ⟨id, now, modifiedAt, payload.length⟩
  | _ => True

/-- Whether a put writes to the file of a document. -/
def putsAt (id : DocumentId) : Operation → Bool
  | put other _ _ => fileName id = fileName other
  | _ => false

theorem onSlot_of_putsAt_eq_false {operation : Operation} {id : DocumentId}
    (hputs : operation.putsAt id = false) (lifetime : Nat) (now : Instant) (kept : Option Entry) :
    operation.onSlot lifetime now (fileName id) kept =
      kept.filter (operation.keeps lifetime now (fileName id)) := by
  cases operation with
  | put other payload modifiedAt =>
    have hname : fileName id ≠ fileName other := by simpa [putsAt] using hputs
    cases kept <;> simp [onSlot, hname, keeps, Option.filter]
  | _ => rfl

theorem onSlot_put_self (lifetime : Nat) (now : Instant) (kept : Option Entry) (id : DocumentId)
    (payload : Bytes) (modifiedAt : Option Instant) :
    (put id payload modifiedAt).onSlot lifetime now (fileName id) kept =
      some ⟨id, payload, now, modifiedAt⟩ := by
  rw [onSlot, if_pos rfl]

theorem perform_of_thins {α : Type} {c : Cache} {operation : Operation} {now : Instant}
    (answer : α) (c' : Cache) (hthins : Thins (operation.keeps c.lifetime now) c c')
    (hperform : c.perform now operation = forget (.ok answer, c'))
    (hput : ∀ id, operation.putsAt id = false) :
    ∃ c', c.perform now operation = (.ok (), c') ∧ c'.folder.HoldsFiles ∧
      c'.lifetime = c.lifetime ∧
      ∀ id, (operation.putsAt id = true → operation.IsReadable now) → c'.slot (fileName id) =
        operation.onSlot c.lifetime now (fileName id) (c.slot (fileName id)) := by
  refine ⟨c', hperform, hthins.holdsFiles, hthins.lifetime_eq, ?_⟩
  intro id _
  rw [onSlot_of_putsAt_eq_false (hput id)]
  exact hthins.slot_eq (fileName id)

end Operation

/-- No operation on a cache of files fails, and each has its effect on every entry. -/
theorem perform_slot {c : Cache} (h : c.folder.HoldsFiles) (now : Instant)
    (operation : Operation) :
    ∃ c', c.perform now operation = (.ok (), c') ∧ c'.folder.HoldsFiles ∧
      c'.lifetime = c.lifetime ∧
      ∀ id, (operation.putsAt id = true → operation.IsReadable now) → c'.slot (fileName id) =
        operation.onSlot c.lifetime now (fileName id) (c.slot (fileName id)) := by
  cases operation with
  | put id payload modifiedAt =>
    obtain ⟨c', hput, hfiles, hlifetime, hself, hother⟩ := put_slot h now id payload modifiedAt
    refine ⟨c', hput, hfiles, hlifetime, ?_⟩
    intro other hreadable
    rw [Operation.onSlot]
    split
    · rename_i hname
      rw [hname, hself (hreadable (by simp [Operation.putsAt, hname]))]
    · rename_i hname
      exact hother other hname
  | get id =>
    obtain ⟨c', hget, hthins⟩ := get_thins h now id
    exact Operation.perform_of_thins _ c' hthins (congrArg forget hget) fun _ ↦ rfl
  | isValid id modifiedAt =>
    obtain ⟨answer, c', hvalid, hthins⟩ := isValid_thins h now id modifiedAt
    exact Operation.perform_of_thins answer c' hthins (congrArg forget hvalid) fun _ ↦ rfl
  | invalidateIfStale id modifiedAt =>
    obtain ⟨answer, c', hinvalidate, hthins⟩ := invalidateIfStale_thins h now id modifiedAt
    exact Operation.perform_of_thins answer c' hthins (congrArg forget hinvalidate) fun _ ↦ rfl
  | remove id =>
    obtain ⟨gone, c', hremove, hthins⟩ := removeFile_thins h (fileName id)
    have hkeeps := Thins.congr hthins (fun name e _ ↦
      (by simp [Operation.keeps] : _ = (Operation.remove id).keeps c.lifetime now name e))
    exact Operation.perform_of_thins gone c' hkeeps (congrArg forget hremove) fun _ ↦ rfl
  | clear =>
    obtain ⟨count, c', hclear, hthins⟩ := clear_thins h
    exact Operation.perform_of_thins count c' hthins (congrArg forget hclear) fun _ ↦ rfl
  | purgeExpired =>
    obtain ⟨count, c', hpurge, hthins⟩ := purgeExpired_thins h now
    exact Operation.perform_of_thins count c' hthins (congrArg forget hpurge) fun _ ↦ rfl

/-! ## Histories -/

/-- Everything that a history puts into a cache can be read again. -/
def IsReadable (history : List (Instant × Operation)) : Prop :=
  ∀ entry ∈ history, entry.2.IsReadable entry.1

theorem run_append (c : Cache) (before after : List (Instant × Operation)) :
    c.run (before ++ after) = (c.run before).run after :=
  List.foldl_append

theorem run_cons (c : Cache) (now : Instant) (operation : Operation)
    (rest : List (Instant × Operation)) :
    c.run ((now, operation) :: rest) = (c.perform now operation).2.run rest := rfl

/-- A cache in use holds files only, and its lifetime stays the same. -/
theorem run_holdsFiles {c : Cache} (h : c.folder.HoldsFiles)
    (history : List (Instant × Operation)) :
    (c.run history).folder.HoldsFiles ∧ (c.run history).lifetime = c.lifetime := by
  induction history generalizing c with
  | nil => exact ⟨h, rfl⟩
  | cons entry rest ih =>
    obtain ⟨now, operation⟩ := entry
    obtain ⟨c', hperform, hfiles, hlifetime, -⟩ := perform_slot h now operation
    rw [run_cons, hperform]
    obtain ⟨hfiles', hlifetime'⟩ := ih hfiles
    exact ⟨hfiles', hlifetime'.trans hlifetime⟩

/-- While nothing is put under a name, what is kept there is left as long as every operation leaves
it. -/
theorem run_slot_of_no_put {c : Cache} (h : c.folder.HoldsFiles)
    {history : List (Instant × Operation)} (id : DocumentId)
    (hputs : ∀ entry ∈ history, entry.2.putsAt id = false) :
    (c.run history).slot (fileName id) = (c.slot (fileName id)).filter fun e ↦
      history.all fun entry ↦ entry.2.keeps c.lifetime entry.1 (fileName id) e := by
  induction history generalizing c with
  | nil => cases hslot : c.slot (fileName id) <;> simp [run, hslot, Option.filter]
  | cons entry rest ih =>
    obtain ⟨now, operation⟩ := entry
    obtain ⟨hput, hputs⟩ := List.forall_mem_cons.mp hputs
    obtain ⟨c', hperform, hfiles, hlifetime, hslot⟩ := perform_slot h now operation
    rw [run_cons, hperform, ih hfiles hputs, hslot id (by simp [hput]), hlifetime,
      Operation.onSlot_of_putsAt_eq_false hput, Option.filter_filter]
    simp only [List.all_cons]

/-- What is kept under a name comes from the last put to it. -/
theorem last_put_of_run_slot {c : Cache} (hempty : c.folder = .empty)
    {history : List (Instant × Operation)} (hreadable : IsReadable history) {id : DocumentId}
    {e : Entry} (he : (c.run history).slot (fileName id) = some e) :
    ∃ before after, history =
        before ++ (e.capturedAt, .put e.id e.payload e.modifiedAt) :: after ∧
      fileName id = fileName e.id ∧ ∀ entry ∈ after, entry.2.putsAt id = false := by
  have hstart : c.folder.HoldsFiles := hempty ▸ Folder.holdsFiles_empty
  induction history using List.reverseRecOn with
  | nil =>
    exfalso
    rw [show c.run [] = c from rfl, slot, hempty] at he
    cases he
  | append_singleton prior entry ih =>
    obtain ⟨now, operation⟩ := entry
    obtain ⟨hprior, hlast⟩ := List.forall_mem_append.mp hreadable
    have hlast := List.forall_mem_singleton.mp hlast
    obtain ⟨hfiles, hlifetime⟩ := run_holdsFiles hstart prior
    obtain ⟨c', hperform, -, -, hslot⟩ := perform_slot hfiles now operation
    rw [run_append, run_cons, hperform, show c'.run [] = c' from rfl, hslot id fun _ ↦ hlast] at he
    cases hput : operation.putsAt id with
    | false =>
      rw [Operation.onSlot_of_putsAt_eq_false hput] at he
      obtain ⟨before, after, hsplit, hname, hafter⟩ :=
        ih hprior (Option.filter_eq_some_iff.mp he).1
      refine ⟨before, after ++ [(now, operation)], by simp [hsplit], hname, ?_⟩
      exact List.forall_mem_append.mpr ⟨hafter, List.forall_mem_singleton.mpr hput⟩
    | true =>
      cases operation with
      | put other payload modifiedAt =>
        have hname : fileName id = fileName other := by simpa [Operation.putsAt] using hput
        rw [Operation.onSlot, if_pos hname] at he
        cases he
        exact ⟨prior, [], rfl, hname, by simp⟩
      | _ => cases hput

/-! ## Lookups -/

/-- A lookup answers with what is kept under the name of the document, if that is its own entry and
not too old. -/
theorem get_run_eq {c : Cache} (h : c.folder.HoldsFiles) (history : List (Instant × Operation))
    (now : Instant) (id : DocumentId) :
    ((c.run history).get now id).1 =
      .ok (((c.run history).slot (fileName id)).filter
        (Entry.isCurrentFor id c.lifetime now)) := by
  obtain ⟨hfiles, hlifetime⟩ := run_holdsFiles h history
  obtain ⟨c', hget, -⟩ := get_thins hfiles now id
  rw [hget, hlifetime]

/-- An operation after which an entry is still there. -/
structure Operation.Spares (lifetime : Nat) (now : Instant) (e : Entry) (operation : Operation) :
    Prop where
  not_removed : operation ≠ .remove e.id
  not_cleared : operation ≠ .clear
  not_stale : ∀ modifiedAt, operation = .invalidateIfStale e.id modifiedAt →
    e.effectiveTime.lt modifiedAt = false
  young : operation.reads e.id = true → age now e < lifetime

/-- No other document that an operation is about has the name of this one. -/
def Operation.RespectsName (id : DocumentId) (operation : Operation) : Prop :=
  ∀ other, operation.id? = some other → fileName id = fileName other → other = id

theorem Operation.keeps_of_name_ne {operation : Operation} {other : DocumentId}
    (hid : operation.id? = some other) {name : String} (hname : name ≠ fileName other)
    (lifetime : Nat) (now : Instant) (e : Entry) :
    operation.keeps lifetime now name e = true := by
  cases operation <;> cases hid <;> simp [keeps, hname]

theorem Operation.spares_of_id_ne {operation : Operation} {other : DocumentId}
    (hid : operation.id? = some other) {e : Entry} (hne : other ≠ e.id) (lifetime : Nat)
    (now : Instant) : operation.Spares lifetime now e := by
  cases operation <;> cases hid <;>
    exact ⟨by simp [hne], by simp, by simp [hne], by simp [reads, hne]⟩

/-- An operation leaves an entry just when it spares it. -/
theorem Operation.keeps_iff_spares {operation : Operation} {e : Entry}
    (hname : operation.RespectsName e.id) (lifetime : Nat) (now : Instant) :
    operation.keeps lifetime now (fileName e.id) e = true ↔ operation.Spares lifetime now e := by
  cases hid : operation.id? with
  | some other =>
    by_cases hne : other = e.id
    · subst hne
      constructor
      · intro hkeeps
        cases operation <;> cases hid <;> simp [keeps, Entry.isCurrentFor] at hkeeps <;>
          exact ⟨by simp, by simp, by simp_all, by simp_all [reads]⟩
      · intro hspares
        cases operation <;> cases hid
        · rfl
        · simp [keeps, Entry.isCurrentFor, hspares.young (by simp [reads])]
        · simp [keeps, Entry.isCurrentFor, hspares.young (by simp [reads])]
        · simp [keeps, Entry.isCurrentFor, hspares.young (by simp [reads]),
            hspares.not_stale _ rfl]
        · exact absurd rfl hspares.not_removed
    · have hdiffer : fileName e.id ≠ fileName other := fun h ↦ hne (hname other hid h)
      exact iff_of_true (keeps_of_name_ne hid hdiffer lifetime now e)
        (spares_of_id_ne hid hne lifetime now)
  | none =>
    constructor
    · intro hkeeps
      cases operation <;> cases hid <;> simp [keeps, isEntryName_fileName] at hkeeps
      exact ⟨by simp, by simp, by simp, fun _ ↦ hkeeps⟩
    · intro hspares
      cases operation <;> cases hid
      · exact absurd rfl hspares.not_cleared
      · simp [keeps, hspares.young rfl]

theorem Operation.puts_of_putsAt {operation : Operation} {id : DocumentId}
    (h : operation.putsAt id = false) : operation.puts id = false := by
  cases operation with
  | put other payload modifiedAt =>
    simp only [putsAt, decide_eq_false_iff_not] at h
    simp only [puts, decide_eq_false_iff_not]
    rintro rfl
    exact h rfl
  | _ => rfl

theorem Operation.putsAt_of_puts {operation : Operation} {id : DocumentId}
    (hname : operation.RespectsName id) (h : operation.puts id = false) :
    operation.putsAt id = false := by
  cases operation with
  | put other payload modifiedAt =>
    simp only [puts, decide_eq_false_iff_not] at h
    simp only [putsAt, decide_eq_false_iff_not]
    exact fun hsame ↦ h (hname other rfl hsame)
  | _ => rfl

/-- A lookup never fails. What it gives out is the last entry put for the document, whatever other
documents have the same name; and when no other document of the history has it, that entry is given
out just when every later operation spares it and it is not too old at the lookup itself. -/
theorem get_run (c : Cache) (hempty : c.folder = .empty) (history : List (Instant × Operation))
    (hreadable : IsReadable history) (now : Instant) (id : DocumentId) :
    (∃ found, ((c.run history).get now id).1 = .ok found) ∧
      (∀ e, ((c.run history).get now id).1 = .ok (some e) →
        ∃ before after, history =
            before ++ (e.capturedAt, .put id e.payload e.modifiedAt) :: after ∧ e.id = id ∧
          ∀ entry ∈ after, entry.2.puts id = false) ∧
      ((∀ entry ∈ history, entry.2.RespectsName id) →
        ∀ before after payload putAt modifiedAt,
          history = before ++ (putAt, .put id payload modifiedAt) :: after →
          (∀ entry ∈ after, entry.2.puts id = false) →
          let e : Entry := ⟨id, payload, putAt, modifiedAt⟩
          ((c.run history).get now id).1 = .ok (some e) ↔
            (∀ entry ∈ after, entry.2.Spares c.lifetime entry.1 e) ∧ age now e < c.lifetime) := by
  have hstart : c.folder.HoldsFiles := hempty ▸ Folder.holdsFiles_empty
  have hget := get_run_eq hstart history now id
  refine ⟨⟨_, hget⟩, ?_, ?_⟩
  · intro e he
    rw [hget, Except.ok.injEq, Option.filter_eq_some_iff] at he
    obtain ⟨hslot, hcurrent⟩ := he
    have hid : e.id = id := by
      simp [Entry.isCurrentFor] at hcurrent
      exact hcurrent.1
    obtain ⟨before, after, hsplit, -, hafter⟩ := last_put_of_run_slot hempty hreadable hslot
    refine ⟨before, after, hid ▸ hsplit, hid, ?_⟩
    exact fun entry hentry ↦ Operation.puts_of_putsAt (hafter entry hentry)
  · intro hnames before after payload putAt modifiedAt hsplit hlast e
    have hparts : IsReadable (before ++ (putAt, .put id payload modifiedAt) :: after) :=
      hsplit ▸ hreadable
    obtain ⟨hput, -⟩ := List.forall_mem_cons.mp (List.forall_mem_append.mp hparts).2
    have hnames' : ∀ entry ∈ after, entry.2.RespectsName id :=
      fun entry hentry ↦ hnames entry (by simp [hsplit, hentry])
    obtain ⟨hfiles, hlifetime⟩ := run_holdsFiles hstart before
    obtain ⟨c', hperform, hfiles', hlifetime', hslot⟩ :=
      perform_slot hfiles putAt (.put id payload modifiedAt)
    have hkept : c'.slot (fileName id) = some e := by
      rw [hslot id fun _ ↦ hput, Operation.onSlot_put_self]
    have hrun : c.run history = c'.run after := by
      rw [hsplit, run_append, run_cons, hperform]
    have hleft := run_slot_of_no_put hfiles' id fun entry hentry ↦
      Operation.putsAt_of_puts (hnames' entry hentry) (hlast entry hentry)
    have hall : (after.all fun entry ↦
          entry.2.keeps c'.lifetime entry.1 (fileName id) e) = true ↔
        ∀ entry ∈ after, entry.2.Spares c.lifetime entry.1 e := by
      rw [List.all_eq_true, hlifetime', hlifetime]
      exact forall₂_congr fun entry hentry ↦
        Operation.keeps_iff_spares (e := e) (hnames' entry hentry) c.lifetime entry.1
    rw [hget, hrun, hleft, hkept, Except.ok.injEq, Option.filter_eq_some_iff,
      Option.filter_eq_some_iff, hall]
    simp [Entry.isCurrentFor, e]

/-- Two documents are kept, one of them is looked at while the clock goes back, and the other is
removed. -/
def twoDocuments : List (Instant × Operation) :=
  [(⟨0, 0⟩, .put ⟨"a"⟩ [1] none), (⟨1, 0⟩, .put ⟨"b"⟩ [2] (some ⟨5, 0⟩)), (⟨2, 0⟩, .get ⟨"a"⟩),
    (⟨1, 0⟩, .isValid ⟨"a"⟩ ⟨0, 0⟩), (⟨3, 0⟩, .invalidateIfStale ⟨"a"⟩ ⟨0, 0⟩),
    (⟨3, 0⟩, .remove ⟨"b"⟩), (⟨4, 0⟩, .purgeExpired)]

theorem isReadable_twoDocuments : IsReadable twoDocuments := by
  have ha : Header.ReadsBack ⟨⟨"a"⟩, ⟨0, 0⟩, none, 1⟩ :=
    Header.readsBack_of_asRead (by decide +kernel) (by decide) rfl
  have hb : Header.ReadsBack ⟨⟨"b"⟩, ⟨1, 0⟩, some ⟨5, 0⟩, 1⟩ :=
    Header.readsBack_of_asRead (by decide +kernel) (by decide) rfl
  simpa [IsReadable, twoDocuments, Operation.IsReadable] using And.intro ha hb

theorem respectsName_twoDocuments :
    ∀ entry ∈ twoDocuments, entry.2.RespectsName ⟨"a"⟩ := by
  have hne : fileName ⟨"a"⟩ ≠ fileName ⟨"b"⟩ := by decide +kernel
  simp [twoDocuments, Operation.RespectsName, Operation.id?, hne]

/-- After that the first document is given out until it is a minute old. -/
theorem get_run_twoDocuments :
    let c : Cache := ⟨.empty, 60000000000, .zero⟩
    let e : Entry := ⟨⟨"a"⟩, [1], ⟨0, 0⟩, none⟩
    ((c.run twoDocuments).get ⟨59, 0⟩ ⟨"a"⟩).1 = .ok (some e) ∧
      ((c.run twoDocuments).get ⟨60, 0⟩ ⟨"a"⟩).1 ≠ .ok (some e) := by
  intro c e
  have hlookup := fun now ↦ (get_run c rfl twoDocuments isReadable_twoDocuments now ⟨"a"⟩).2.2
    respectsName_twoDocuments [] twoDocuments.tail [1] ⟨0, 0⟩ none rfl (by decide +kernel)
  have hkeeps : ∀ entry ∈ twoDocuments.tail,
      entry.2.keeps 60000000000 entry.1 (fileName ⟨"a"⟩) ⟨⟨"a"⟩, [1], ⟨0, 0⟩, none⟩ = true := by
    decide +kernel
  have hspares : ∀ entry ∈ twoDocuments.tail, entry.2.Spares c.lifetime entry.1 e := by
    intro entry hentry
    have hname := respectsName_twoDocuments entry (List.mem_of_mem_tail hentry)
    exact (Operation.keeps_iff_spares (e := e) hname c.lifetime entry.1).mp (hkeeps entry hentry)
  refine ⟨(hlookup ⟨59, 0⟩).mpr ⟨hspares, by decide⟩, fun h ↦ ?_⟩
  exact absurd ((hlookup ⟨60, 0⟩).mp h).2 (by decide)

end Marginalia.Cache
