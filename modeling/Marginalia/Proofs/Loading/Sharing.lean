import Marginalia.Proofs.Flights.Sharing
import Marginalia.Proofs.Loading.Saves

/-!
# Loads that are shared

The loads under way are the runs that take the keys of a loader's flights, so there is at most one
for a document. A load asks its source for the bytes at most once, and all who ask for the document
while it is under way wait for it.
-/

namespace Marginalia

/-! ## One load -/

namespace LoadStage

/-- How often a load may still ask for the bytes. -/
def owes : LoadStage → Nat
  | start => 1
  | validating _ _ => 1
  | looking _ => 1
  | opening _ _ => 1
  | discarding _ => 1
  | _ => 0

/-- A step asks for the bytes at most as often as the load may, and uses that up. -/
theorem step_owes (format : Pdf.FileFormat) (source : Source) (now : Instant) (id : DocumentId)
    (stage : LoadStage) (depot : Depot) :
    depot.fetches.bytes ≤ (stage.step format source now id depot).2.fetches.bytes ∧
      (stage.step format source now id depot).2.fetches.bytes +
        (stage.step format source now id depot).1.owes ≤ depot.fetches.bytes + stage.owes := by
  obtain ⟨cache, fetches⟩ := depot
  have hsame : fetches.bytes ≤ fetches.bytes ∧ fetches.bytes + 0 ≤ fetches.bytes + 0 :=
    ⟨Nat.le_refl _, Nat.le_refl _⟩
  have howing : fetches.bytes ≤ fetches.bytes ∧ fetches.bytes + 1 ≤ fetches.bytes + 1 :=
    ⟨Nat.le_refl _, Nat.le_refl _⟩
  have hasks : fetches.bytes ≤ fetches.bytes + 1 ∧ fetches.bytes + 1 ≤ fetches.bytes + 1 :=
    ⟨Nat.le_succ _, Nat.le_refl _⟩
  cases stage with
  | start =>
    simp only [step, askMetadata]
    split
    · exact hasks
    · exact howing
    · exact howing
  | validating known modifiedAt => exact howing
  | looking known =>
    simp only [step]
    split
    · exact hasks
    · split
      · exact howing
      · exact hasks
  | opening known payload =>
    simp only [step]
    split
    · exact ⟨Nat.le_refl _, Nat.le_succ _⟩
    · exact howing
  | discarding known => exact hasks
  | fetching known answer => cases answer <;> exact hsame
  | probing known bytes =>
    simp only [step]
    split <;> exact hsame
  | storing known document => exact hsame
  | finished result => exact hsame

end LoadStage

namespace Loader

variable {format : Pdf.FileFormat}

/-! ## The loads under way -/

/-- The loads under way are the runs that take keys, each under the id of its document. -/
structure Linked (l : Loader) : Prop where
  sound : l.flights.Sound
  nodup_runs : (l.runs.map Prod.fst).Nodup
  mem_pending_iff : ∀ id run,
    (id, run) ∈ l.flights.pending ↔ ∃ load, (run, load) ∈ l.runs ∧ load.id = id

theorem linked_new (cache : Option Cache) : (new cache).Linked where
  sound := Flights.sound_empty
  nodup_runs := List.nodup_nil
  mem_pending_iff _ _ := by simp [new, Flights.empty]

namespace Linked

variable {l : Loader} (h : l.Linked)
include h

/-- There is at most one load of a document. -/
theorem unique {first second : Nat × LoadRun} (hfirst : first ∈ l.runs) (hsecond : second ∈ l.runs)
    (hid : first.2.id = second.2.id) : first = second := by
  have hmem := (h.mem_pending_iff first.2.id first.1).mpr ⟨first.2, hfirst, rfl⟩
  have hmem' := (h.mem_pending_iff first.2.id second.1).mpr ⟨second.2, hsecond, hid.symm⟩
  exact List.inj_on_of_nodup_map h.nodup_runs hfirst hsecond (h.sound.inj_key hmem hmem')

theorem isLoading_eq_false_iff {id : DocumentId} :
    l.isLoading id = false ↔ ∀ entry ∈ l.runs, entry.2.id ≠ id := by
  have hfree : l.isLoading id = false ↔ l.flights.run? id = none := by
    simp [isLoading, Flights.isPending]
  rw [hfree, Flights.run?_eq_none_iff]
  constructor
  · intro hnone entry hentry hid
    exact hnone entry.1 ((h.mem_pending_iff id entry.1).mpr ⟨entry.2, hentry, hid⟩)
  · intro hall run hmem
    obtain ⟨load, hload, hid⟩ := (h.mem_pending_iff id run).mp hmem
    exact hall (run, load) hload hid

theorem enter (id : DocumentId) : (l.enter id).2.Linked := by
  have hsound := h.sound.enter id
  cases hrun : l.flights.run? id with
  | some run =>
    rw [Loader.enter, Flights.enter_of_taken hrun]
    exact ⟨h.sound, h.nodup_runs, h.mem_pending_iff⟩
  | none =>
    rw [Flights.enter_of_free hrun] at hsound
    rw [Loader.enter, Flights.enter_of_free hrun]
    refine ⟨hsound, ?_, ?_⟩
    · refine List.nodup_cons.mpr ⟨?_, h.nodup_runs⟩
      intro hold
      obtain ⟨⟨run, load⟩, hload, hlast⟩ := List.mem_map.mp hold
      have hmem := (h.mem_pending_iff load.id run).mpr ⟨load, hload, rfl⟩
      exact absurd hlast (Nat.ne_of_lt (h.sound.lt_started _ _ hmem))
    · intro other run
      rw [List.mem_append, List.mem_singleton, h.mem_pending_iff]
      simp only [List.mem_cons]
      constructor
      · rintro (⟨load, hload, hid⟩ | heq)
        · exact ⟨load, Or.inr hload, hid⟩
        · obtain ⟨rfl, rfl⟩ := Prod.mk.inj heq
          exact ⟨⟨other, .start, none⟩, Or.inl rfl, rfl⟩
      · rintro ⟨load, heq | hload, hid⟩
        · obtain ⟨rfl, rfl⟩ := Prod.mk.inj heq
          exact Or.inr (by rw [← hid])
        · exact Or.inl ⟨load, hload, hid⟩

section
variable {run : Nat} {load : LoadRun} (hload : (run, load) ∈ l.runs)
include hload

/-- A load that has ended gives its key back. -/
theorem finish (result : LoadResult) (depot : Depot) :
    { l with
      depot := depot
      flights := l.flights.finish load.id run result
      runs := l.runs.filter fun (other, _) ↦ other != run }.Linked := by
  have hpending := (h.mem_pending_iff load.id run).mpr ⟨load, hload, rfl⟩
  refine ⟨h.sound.finish hpending result, h.nodup_runs.sublist (List.filter_sublist.map _), ?_⟩
  intro id other
  rw [h.sound.mem_pending_finish_iff hpending, h.mem_pending_iff]
  simp only [List.mem_filter, bne_iff_ne]
  constructor
  · rintro ⟨⟨next, hnext, hid⟩, hne⟩
    exact ⟨next, ⟨hnext, hne⟩, hid⟩
  · rintro ⟨next, ⟨hnext, hne⟩, hid⟩
    exact ⟨⟨next, hnext, hid⟩, hne⟩

/-- A load that goes on keeps its number and its document. -/
theorem progress {next : LoadRun} (hid : next.id = load.id) (depot : Depot) :
    { l with
      depot := depot
      runs := l.runs.map fun (other, state) ↦
        if other = run then (other, next) else (other, state) }.Linked := by
  have honly : ∀ state, (run, state) ∈ l.runs → state = load := fun state hstate ↦
    congrArg Prod.snd (List.inj_on_of_nodup_map h.nodup_runs hstate hload rfl)
  refine ⟨h.sound, ?_, ?_⟩
  · rw [List.map_map]
    have hnumbers : ∀ entry ∈ l.runs, (Prod.fst ∘ fun (other, state) ↦
        if other = run then (other, next) else (other, state)) entry = entry.1 := by
      rintro ⟨other, state⟩ -
      by_cases hother : other = run <;> simp [hother]
    rw [List.map_congr_left hnumbers]
    exact h.nodup_runs
  · intro id other
    rw [h.mem_pending_iff]
    simp only [List.mem_map, Prod.exists]
    constructor
    · rintro ⟨state, hstate, hstateId⟩
      by_cases hother : other = run
      · subst hother
        refine ⟨next, ⟨other, state, hstate, if_pos rfl⟩, ?_⟩
        rw [hid, ← hstateId, honly state hstate]
      · exact ⟨state, ⟨other, state, hstate, if_neg hother⟩, hstateId⟩
    · rintro ⟨found, ⟨number, state, hstate, heq⟩, hfound⟩
      split at heq
      · next hnumber =>
        subst hnumber
        obtain ⟨rfl, rfl⟩ := Prod.mk.inj heq
        exact ⟨load, hload, hid.symm.trans hfound⟩
      · obtain ⟨rfl, rfl⟩ := Prod.mk.inj heq
        exact ⟨state, hstate, hfound⟩

end

theorem advance (format : Pdf.FileFormat) (source : Source) (now : Instant) (round run : Nat) :
    (l.advance format source now round run).Linked := by
  cases hlookup : l.runs.lookup run with
  | none =>
    rw [Loader.advance, hlookup]
    exact h
  | some load =>
    have hload := mem_of_lookup_eq_some hlookup
    rw [Loader.advance, hlookup]
    dsimp only
    split
    · next result hresult => exact h.finish hload result _
    · next hresult =>
      refine h.progress hload ?_ _
      rfl

theorem step (format : Pdf.FileFormat) (now : Instant) (event : Event) :
    (l.step format now event).Linked := by
  cases event with
  | ask id => exact h.enter id
  | advance source round run => exact h.advance format source now round run
  | storeExport id bytes =>
    simp only [Loader.step, storeExport]
    split <;> exact ⟨h.sound, h.nodup_runs, h.mem_pending_iff⟩
  | cache operation =>
    simp only [Loader.step]
    split <;> exact ⟨h.sound, h.nodup_runs, h.mem_pending_iff⟩

theorem run (format : Pdf.FileFormat) (events : List (Instant × Event)) :
    (l.run format events).Linked := by
  induction events generalizing l with
  | nil => exact h
  | cons entry rest ih => exact ih (h.step format entry.1 entry.2)

end Linked

/-! ## What is asked of the source -/

/-- How often an event asks the source for the bytes of a document. -/
def asked (format : Pdf.FileFormat) (l : Loader) (id : DocumentId) (now : Instant) : Event → Nat
  | .advance source round run =>
    if (l.runs.lookup run).any fun load ↦ load.id = id then
      (l.advance format source now round run).depot.fetches.bytes - l.depot.fetches.bytes
    else 0
  | _ => 0

/-- How often the source is asked for the bytes of a document in a run. -/
def bytesAsked (format : Pdf.FileFormat) (l : Loader) (id : DocumentId) :
    List (Instant × Event) → Nat
  | [] => 0
  | (now, event) :: rest =>
    l.asked format id now event + (l.step format now event).bytesAsked format id rest

/-- Whoever asks for a document after the first finds its load under way. -/
def Overlapping (format : Pdf.FileFormat) (l : Loader) (id : DocumentId)
    (events : List (Instant × Event)) : Prop :=
  ∀ before now after, events = before ++ (now, .ask id) :: after →
    (∃ entry ∈ before, entry.2 = .ask id) → (l.run format before).isLoading id = true

theorem bytesAsked_append (format : Pdf.FileFormat) (l : Loader) (id : DocumentId)
    (first second : List (Instant × Event)) :
    l.bytesAsked format id (first ++ second) =
      l.bytesAsked format id first + (l.run format first).bytesAsked format id second := by
  induction first generalizing l with
  | nil => exact (Nat.zero_add _).symm
  | cons entry rest ih =>
    obtain ⟨now, event⟩ := entry
    simp only [List.cons_append, bytesAsked]
    rw [ih, Nat.add_assoc]
    rfl

/-- The source was asked `count` times for a document, and a load of it under way may ask only if
that leaves it at one. -/
structure AsksOnce (l : Loader) (id : DocumentId) (count : Nat) : Prop where
  le_one : count ≤ 1
  owes_le : ∀ entry ∈ l.runs, entry.2.id = id → count + entry.2.stage.owes ≤ 1

namespace AsksOnce

variable {l : Loader} {id : DocumentId} {count : Nat} (hcount : l.AsksOnce id count)
include hcount

/-- Whoever asks for a document starts a load only where none is under way. -/
theorem enter {other : DocumentId}
    (hfirst : other = id → count = 0 ∨ l.isLoading id = true) :
    (l.enter other).2.AsksOnce id count := by
  refine ⟨hcount.le_one, ?_⟩
  intro entry hentry hid
  cases hrun : l.flights.run? other with
  | some run =>
    rw [Loader.enter, Flights.enter_of_taken hrun] at hentry
    exact hcount.owes_le entry hentry hid
  | none =>
    rcases mem_runs_enter hentry with hold | hnew
    · exact hcount.owes_le entry hold hid
    · rw [hnew] at hid ⊢
      obtain rfl : other = id := hid
      rcases hfirst rfl with rfl | hloading
      · exact Nat.le_refl 1
      · simp [isLoading, Flights.isPending, hrun] at hloading

section
variable (h : l.Linked) {run : Nat} {load : LoadRun} (hload : l.runs.lookup run = some load)
  (format : Pdf.FileFormat) (source : Source) (now : Instant) (round : Nat)
include hload

include h in
/-- What a load of the document asks, it owes no longer. -/
theorem advance_same (hid : load.id = id) :
    (l.advance format source now round run).AsksOnce id
      (count + l.asked format id now (.advance source round run)) := by
  have hmem := mem_of_lookup_eq_some hload
  have howes : count + load.stage.owes ≤ 1 := hcount.owes_le _ hmem hid
  obtain ⟨hgrows, howed⟩ := load.stage.step_owes format source now load.id l.depot
  rw [← advance_depot hload format source now round] at hgrows howed
  have hasked : l.asked format id now (.advance source round run) =
      (l.advance format source now round run).depot.fetches.bytes - l.depot.fetches.bytes := by
    simp [asked, hload, hid]
  rw [hasked]
  refine ⟨by omega, ?_⟩
  rintro ⟨other, next⟩ hentry hnext
  rcases mem_runs_advance_cases hload format source now round hentry with ⟨hold, hother⟩ | ⟨-, rfl⟩
  · have hsame := h.unique hold hmem (hnext.trans hid.symm)
    exact absurd (congrArg Prod.fst hsame) hother
  · dsimp only
    omega

theorem advance_other (hid : load.id ≠ id) :
    (l.advance format source now round run).AsksOnce id
      (count + l.asked format id now (.advance source round run)) := by
  have hasked : l.asked format id now (.advance source round run) = 0 := by
    simp [asked, hload, hid]
  rw [hasked]
  refine ⟨hcount.le_one, ?_⟩
  rintro ⟨other, next⟩ hentry hnext
  rcases mem_runs_advance_cases hload format source now round hentry with ⟨hold, -⟩ | ⟨-, rfl⟩
  · exact hcount.owes_le _ hold hnext
  · exact absurd hnext hid

end

theorem step (h : l.Linked) (now : Instant) (event : Event)
    (hevent : event = .ask id → count = 0 ∨ l.isLoading id = true) :
    (l.step format now event).AsksOnce id (count + l.asked format id now event) := by
  cases event with
  | ask other => exact hcount.enter fun hsame ↦ hevent (congrArg Event.ask hsame)
  | advance source round run =>
    cases hload : l.runs.lookup run with
    | none =>
      have hsame : l.step format now (.advance source round run) = l :=
        advance_of_none hload format source now round
      simp only [hsame, asked, hload]
      exact hcount
    | some load =>
      by_cases hid : load.id = id
      · exact hcount.advance_same h hload format source now round hid
      · exact hcount.advance_other hload format source now round hid
  | storeExport other bytes =>
    refine ⟨hcount.le_one, ?_⟩
    simp only [Loader.step, storeExport]
    split <;> exact hcount.owes_le
  | cache operation =>
    refine ⟨hcount.le_one, ?_⟩
    simp only [Loader.step]
    split <;> exact hcount.owes_le

end AsksOnce

/-- While a document is not being loaded, only someone who asks for it changes that. -/
theorem idle_step {l : Loader} (h : l.Linked) {id : DocumentId} (hidle : l.isLoading id = false)
    (now : Instant) {event : Event} (hevent : event ≠ .ask id) :
    l.asked format id now event = 0 ∧ (l.step format now event).isLoading id = false := by
  have hnone := h.isLoading_eq_false_iff.mp hidle
  have hlinked := h.step format now event
  rw [hlinked.isLoading_eq_false_iff]
  cases event with
  | ask other =>
    refine ⟨rfl, ?_⟩
    rintro ⟨run, load⟩ hentry rfl
    rcases mem_runs_enter hentry with hold | hnew
    · exact hnone _ hold rfl
    · exact hevent (congrArg (Event.ask ∘ LoadRun.id) hnew).symm
  | advance source round run =>
    cases hload : l.runs.lookup run with
    | none =>
      simp only [asked, Loader.step, Loader.advance, hload]
      exact ⟨rfl, hnone⟩
    | some load =>
      have hid : load.id ≠ id := hnone _ (mem_of_lookup_eq_some hload)
      refine ⟨by simp [asked, hload, hid], ?_⟩
      rintro ⟨other, next⟩ hentry
      rcases mem_runs_advance_cases hload format source now round hentry with ⟨hold, -⟩ | ⟨-, rfl⟩
      · exact hnone _ hold
      · exact hid
  | storeExport other bytes =>
    refine ⟨rfl, ?_⟩
    simp only [Loader.step, storeExport]
    split <;> exact hnone
  | cache operation =>
    refine ⟨rfl, ?_⟩
    simp only [Loader.step]
    split <;> exact hnone

/-- Whoever asks for a document that nobody loads starts the only load that all others join who ask
before it has ended, so the source is asked for the bytes once. -/
theorem asksOnce_of_overlapping {l : Loader} (h : l.Linked) {id : DocumentId}
    (hidle : l.isLoading id = false) (events : List (Instant × Event))
    (hoverlap : l.Overlapping format id events) :
    (l.run format events).AsksOnce id (l.bytesAsked format id events) ∧
      ((∀ entry ∈ events, entry.2 ≠ .ask id) →
        l.bytesAsked format id events = 0 ∧ (l.run format events).isLoading id = false) := by
  induction events using List.reverseRecOn with
  | nil =>
    have hnone := h.isLoading_eq_false_iff.mp hidle
    exact ⟨⟨Nat.zero_le 1, fun entry hentry hid ↦ absurd hid (hnone entry hentry)⟩,
      fun _ ↦ ⟨rfl, hidle⟩⟩
  | append_singleton before entry ih =>
    obtain ⟨now, event⟩ := entry
    have hbefore : l.Overlapping format id before := by
      intro first time rest heq
      exact hoverlap first time (rest ++ [(now, event)]) (by rw [heq]; simp)
    obtain ⟨hcount, hnot⟩ := ih hbefore
    have hlinked := h.run format before
    have hrun : l.run format (before ++ [(now, event)]) =
        (l.run format before).step format now event := by
      simp [Loader.run]
    have hasked : l.bytesAsked format id (before ++ [(now, event)]) =
        l.bytesAsked format id before + (l.run format before).asked format id now event := by
      rw [bytesAsked_append]
      rfl
    rw [hrun, hasked]
    constructor
    · refine hcount.step hlinked now event ?_
      rintro rfl
      by_cases hfirst : ∃ entry ∈ before, entry.2 = .ask id
      · exact Or.inr (hoverlap before now [] rfl hfirst)
      · exact Or.inl (hnot fun entry hentry heq ↦ hfirst ⟨entry, hentry, heq⟩).1
    · intro hall
      obtain ⟨hzero, hstill⟩ := hnot fun entry hentry ↦ hall entry (List.mem_append_left _ hentry)
      have hevent : event ≠ .ask id := hall (now, event) (by simp)
      obtain ⟨hnothing, hnext⟩ := idle_step hlinked hstill now hevent
      exact ⟨by rw [hzero, hnothing], hnext⟩

/-- Runs are shared. However asking, the end of work, releases and answers follow one another, at
most one run for a key is under way, and no key is taken when none is. Whoever asks for a key is
served by one run, which is not released yet at that moment. So loads of a document that overlap ask
the source for its bytes at most once. -/
theorem overlapping_loads_ask_once {κ ν : Type} [DecidableEq κ]
    (format : Pdf.FileFormat) (before after : List (Flights.Event κ ν)) (key : κ)
    (cache : Option Cache) (earlier events : List (Instant × Event)) (id : DocumentId)
    (hidle : ((new cache).run format earlier).isLoading id = false)
    (hoverlap : ((new cache).run format earlier).Overlapping format id events) :
    let d := (Flights.Desk.empty : Flights.Desk κ ν).run before
    (∀ other first second, d.IsUnderWay other first → d.IsUnderWay other second →
        first = second) ∧
      ((∀ other run, ¬d.IsUnderWay other run) → d.flights.isEmpty = true) ∧
      (∃! run, d.Serves ((d.ask key).run after) key run) ∧
      ((new cache).run format earlier).bytesAsked format id events ≤ 1 := by
  intro d
  have hdesk : d.Linked := (Flights.Desk.linked_empty.run before).1
  have hloader := (linked_new cache).run format earlier
  refine ⟨fun _ _ _ ↦ hdesk.underWay_unique, ?_, hdesk.serves key after,
    (asksOnce_of_overlapping hloader hidle events hoverlap).1.le_one⟩
  intro hnone
  rw [Flights.isEmpty, List.isEmpty_iff, List.eq_nil_iff_forall_not_mem]
  rintro ⟨other, run⟩ hmem
  exact hnone other run ((hdesk.mem_pending_iff other run).mp hmem)

/-- Two ask for a document one after the other; its load then looks into the cache and fetches. -/
def twoAsking : List (Instant × Event) :=
  [(⟨0, 0⟩, .ask ⟨"a"⟩), (⟨0, 0⟩, .advance outdated 0 0), (⟨0, 0⟩, .ask ⟨"a"⟩),
    (⟨0, 0⟩, .advance outdated 1 0), (⟨0, 0⟩, .advance outdated 2 0)]

theorem overlapping_twoAsking :
    ((new (some minuteCache)).run .standard []).Overlapping .standard ⟨"a"⟩ twoAsking := by
  intro before now after hsplit hasked
  match before, hsplit with
  | [], _ =>
    obtain ⟨_, hentry, -⟩ := hasked
    cases hentry
  | [_], hsplit => cases hsplit
  | [_, _], hsplit =>
    cases hsplit
    decide +kernel
  | [_, _, _], hsplit => cases hsplit
  | [_, _, _, _], hsplit => cases hsplit
  | _ :: _ :: _ :: _ :: _ :: rest, hsplit => simp [twoAsking] at hsplit

/-- Two wait for one load, which fetches once. At a desk, someone who asks after the work is done
but before its key is released gets the result of that work. -/
theorem overlapping_loads_ask_once_twoAsking :
    (new (some minuteCache)).bytesAsked .standard ⟨"a"⟩ twoAsking = 1 ∧
      (∃! run, ((Flights.Desk.empty : Flights.Desk Nat Nat).run [.ask 7, .complete 0 5]).Serves
        ((((Flights.Desk.empty : Flights.Desk Nat Nat).run [.ask 7, .complete 0 5]).ask 7).run
          [.release 0, .ask 7, .deliver 1]) 7 run) ∧
      (((Flights.Desk.empty : Flights.Desk Nat Nat).run [.ask 7, .complete 0 5, .ask 7, .release 0,
        .ask 7, .deliver 1]).askers.map fun a ↦ (a.run, a.answer)) =
          [(0, none), (0, some 5), (1, none)] := by
  obtain ⟨-, -, hserves, hbytes⟩ := overlapping_loads_ask_once (κ := Nat) (ν := Nat) .standard
    [.ask 7, .complete 0 5] [.release 0, .ask 7, .deliver 1] 7 (some minuteCache) [] twoAsking
    ⟨"a"⟩ (by decide +kernel) overlapping_twoAsking
  refine ⟨?_, hserves, by decide⟩
  have hfetched : 1 ≤ (new (some minuteCache)).bytesAsked .standard ⟨"a"⟩ twoAsking := by
    decide +kernel
  exact Nat.le_antisymm hbytes hfetched

end Loader

end Marginalia
