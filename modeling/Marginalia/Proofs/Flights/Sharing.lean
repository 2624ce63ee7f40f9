import Marginalia.Flights.Event
import Mathlib.Data.List.Nodup

/-!
# Shared runs

Keys are taken by runs one at a time. A release frees its key whichever run is noted under it; it is
the run itself, because a run that is not released is the one that is noted. So all who ask for a
key while a run is under way are answered by that run, and whoever asks afterwards is not.
-/

namespace Marginalia.Flights

variable {κ ν : Type}

/-! ## The runs under way -/

/-- Every key is taken by at most one run, and the runs that take keys were started and have no
result yet. -/
structure Sound (f : Flights κ ν) : Prop where
  nodup_keys : (f.pending.map Prod.fst).Nodup
  inj_run : ∀ key other run, (key, run) ∈ f.pending → (other, run) ∈ f.pending → key = other
  lt_started : ∀ key run, (key, run) ∈ f.pending → run < f.started
  result?_eq_none : ∀ key run, (key, run) ∈ f.pending → f.result? run = none
  lt_of_result : ∀ run value, f.result? run = some value → run < f.started

theorem Sound.inj_key {f : Flights κ ν} (h : f.Sound) {key : κ} {first second : Nat}
    (hfirst : (key, first) ∈ f.pending) (hsecond : (key, second) ∈ f.pending) : first = second :=
  congrArg Prod.snd (List.inj_on_of_nodup_map h.nodup_keys hfirst hsecond rfl)

theorem sound_empty : (empty : Flights κ ν).Sound where
  nodup_keys := List.nodup_nil
  inj_run _ _ _ h := by cases h
  lt_started _ _ h := by cases h
  result?_eq_none _ _ h := by cases h
  lt_of_result _ _ h := by cases h

section
variable [DecidableEq κ]

theorem run?_eq_none_iff {f : Flights κ ν} {key : κ} :
    f.run? key = none ↔ ∀ run, (key, run) ∉ f.pending := by
  unfold run?
  rw [Option.map_eq_none_iff, List.find?_eq_none]
  constructor
  · intro h run hmem
    exact h _ hmem (decide_eq_true rfl)
  · rintro h ⟨other, run⟩ hmem heq
    obtain rfl := of_decide_eq_true heq
    exact h run hmem

theorem mem_of_run?_eq_some {f : Flights κ ν} {key : κ} {run : Nat} (h : f.run? key = some run) :
    (key, run) ∈ f.pending := by
  obtain ⟨⟨other, next⟩, hfind, rfl⟩ := Option.map_eq_some_iff.mp h
  have hkey := List.find?_some hfind
  obtain rfl := of_decide_eq_true hkey
  exact List.mem_of_find?_eq_some hfind

theorem enter_of_free {f : Flights κ ν} {key : κ} (h : f.run? key = none) :
    f.enter key = (.started f.started,
      { f with started := f.started + 1, pending := f.pending ++ [(key, f.started)] }) := by
  rw [enter, h]

theorem enter_of_taken {f : Flights κ ν} {key : κ} {run : Nat} (h : f.run? key = some run) :
    f.enter key = (.joined run, f) := by
  rw [enter, h]

theorem mem_pending_finish {f : Flights κ ν} {key other : κ} {run released : Nat} {value : ν} :
    (other, run) ∈ (f.finish key released value).pending ↔
      (other, run) ∈ f.pending ∧ other ≠ key := by
  simp [finish]

theorem result?_finish_self (f : Flights κ ν) (key : κ) (run : Nat) (value : ν) :
    (f.finish key run value).result? run = some value := by
  simp [finish, result?]

theorem result?_finish_of_ne (f : Flights κ ν) (key : κ) {run other : Nat} (h : other ≠ run)
    (value : ν) : (f.finish key run value).result? other = f.result? other := by
  have hne : (other == run) = false := beq_false_of_ne h
  simp only [finish, result?, List.lookup_cons, hne]

namespace Sound

variable {f : Flights κ ν} (h : f.Sound)
include h

/-- A new run takes a key that is free. -/
theorem enter (key : κ) : (f.enter key).2.Sound := by
  cases hfree : f.run? key with
  | some run =>
    rw [enter_of_taken hfree]
    exact h
  | none =>
    rw [enter_of_free hfree]
    have hnew : ∀ other run, (other, run) ∈ f.pending ++ [(key, f.started)] →
        (other, run) ∈ f.pending ∨ other = key ∧ run = f.started := by simp
    refine ⟨?_, ?_, ?_, ?_, ?_⟩
    · rw [List.map_append]
      refine List.nodup_append.mpr ⟨h.nodup_keys, List.nodup_singleton key, ?_⟩
      rintro taken htaken other hother rfl
      obtain ⟨⟨_, run⟩, hmem, rfl⟩ := List.mem_map.mp htaken
      obtain rfl := List.mem_singleton.mp hother
      exact run?_eq_none_iff.mp hfree run hmem
    · intro first second run hfirst hsecond
      rcases hnew first run hfirst with hold | ⟨hkey, hlast⟩ <;>
        rcases hnew second run hsecond with hold' | ⟨hkey', hlast'⟩
      · exact h.inj_run _ _ _ hold hold'
      · exact absurd hlast' (Nat.ne_of_lt (h.lt_started _ _ hold))
      · exact absurd hlast (Nat.ne_of_lt (h.lt_started _ _ hold'))
      · exact hkey.trans hkey'.symm
    · intro other run hmem
      rcases hnew other run hmem with hold | ⟨-, rfl⟩
      · exact Nat.lt_succ_of_lt (h.lt_started _ _ hold)
      · exact Nat.lt_succ_self _
    · intro other run hmem
      rcases hnew other run hmem with hold | ⟨-, rfl⟩
      · exact h.result?_eq_none _ _ hold
      · cases hlast : f.result? f.started with
        | none => exact hlast
        | some value => exact absurd (h.lt_of_result _ _ hlast) (Nat.lt_irrefl _)
    · intro run value hdone
      exact Nat.lt_succ_of_lt (h.lt_of_result run value hdone)

variable {key : κ} {run : Nat} (hrun : (key, run) ∈ f.pending)
include hrun

/-- The release of a run that is under way frees nothing but what this run has taken. -/
theorem mem_pending_finish_iff {other : κ} {next : Nat} {value : ν} :
    (other, next) ∈ (f.finish key run value).pending ↔ (other, next) ∈ f.pending ∧ next ≠ run := by
  rw [mem_pending_finish]
  constructor
  · rintro ⟨hmem, hne⟩
    refine ⟨hmem, ?_⟩
    rintro rfl
    exact hne (h.inj_run _ _ _ hmem hrun)
  · rintro ⟨hmem, hne⟩
    refine ⟨hmem, ?_⟩
    rintro rfl
    exact hne (h.inj_key hmem hrun)

theorem finish (value : ν) : (f.finish key run value).Sound := by
  have hmem : ∀ other next, (other, next) ∈ (f.finish key run value).pending →
      (other, next) ∈ f.pending ∧ next ≠ run :=
    fun _ _ hnext ↦ (h.mem_pending_finish_iff hrun).mp hnext
  refine ⟨?_, ?_, ?_, ?_, ?_⟩
  · exact h.nodup_keys.sublist (List.filter_sublist.map _)
  · intro first second next hfirst hsecond
    exact h.inj_run _ _ _ (hmem first next hfirst).1 (hmem second next hsecond).1
  · intro other next hnext
    exact h.lt_started _ _ (hmem other next hnext).1
  · intro other next hnext
    obtain ⟨hold, hne⟩ := hmem other next hnext
    rw [result?_finish_of_ne f key hne]
    exact h.result?_eq_none _ _ hold
  · intro next result hresult
    by_cases hsame : next = run
    · rw [hsame]
      exact h.lt_started _ _ hrun
    · rw [result?_finish_of_ne f key hsame] at hresult
      exact h.lt_of_result _ _ hresult

end Sound

end

/-! ## The desk -/

namespace Desk

/-- What has happened at a desk stays: the keys of runs, their results, and who has asked for what
and was answered. -/
structure Extends (d d' : Desk κ ν) : Prop where
  key?_eq : ∀ run key, d.key? run = some key → d'.key? run = some key
  result?_eq : ∀ run value, d.flights.result? run = some value →
    d'.flights.result? run = some value
  asker_eq : ∀ (asker : Nat) a, d.askers[asker]? = some a →
    ∃ answer, d'.askers[asker]? = some ⟨a.key, a.run, answer⟩ ∧
      (a.answer.isSome → answer = a.answer)

namespace Extends

variable {d d' d'' : Desk κ ν}

theorem of_askers_eq (hkey : ∀ run key, d.key? run = some key → d'.key? run = some key)
    (hresult : ∀ run value, d.flights.result? run = some value →
      d'.flights.result? run = some value)
    (haskers : d'.askers = d.askers) : d.Extends d' :=
  ⟨hkey, hresult, fun _ a ha ↦ ⟨a.answer, haskers ▸ ha, fun _ ↦ rfl⟩⟩

theorem refl (d : Desk κ ν) : d.Extends d :=
  of_askers_eq (fun _ _ h ↦ h) (fun _ _ h ↦ h) rfl

theorem trans (h : d.Extends d') (h' : d'.Extends d'') : d.Extends d'' where
  key?_eq run key hkey := h'.key?_eq run key (h.key?_eq run key hkey)
  result?_eq run value hresult := h'.result?_eq run value (h.result?_eq run value hresult)
  asker_eq asker a ha := by
    obtain ⟨answer, ha', hkept⟩ := h.asker_eq asker a ha
    obtain ⟨answer', ha'', hkept'⟩ := h'.asker_eq asker _ ha'
    refine ⟨answer', ha'', ?_⟩
    intro hsome
    rw [hkept' (by rw [hkept hsome]; exact hsome), hkept hsome]

end Extends

/-- The keys that are taken are those of the runs under way, a released run was released with the
result of its work, and everyone who was answered has the result of a run for the own key. -/
structure Linked (d : Desk κ ν) : Prop where
  sound : d.flights.Sound
  started_eq : d.flights.started = d.work.length
  mem_pending_iff : ∀ key run, (key, run) ∈ d.flights.pending ↔ d.IsUnderWay key run
  work_of_result : ∀ run value, d.flights.result? run = some value →
    ∃ key, d.work[run]? = some ⟨key, some value⟩
  key_of_asker : ∀ a ∈ d.askers, d.key? a.run = some a.key
  result_of_answer : ∀ a ∈ d.askers, ∀ value, a.answer = some value →
    d.flights.result? a.run = some value

theorem linked_empty : (empty : Desk κ ν).Linked where
  sound := sound_empty
  started_eq := rfl
  mem_pending_iff := by simp [IsUnderWay, key?, empty, Flights.empty]
  work_of_result _ _ h := by cases h
  key_of_asker _ h := by cases h
  result_of_answer _ h := by cases h

/-- At most one run for a key is under way. -/
theorem Linked.underWay_unique {d : Desk κ ν} (h : d.Linked) {key : κ} {first second : Nat}
    (hfirst : d.IsUnderWay key first) (hsecond : d.IsUnderWay key second) : first = second :=
  h.sound.inj_key ((h.mem_pending_iff key first).mpr hfirst)
    ((h.mem_pending_iff key second).mpr hsecond)

/-! ## Asking -/

/-- The desk after a run was started for a key that is free. -/
def started (d : Desk κ ν) (key : κ) : Desk κ ν where
  flights := { d.flights with
    started := d.flights.started + 1
    pending := d.flights.pending ++ [(key, d.flights.started)] }
  work := d.work ++ [⟨key, none⟩]
  askers := d.askers

/-- The desk after someone was noted under a run. -/
def noted (d : Desk κ ν) (key : κ) (run : Nat) : Desk κ ν :=
  { d with askers := d.askers ++ [⟨key, run, none⟩] }

theorem key?_started (d : Desk κ ν) (key : κ) (run : Nat) :
    (d.started key).key? run = if run = d.work.length then some key else d.key? run := by
  unfold key? started
  rw [List.getElem?_append]
  by_cases hlt : run < d.work.length
  · rw [if_pos hlt, if_neg (Nat.ne_of_lt hlt)]
  · rw [if_neg hlt]
    by_cases heq : run = d.work.length
    · simp [heq]
    · have hpast : d.work.length ≤ run := Nat.le_of_not_lt hlt
      rw [if_neg heq, List.getElem?_eq_none hpast, List.getElem?_eq_none (by simp; omega)]

theorem result?_started (d : Desk κ ν) (key : κ) (run : Nat) :
    (d.started key).flights.result? run = d.flights.result? run := rfl

theorem extends_noted (d : Desk κ ν) (key : κ) (run : Nat) : d.Extends (d.noted key run) where
  key?_eq _ _ hkey := hkey
  result?_eq _ _ hresult := hresult
  asker_eq asker a ha := by
    obtain ⟨hlt, -⟩ := List.getElem?_eq_some_iff.mp ha
    exact ⟨a.answer, (List.getElem?_append_left hlt).trans ha, fun _ ↦ rfl⟩

theorem extends_started (d : Desk κ ν) (key : κ) : d.Extends (d.started key) := by
  refine .of_askers_eq ?_ (fun _ _ hresult ↦ hresult) rfl
  intro run other hkey
  obtain ⟨w, hw, -⟩ := Option.map_eq_some_iff.mp hkey
  obtain ⟨hlt, -⟩ := List.getElem?_eq_some_iff.mp hw
  rw [key?_started, if_neg (Nat.ne_of_lt hlt), hkey]

theorem Linked.noted {d : Desk κ ν} (h : d.Linked) {key : κ} {run : Nat}
    (hrun : d.IsUnderWay key run) : (d.noted key run).Linked where
  sound := h.sound
  started_eq := h.started_eq
  mem_pending_iff := h.mem_pending_iff
  work_of_result := h.work_of_result
  key_of_asker a ha := by
    rcases List.mem_append.mp ha with hold | hnew
    · exact h.key_of_asker a hold
    · obtain rfl := List.mem_singleton.mp hnew
      exact hrun.1
  result_of_answer a ha value hvalue := by
    rcases List.mem_append.mp ha with hold | hnew
    · exact h.result_of_answer a hold value hvalue
    · obtain rfl := List.mem_singleton.mp hnew
      cases hvalue

variable [DecidableEq κ]

theorem ask_of_free {d : Desk κ ν} {key : κ} (h : d.flights.run? key = none) :
    d.ask key = (d.started key).noted key d.flights.started := by
  unfold ask
  rw [enter_of_free h]
  rfl

theorem ask_of_taken {d : Desk κ ν} {key : κ} {run : Nat} (h : d.flights.run? key = some run) :
    d.ask key = d.noted key run := by
  unfold ask
  rw [enter_of_taken h]
  rfl

theorem Linked.started {d : Desk κ ν} (h : d.Linked) {key : κ}
    (hfree : d.flights.run? key = none) : (d.started key).Linked := by
  have hextends := d.extends_started key
  refine ⟨?_, ?_, ?_, ?_, ?_, h.result_of_answer⟩
  · have hsound := h.sound.enter key
    rw [enter_of_free hfree] at hsound
    exact hsound
  · simp [Desk.started, h.started_eq]
  · intro other run
    have hmem : (other, run) ∈ (d.started key).flights.pending ↔
        d.IsUnderWay other run ∨ other = key ∧ run = d.work.length := by
      rw [← h.mem_pending_iff, ← h.started_eq]
      simp [Desk.started]
    rw [hmem, IsUnderWay, IsUnderWay, key?_started]
    by_cases hlast : run = d.work.length
    · have hnew : d.key? run = none := by
        unfold key?
        rw [hlast, List.getElem?_eq_none (Nat.le_refl _)]
        rfl
      have hresult : d.flights.result? run = none := by
        cases hdone : d.flights.result? run with
        | none => rfl
        | some value =>
          have hlt := h.sound.lt_of_result _ _ hdone
          rw [h.started_eq] at hlt
          exact absurd hlast (Nat.ne_of_lt hlt)
      rw [if_pos hlast, hnew, result?_started, hresult]
      simp [hlast, eq_comm]
    · rw [if_neg hlast, result?_started]
      simp [hlast]
  · intro run value hresult
    obtain ⟨other, hwork⟩ := h.work_of_result run value hresult
    obtain ⟨hlt, -⟩ := List.getElem?_eq_some_iff.mp hwork
    exact ⟨other, (List.getElem?_append_left hlt).trans hwork⟩
  · intro a ha
    exact hextends.key?_eq _ _ (h.key_of_asker a ha)

/-- Whoever asks is noted under the run that is under way, which is a new one if there was none. -/
theorem Linked.ask {d : Desk κ ν} (h : d.Linked) (key : κ) :
    (d.ask key).Linked ∧ d.Extends (d.ask key) ∧
      ∃ run, (d.ask key).askers = d.askers ++ [⟨key, run, none⟩] ∧
        (d.ask key).IsUnderWay key run ∧
        (d.flights.run? key = none → run = d.flights.started) := by
  cases hrun : d.flights.run? key with
  | some run =>
    rw [ask_of_taken hrun]
    have hunder := (h.mem_pending_iff key run).mp (mem_of_run?_eq_some hrun)
    exact ⟨h.noted hunder, d.extends_noted key run, run, rfl, hunder, fun hnone ↦ by cases hnone⟩
  | none =>
    rw [ask_of_free hrun]
    have hstarted := h.started hrun
    have hunder : (d.started key).IsUnderWay key d.flights.started :=
      (hstarted.mem_pending_iff _ _).mp (List.mem_append_right _ (List.mem_singleton_self _))
    exact ⟨hstarted.noted hunder, (d.extends_started key).trans (extends_noted _ key _),
      d.flights.started, rfl, hunder, fun _ ↦ rfl⟩

/-! ## Ending -/

omit [DecidableEq κ] in
theorem key?_complete (d : Desk κ ν) (done : Nat) (value : ν) (run : Nat) :
    (d.complete done value).key? run = d.key? run := by
  unfold key? complete
  rw [List.getElem?_modify]
  cases d.work[run]? <;> by_cases h : done = run <;> simp [h]

omit [DecidableEq κ] in
/-- Work that is done has the result it was done with first. -/
theorem Linked.complete {d : Desk κ ν} (h : d.Linked) (done : Nat) (value : ν) :
    (d.complete done value).Linked ∧ d.Extends (d.complete done value) := by
  refine ⟨⟨h.sound, ?_, ?_, ?_, ?_, h.result_of_answer⟩, .of_askers_eq ?_ ?_ rfl⟩
  · rw [Desk.complete, List.length_modify, h.started_eq]
  · intro key run
    rw [IsUnderWay, key?_complete]
    exact h.mem_pending_iff key run
  · intro run result hresult
    obtain ⟨key, hwork⟩ := h.work_of_result run result hresult
    refine ⟨key, ?_⟩
    rw [Desk.complete, List.getElem?_modify, hwork]
    by_cases hrun : done = run <;> simp [hrun]
  · intro a ha
    rw [key?_complete]
    exact h.key_of_asker a ha
  · intro run key hkey
    rw [key?_complete]
    exact hkey
  · exact fun _ _ hresult ↦ hresult

/-- What a release does, if it does anything. -/
theorem release_cases (d : Desk κ ν) (run : Nat) :
    d.release run = d ∨ ∃ key value, d.work[run]? = some ⟨key, some value⟩ ∧
      d.flights.result? run = none ∧
      d.release run = { d with flights := d.flights.finish key run value } := by
  unfold release
  split
  · next key value hwork hresult => exact Or.inr ⟨key, value, hwork, hresult, rfl⟩
  · exact Or.inl rfl

/-- A release frees the key of its own run, and that of no run that was started since. -/
theorem Linked.release {d : Desk κ ν} (h : d.Linked) (run : Nat) :
    (d.release run).Linked ∧ d.Extends (d.release run) := by
  rcases d.release_cases run with hsame | ⟨key, value, hwork, hnone, hrelease⟩
  · rw [hsame]
    exact ⟨h, .refl d⟩
  · rw [hrelease]
    have hkey : d.key? run = some key := by
      rw [key?, hwork]
      rfl
    have hunder : (key, run) ∈ d.flights.pending := (h.mem_pending_iff key run).mpr ⟨hkey, hnone⟩
    have hresult : ∀ next result, d.flights.result? next = some result →
        (d.flights.finish key run value).result? next = some result := by
      intro next result hnext
      have hne : next ≠ run := by
        rintro rfl
        cases hnone.symm.trans hnext
      rw [result?_finish_of_ne _ key hne, hnext]
    refine ⟨⟨h.sound.finish hunder value, h.started_eq, ?_, ?_, h.key_of_asker, ?_⟩,
      .of_askers_eq (fun _ _ hkey ↦ hkey) hresult rfl⟩
    · intro other next
      rw [h.sound.mem_pending_finish_iff hunder, h.mem_pending_iff]
      by_cases hsame : next = run
      · simp [hsame, IsUnderWay, result?_finish_self]
      · simp [hsame, IsUnderWay, key?, result?_finish_of_ne _ key hsame]
    · intro next result hnext
      by_cases hsame : next = run
      · rw [hsame, result?_finish_self] at hnext
        obtain rfl := Option.some.inj hnext
        exact ⟨key, hsame ▸ hwork⟩
      · rw [result?_finish_of_ne _ key hsame] at hnext
        exact h.work_of_result next result hnext
    · intro a ha result hanswer
      exact hresult _ _ (h.result_of_answer a ha result hanswer)

omit [DecidableEq κ] in
theorem getElem?_deliver (d : Desk κ ν) (served asker : Nat) :
    (d.deliver served).askers[asker]? = d.askers[asker]?.map fun a ↦
      if served = asker then { a with answer := a.answer.or (d.flights.result? a.run) } else a := by
  rw [deliver, List.getElem?_modify]
  rfl

omit [DecidableEq κ] in
/-- An answer is the result of the run that was waited for, and it is given once. -/
theorem Linked.deliver {d : Desk κ ν} (h : d.Linked) (served : Nat) :
    (d.deliver served).Linked ∧ d.Extends (d.deliver served) := by
  have hserved : ∀ a ∈ (d.deliver served).askers, ∃ before ∈ d.askers, a = before ∨
      a = { before with answer := before.answer.or (d.flights.result? before.run) } := by
    intro a ha
    obtain ⟨asker, hasker⟩ := List.getElem?_of_mem ha
    rw [getElem?_deliver] at hasker
    obtain ⟨before, hbefore, rfl⟩ := Option.map_eq_some_iff.mp hasker
    refine ⟨before, List.mem_of_getElem? hbefore, ?_⟩
    by_cases hsame : served = asker <;> simp [hsame]
  refine ⟨⟨h.sound, h.started_eq, h.mem_pending_iff, h.work_of_result, ?_, ?_⟩,
    fun _ _ hkey ↦ hkey, fun _ _ hresult ↦ hresult, ?_⟩
  · intro a ha
    obtain ⟨before, hbefore, rfl | rfl⟩ := hserved a ha
    · exact h.key_of_asker _ hbefore
    · exact h.key_of_asker before hbefore
  · intro a ha value hvalue
    obtain ⟨before, hbefore, rfl | rfl⟩ := hserved a ha
    · exact h.result_of_answer _ hbefore value hvalue
    · rcases Option.or_eq_some_iff.mp hvalue with hold | ⟨-, hresult⟩
      · exact h.result_of_answer before hbefore value hold
      · exact hresult
  · intro asker a ha
    rw [getElem?_deliver, ha]
    by_cases hsame : served = asker
    · refine ⟨a.answer.or (d.flights.result? a.run), ?_, ?_⟩
      · simp [hsame]
      · intro hsome
        obtain ⟨value, hvalue⟩ := Option.isSome_iff_exists.mp hsome
        rw [hvalue]
        rfl
    · exact ⟨a.answer, by simp [hsame], fun _ ↦ rfl⟩

/-! ## Runs of a desk -/

theorem Linked.step {d : Desk κ ν} (h : d.Linked) (event : Event κ ν) :
    (d.step event).Linked ∧ d.Extends (d.step event) := by
  cases event with
  | ask key => exact ⟨(h.ask key).1, (h.ask key).2.1⟩
  | complete run value => exact h.complete run value
  | release run => exact h.release run
  | deliver asker => exact h.deliver asker

theorem Linked.run {d : Desk κ ν} (h : d.Linked) (events : List (Event κ ν)) :
    (d.run events).Linked ∧ d.Extends (d.run events) := by
  induction events generalizing d with
  | nil => exact ⟨h, .refl d⟩
  | cons event rest ih =>
    obtain ⟨hstep, hextends⟩ := h.step event
    obtain ⟨hrun, hextends'⟩ := ih hstep
    exact ⟨hrun, hextends.trans hextends'⟩

/-- The work of a run can end and its key be released at any time. -/
theorem exists_result_of_release {d : Desk κ ν} {key : κ} {run : Nat} (hkey : d.key? run = some key)
    (value : ν) :
    ∃ result, ((d.complete run value).release run).flights.result? run = some result := by
  obtain ⟨w, hw, -⟩ := Option.map_eq_some_iff.mp hkey
  obtain ⟨result, hresult⟩ : ∃ result, w.value.or (some value) = some result := by
    cases w.value <;> exact ⟨_, rfl⟩
  have hwork : (d.complete run value).work[run]? = some ⟨w.key, some result⟩ := by
    rw [complete, List.getElem?_modify, hw, ← hresult]
    simp
  unfold release
  rw [hwork]
  cases hdone : (d.complete run value).flights.result? run with
  | none => exact ⟨result, result?_finish_self _ _ _ _⟩
  | some earlier => exact ⟨earlier, hdone⟩

omit [DecidableEq κ] in
/-- Whoever waits for a run that is released can be given its result. -/
theorem Linked.deliver_of_result {d : Desk κ ν} (h : d.Linked) {asker run : Nat} {key : κ}
    {answer : Option ν} (hasker : d.askers[asker]? = some ⟨key, run, answer⟩) {value : ν}
    (hresult : d.flights.result? run = some value) :
    (d.deliver asker).askers[asker]? = some ⟨key, run, some value⟩ := by
  rw [getElem?_deliver, hasker, Option.map_some, if_pos rfl]
  dsimp only
  rw [hresult]
  cases hanswer : answer with
  | none => rfl
  | some earlier =>
    have hearlier := h.result_of_answer _ (List.mem_of_getElem? hasker) earlier hanswer
    rw [hresult] at hearlier
    rw [Option.some.inj hearlier]
    rfl

/-- What someone who asks for a key gets: the answer is the result of the run for this key that is
under way just then, started for it if there was none. It can be delivered as soon as the run is
released, and the run can be brought to its end whatever else happened. -/
structure Serves (d later : Desk κ ν) (key : κ) (run : Nat) : Prop where
  underWay : (d.ask key).IsUnderWay key run
  ne_released : ∀ old value, d.flights.result? old = some value → run ≠ old
  eq_new : (∀ old, ¬d.IsUnderWay key old) → run = d.work.length
  answered : ∃ answer, later.askers[d.askers.length]? = some ⟨key, run, answer⟩ ∧
    ∀ value, answer = some value →
      later.work[run]? = some ⟨key, some value⟩ ∧ later.flights.result? run = some value
  delivered : ∀ value, later.flights.result? run = some value →
    (later.deliver d.askers.length).askers[d.askers.length]? = some ⟨key, run, some value⟩
  released : ∀ value, ∃ result,
    ((later.complete run value).release run).flights.result? run = some result

/-- Whoever asks is served by one run. -/
theorem Linked.serves {d : Desk κ ν} (h : d.Linked) (key : κ) (after : List (Event κ ν)) :
    ∃! run, d.Serves ((d.ask key).run after) key run := by
  obtain ⟨hask, hextends, run, haskers, hunder, hnew⟩ := h.ask key
  obtain ⟨hlinked, hlater⟩ := hask.run after
  obtain ⟨answer, hasker, -⟩ := hlater.asker_eq d.askers.length ⟨key, run, none⟩
    (by rw [haskers]; simp)
  have hkey := hlater.key?_eq run key hunder.1
  refine ⟨run, ⟨hunder, ?_, ?_, ⟨answer, hasker, ?_⟩, ?_, ?_⟩, ?_⟩
  · rintro old value hold rfl
    cases (hextends.result?_eq _ _ hold).symm.trans hunder.2
  · intro hnone
    rw [← h.started_eq]
    refine hnew (run?_eq_none_iff.mpr fun old hold ↦ ?_)
    exact hnone old ((h.mem_pending_iff key old).mp hold)
  · intro value hvalue
    have hresult := hlinked.result_of_answer _ (List.mem_of_getElem? hasker) value hvalue
    obtain ⟨other, hwork⟩ := hlinked.work_of_result run value hresult
    rw [key?, hwork] at hkey
    obtain rfl := Option.some.inj hkey
    exact ⟨hwork, hresult⟩
  · intro value hresult
    exact hlinked.deliver_of_result hasker hresult
  · exact exists_result_of_release hkey
  · intro other hother
    exact hask.underWay_unique hother.underWay hunder

end Desk

end Marginalia.Flights
