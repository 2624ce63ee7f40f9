import Marginalia.Proofs.Session.Order

/-!
# The loop comes to rest

Waiting for all sessions leaves the loop idle with nothing in the queue, and the session that was
queued last is what is loaded then. Whatever the loop does leaves less to do.
-/

namespace Marginalia.SessionWriter

/-- Letting the loop run is a number of its steps. -/
theorem steps_eq_run (count : Nat) (w : SessionWriter) :
    steps count w = w.run (List.replicate count .write) := by
  induction count generalizing w with
  | zero => rfl
  | succ count ih =>
    have hperform : w.perform .write = w.step.getD w := rfl
    rw [steps, List.replicate_succ, run, List.foldl_cons, hperform]
    cases hstep : w.step with
    | some next => exact ih next
    | none =>
      have hidle : ∀ n, w.run (List.replicate n .write) = w := by
        intro n
        induction n with
        | zero => rfl
        | succ n ihn =>
          rw [List.replicate_succ, run, List.foldl_cons, hperform, hstep]
          exact ihn
      exact (hidle count).symm

theorem queued_replicate_write (count : Nat) : queued (List.replicate count .write) = [] := by
  induction count with
  | zero => rfl
  | succ count ih => exact ih

/-- Waiting for all sessions queues none. -/
theorem flush_eq_run (w : SessionWriter) :
    ∃ events, queued events = [] ∧ w.flush = w.run events := by
  refine ⟨.flush :: List.replicate (w.requestFlush.2.queue.length + 3) .write,
    queued_replicate_write _, ?_⟩
  rw [flush, settle, steps_eq_run]
  rfl

/-- A bound for the steps that are left until there is nothing to do. -/
def stepsLeft (w : SessionWriter) : Nat :=
  match w.phase with
  | .idle => if w.queue = [] then 0 else w.queue.length + 2
  | .collecting _ => w.queue.length + 2
  | .writing _ => if w.queue = [] then 1 else w.queue.length + 3

/-- A step leaves less to do, and there is none only at rest. -/
theorem step_cases (w : SessionWriter) :
    (w.step = none ∧ w.phase = .idle ∧ w.queue = []) ∨
      ∃ next, w.step = some next ∧ next.stepsLeft < w.stepsLeft := by
  cases hphase : w.phase with
  | idle =>
    cases hqueue : w.queue with
    | nil => exact Or.inl ⟨by rw [step, hphase, hqueue], rfl, rfl⟩
    | cons command rest =>
      refine Or.inr ⟨_, by rw [step, hphase, hqueue], ?_⟩
      simp [stepsLeft, hphase, hqueue]
  | collecting batch =>
    right
    cases hqueue : w.queue with
    | nil =>
      refine ⟨_, by rw [step, hphase, hqueue], ?_⟩
      simp [stepsLeft, hphase, hqueue]
    | cons command rest =>
      refine ⟨_, by rw [step, hphase, hqueue], ?_⟩
      simp [stepsLeft, hphase, hqueue]
  | writing batch =>
    refine Or.inr ⟨_, by rw [step, hphase], ?_⟩
    simp only [stepsLeft, hphase]
    split <;> omega

theorem steps_rest (count : Nat) (w : SessionWriter) (h : w.stepsLeft ≤ count) :
    (steps count w).phase = .idle ∧ (steps count w).queue = [] := by
  induction count generalizing w with
  | zero =>
    rcases w.step_cases with ⟨-, hrest⟩ | ⟨next, -, hless⟩
    · exact hrest
    · omega
  | succ count ih =>
    rw [steps]
    rcases w.step_cases with ⟨hnone, hrest⟩ | ⟨next, hstep, hless⟩
    · rw [hnone]
      exact hrest
    · rw [hstep]
      exact ih next (by omega)

/-- After waiting there is nothing left to do. -/
theorem flush_rest (w : SessionWriter) : w.flush.phase = .idle ∧ w.flush.queue = [] := by
  refine steps_rest _ _ ?_
  rw [stepsLeft]
  split
  · split <;> omega
  · omega
  · split <;> omega

/-- What is loaded is the session that was queued last. -/
theorem Ordered.load_eq {w : SessionWriter} {queued written dealt taken : List Session}
    {marks : List Nat} (h : w.Ordered queued written dealt taken marks) {session : Session}
    (hlast : queued.getLast? = some session) : w.load.1 = .ok (Session.decode? session.encode) := by
  obtain ⟨events, hnone, hflush⟩ := w.flush_eq_run
  obtain ⟨dealt', taken', more, hordered⟩ := h.run events
  rw [hnone, List.append_nil, ← hflush] at hordered
  exact Session.load_of_read (hordered.holds_of_idle w.flush_rest.1 w.flush_rest.2 hlast)

end Marginalia.SessionWriter
