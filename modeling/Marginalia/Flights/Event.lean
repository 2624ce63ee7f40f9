import Marginalia.Flights

/-!
# Events of flights

Everything that can happen to flights, as a value: someone asks for a key, the work of a run ends,
its key is released, and someone who waits is given the answer. The end of the work and the release
of the key are events of their own, for others may still join in between.
-/

namespace Marginalia.Flights

/-- The work of a run: the key it was started for, and its result once it is done. -/
structure Work (κ ν : Type) where
  key : κ
  value : Option ν
  deriving Repr

/-- Someone who has asked for a key: the run that was started or joined, and the answer. -/
structure Asker (κ ν : Type) where
  key : κ
  run : Nat
  answer : Option ν
  deriving Repr

/-- Flights with the work of all runs and with all who have asked, both by their numbers. -/
structure Desk (κ ν : Type) where
  flights : Flights κ ν
  work : List (Work κ ν)
  askers : List (Asker κ ν)
  deriving Repr

/-- Something that happens to flights. -/
inductive Event (κ ν : Type) where
  | ask (key : κ)
  | complete (run : Nat) (value : ν)
  | release (run : Nat)
  | deliver (asker : Nat)

namespace Desk

variable {κ ν : Type} [DecidableEq κ]

def empty : Desk κ ν := ⟨.empty, [], []⟩

def ask (d : Desk κ ν) (key : κ) : Desk κ ν :=
  match d.flights.enter key with
  | (.started run, flights) => ⟨flights, d.work ++ [⟨key, none⟩], d.askers ++ [⟨key, run, none⟩]⟩
  | (.joined run, flights) => ⟨flights, d.work, d.askers ++ [⟨key, run, none⟩]⟩

/-- The work of a run is done; it has one result. -/
def complete (d : Desk κ ν) (run : Nat) (value : ν) : Desk κ ν :=
  { d with work := d.work.modify run fun w ↦ { w with value := w.value.or (some value) } }

/-- The key of a run is released, once its work is done. -/
def release (d : Desk κ ν) (run : Nat) : Desk κ ν :=
  match d.work[run]?, d.flights.result? run with
  | some ⟨key, some value⟩, none => { d with flights := d.flights.finish key run value }
  | _, _ => d

/-- Someone who waits for a run is given its result, if it is there. -/
def deliver (d : Desk κ ν) (asker : Nat) : Desk κ ν :=
  { d with askers := d.askers.modify asker fun a ↦
      { a with answer := a.answer.or (d.flights.result? a.run) } }

def step (d : Desk κ ν) : Event κ ν → Desk κ ν
  | .ask key => d.ask key
  | .complete run value => d.complete run value
  | .release run => d.release run
  | .deliver asker => d.deliver asker

def run (d : Desk κ ν) (events : List (Event κ ν)) : Desk κ ν :=
  events.foldl step d

def key? (d : Desk κ ν) (run : Nat) : Option κ :=
  d.work[run]?.map Work.key

/-- A run was started for a key and is not released yet. -/
def IsUnderWay (d : Desk κ ν) (key : κ) (run : Nat) : Prop :=
  d.key? run = some key ∧ d.flights.result? run = none

end Desk

end Marginalia.Flights
