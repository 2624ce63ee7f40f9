/-!
# Flights

Work for a key is done once however many ask for it at the same time. Whoever asks first starts a
run, others join the run that is under way, and all are answered with its result. When the work is
done the key is free again.
-/

namespace Marginalia

/-- The runs so far: how many were started, the run under way for each key, and the results of those
that are done. -/
structure Flights (κ ν : Type) where
  started : Nat
  pending : List (κ × Nat)
  results : List (Nat × ν)
  deriving Repr

namespace Flights

variable {κ ν : Type} [DecidableEq κ]

def empty : Flights κ ν := ⟨0, [], []⟩

def run? (f : Flights κ ν) (key : κ) : Option Nat :=
  (f.pending.find? fun (k, _) ↦ k = key).map Prod.snd

def isPending (f : Flights κ ν) (key : κ) : Bool := (f.run? key).isSome

def size (f : Flights κ ν) : Nat := f.pending.length

def isEmpty (f : Flights κ ν) : Bool := f.pending.isEmpty

/-- The run that someone who asks for a key has to wait for. -/
inductive Entry where
  | started (run : Nat)
  | joined (run : Nat)
  deriving DecidableEq, Repr

def Entry.run : Entry → Nat
  | started run => run
  | joined run => run

/-- Ask for a key: join the run under way, or start one. -/
def enter (f : Flights κ ν) (key : κ) : Entry × Flights κ ν :=
  match f.run? key with
  | some run => (.joined run, f)
  | none =>
    (.started f.started,
      { f with started := f.started + 1, pending := f.pending ++ [(key, f.started)] })

/-- The work of a run is done: its key is freed, whichever run is noted under it, and its result is
there for all who wait. -/
def finish (f : Flights κ ν) (key : κ) (run : Nat) (result : ν) : Flights κ ν :=
  { f with
    pending := f.pending.filter fun (k, _) ↦ k ≠ key
    results := (run, result) :: f.results }

def result? (f : Flights κ ν) (run : Nat) : Option ν :=
  f.results.lookup run

end Flights

end Marginalia
