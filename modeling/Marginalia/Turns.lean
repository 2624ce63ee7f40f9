import Marginalia.Flights

/-!
# Turns

Several parties that wait for each other take turns until all of them have their answers. A turn of
a party changes what they share, and either gives the answer of the party or leaves it waiting.
-/

namespace Marginalia.Turns

variable {σ α β : Type}

/-- A party that waits, or its answer. -/
inductive Party (α β : Type) where
  | waiting (state : α)
  | answered (answer : β)
  deriving Repr

def Party.answer? : Party α β → Option β
  | .answered answer => some answer
  | .waiting _ => none

def round (turn : σ → α → Party α β × σ) : σ → List (Party α β) → List (Party α β) × σ
  | shared, [] => ([], shared)
  | shared, .answered answer :: rest =>
    let (parties, shared) := round turn shared rest
    (.answered answer :: parties, shared)
  | shared, .waiting state :: rest =>
    let (party, shared) := turn shared state
    let (parties, shared) := round turn shared rest
    (party :: parties, shared)

/-- A number of rounds; each turn knows the number of rounds that are left. -/
def rounds (turn : Nat → σ → α → Party α β × σ) :
    Nat → σ → List (Party α β) → List (Party α β) × σ
  | 0, shared, parties => (parties, shared)
  | left + 1, shared, parties =>
    let (parties, shared) := round (turn left) shared parties
    rounds turn left shared parties

end Marginalia.Turns

namespace Marginalia

/-! ## Calls -/

/-- Someone who lets some turns pass, looks whether there is work for another key, and asks for work
that takes some pauses. -/
structure Call (κ ν : Type) where
  key : κ
  delay : Nat
  probe : Option κ
  pauses : Nat
  value : ν
  deriving Repr

namespace Call

variable {κ ν : Type} [DecidableEq κ]

/-- What calls share: the flights, the work of each run under way, and the calls that have started a
run. -/
structure Board (κ ν : Type) where
  flights : Flights κ ν
  work : List (Nat × Nat × ν)
  starters : List Nat

/-- A call by its number: letting turns pass, or waiting for a run. -/
inductive State (κ ν : Type) where
  | delayed (index : Nat) (call : Call κ ν) (left : Nat)
  | joined (key : κ) (run : Nat) (probed : Option Bool)

abbrev Outcome (ν : Type) := ν × Option Bool

/-- Go on with the work of a run, and answer when it is done. -/
def await (board : Board κ ν) (key : κ) (run : Nat) (probed : Option Bool) :
    Turns.Party (State κ ν) (Outcome ν) × Board κ ν :=
  match board.flights.result? run with
  | some value => (.answered (value, probed), board)
  | none =>
    match board.work.lookup run with
    | none => (.waiting (.joined key run probed), board)
    | some (0, value) =>
      (.answered (value, probed), { board with flights := board.flights.finish key run value })
    | some (pauses + 1, value) =>
      (.waiting (.joined key run probed), { board with work := (run, pauses, value) :: board.work })

def turn (board : Board κ ν) : State κ ν → Turns.Party (State κ ν) (Outcome ν) × Board κ ν
  | .delayed index call (left + 1) => (.waiting (.delayed index call left), board)
  | .delayed index call 0 =>
    let probed := call.probe.map board.flights.isPending
    match board.flights.enter call.key with
    | (.joined run, flights) => await { board with flights } call.key run probed
    | (.started run, flights) =>
      await ⟨flights, (run, call.pauses, call.value) :: board.work, board.starters ++ [index]⟩
        call.key run probed
  | .joined key run probed => await board key run probed

/-- Make some calls at the same time; each gets an answer, and the flights are those after them. -/
def all (flights : Flights κ ν) (calls : List (Call κ ν)) :
    List (Option (Outcome ν)) × Board κ ν :=
  let fuel := calls.foldl (fun n c ↦ n + c.delay + c.pauses + 1) 1
  let parties := calls.mapIdx fun index call ↦ Turns.Party.waiting (.delayed index call call.delay)
  let (parties, board) := Turns.rounds (fun _ ↦ turn) fuel ⟨flights, [], []⟩ parties
  (parties.map Turns.Party.answer?, board)

end Call

end Marginalia
