import Marginalia.Annotation.Set

/-!
# Undo history

A stack of whole annotation sets, each taken just before a change, newest first. When it is full,
the oldest set is forgotten. There is no redo.
-/

namespace Marginalia

/-- The undo stack and the number of sets it may hold. -/
structure History where
  limit : Nat
  snapshots : List AnnotationSet
  deriving DecidableEq, Repr

namespace History

/-- An empty history; it holds one set at least. -/
def new (limit : Nat) : History := ⟨max limit 1, []⟩

/-- How many changes can be undone unless a configuration says otherwise. -/
def standardLimit : Nat := 200

/-- Record a set, forgetting the oldest one when the stack is full. -/
def push (h : History) (s : AnnotationSet) : History :=
  if h.snapshots.length = h.limit then { h with snapshots := s :: h.snapshots.dropLast }
  else { h with snapshots := s :: h.snapshots }

/-- The newest set and the history without it. -/
def pop? (h : History) : Option (AnnotationSet × History) :=
  match h.snapshots with
  | [] => none
  | s :: rest => some (s, { h with snapshots := rest })

def clear (h : History) : History := { h with snapshots := [] }

def size (h : History) : Nat := h.snapshots.length

def isEmpty (h : History) : Bool := h.snapshots.isEmpty

end History

end Marginalia
