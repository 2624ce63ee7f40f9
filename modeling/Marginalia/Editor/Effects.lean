import Marginalia.Geometry.Basic

/-!
# Effects

What a host has to do after an input event: draw the overlay again, render the page again, scroll,
or have the session saved.
-/

namespace Marginalia

/-- The consequences of an input event. -/
structure Effects where
  redrawOverlay : Bool
  rerenderBase : Bool
  scrollTo : Option (Point Scalar)
  persist : Bool
  deriving DecidableEq, Repr, Inhabited

namespace Effects

def none : Effects := ⟨false, false, .none, false⟩

def overlay : Effects := { none with redrawOverlay := true }

def mutation : Effects := { none with redrawOverlay := true, persist := true }

def viewChange : Effects :=
  { none with redrawOverlay := true, rerenderBase := true, persist := true }

/-- The consequences of one event after another; the later scroll position wins. -/
def merge (a b : Effects) : Effects where
  redrawOverlay := a.redrawOverlay || b.redrawOverlay
  rerenderBase := a.rerenderBase || b.rerenderBase
  scrollTo := b.scrollTo <|> a.scrollTo
  persist := a.persist || b.persist

def isEmpty (e : Effects) : Bool :=
  !e.redrawOverlay && !e.rerenderBase && e.scrollTo.isNone && !e.persist

end Effects

end Marginalia
