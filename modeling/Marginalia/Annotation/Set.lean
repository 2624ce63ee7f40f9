import Marginalia.Annotation.Basic

/-!
# Annotation sets

All annotations of a document, each kind in the order in which it is painted: the oldest first.
-/

namespace Marginalia

/-- The annotations of a document. -/
structure AnnotationSet where
  labels : List Label
  patches : List Patch
  deriving DecidableEq, Repr, Inhabited

namespace AnnotationSet

def empty : AnnotationSet := ⟨[], []⟩

def isEmpty (s : AnnotationSet) : Bool :=
  s.labels.isEmpty && s.patches.isEmpty

/-- How many annotations there are, of every kind. -/
def size (s : AnnotationSet) : Nat :=
  s.labels.length + s.patches.length

/-- The first label with a number. -/
def label? (s : AnnotationSet) (id : Nat) : Option Label :=
  s.labels.find? fun l ↦ l.id == id

/-- The first patch with a number. -/
def patch? (s : AnnotationSet) (id : Nat) : Option Patch :=
  s.patches.find? fun p ↦ p.id == id

/-- Whether a reference resolves. -/
def contains (s : AnnotationSet) (r : AnnotationRef) : Bool :=
  match r.kind with
  | .label => (s.label? r.id).isSome
  | .patch => (s.patch? r.id).isSome

def bounds? (s : AnnotationSet) (r : AnnotationRef) : Option (Box Scalar) :=
  match r.kind with
  | .label => (s.label? r.id).map Label.bounds
  | .patch => (s.patch? r.id).map Patch.bounds

def page? (s : AnnotationSet) (r : AnnotationRef) : Option Nat :=
  match r.kind with
  | .label => (s.label? r.id).map Label.page
  | .patch => (s.patch? r.id).map Patch.page

/-- The labels of a page, in order. -/
def labelsOn (s : AnnotationSet) (page : Nat) : List Label :=
  s.labels.filter fun l ↦ l.page == page

/-- The patches of a page, in order. -/
def patchesOn (s : AnnotationSet) (page : Nat) : List Patch :=
  s.patches.filter fun p ↦ p.page == page

/-- The numbers in use, labels first. -/
def ids (s : AnnotationSet) : List Nat :=
  s.labels.map Label.id ++ s.patches.map Patch.id

def maxId? (s : AnnotationSet) : Option Nat :=
  s.ids.max?

/-- Insert a number into an ascending list unless it is there. -/
def insertAscending (n : Nat) : List Nat → List Nat
  | [] => [n]
  | m :: ms => if n < m then n :: m :: ms else if n = m then m :: ms else m :: insertAscending n ms

/-- The pages that carry an annotation, ascending and without repetition. -/
def pages (s : AnnotationSet) : List Nat :=
  (s.labels.map Label.page ++ s.patches.map Patch.page).foldr insertAscending []

theorem mem_insertAscending {n m : Nat} {ms : List Nat} :
    n ∈ insertAscending m ms ↔ n = m ∨ n ∈ ms := by
  induction ms with
  | nil => simp [insertAscending]
  | cons k ks ih =>
    rw [insertAscending]
    split
    · exact List.mem_cons
    · split
      · rename_i hsame
        simp [hsame]
      · simp only [List.mem_cons, ih]
        exact or_left_comm

theorem pairwise_insertAscending {m : Nat} {ms : List Nat} (h : ms.Pairwise (· < ·)) :
    (insertAscending m ms).Pairwise (· < ·) := by
  induction ms with
  | nil => simp [insertAscending]
  | cons k ks ih =>
    obtain ⟨hfirst, hrest⟩ := List.pairwise_cons.mp h
    rw [insertAscending]
    split
    · rename_i hlt
      refine List.pairwise_cons.mpr ⟨?_, h⟩
      intro n hn
      rcases List.mem_cons.mp hn with rfl | hn
      · exact hlt
      · exact Nat.lt_trans hlt (hfirst n hn)
    · split
      · exact h
      · refine List.pairwise_cons.mpr ⟨?_, ih hrest⟩
        intro n hn
        rcases mem_insertAscending.mp hn with rfl | hn
        · omega
        · exact hfirst n hn

/-- The pages that are listed are those that carry an annotation. -/
theorem mem_pages {s : AnnotationSet} {page : Nat} :
    page ∈ s.pages ↔ (∃ l ∈ s.labels, l.page = page) ∨ ∃ p ∈ s.patches, p.page = page := by
  have hall (ns : List Nat) : page ∈ ns.foldr insertAscending [] ↔ page ∈ ns := by
    induction ns with
    | nil => rfl
    | cons n ns ih => rw [List.foldr_cons, mem_insertAscending, ih, List.mem_cons]
  rw [pages, hall, List.mem_append, List.mem_map, List.mem_map]

theorem pairwise_pages (s : AnnotationSet) : s.pages.Pairwise (· < ·) := by
  unfold pages
  generalize s.labels.map Label.page ++ s.patches.map Patch.page = ns
  induction ns with
  | nil => exact .nil
  | cons n ns ih => exact pairwise_insertAscending ih

end AnnotationSet

end Marginalia
