import Marginalia.Proofs.Annotation.Listing
import Marginalia.Proofs.Editor.Retiring

/-!
# Restoring

A set that is restored may be anything: it may come from another document or from a damaged session.
What is kept of it are the annotations on pages of the document, of those with one number the first,
where labels come before patches; an annotation that is left out for its page does not stand in the
way of a later one with its number. What has been kept once is kept as a whole from then on, and so
are the annotations of every store that edits a document with as many pages.
-/

namespace Marginalia

namespace Mark

/-- The annotation lies on a page of a document with so many pages. -/
def IsOn (pages : Nat) (a : Mark) : Prop :=
  1 ≤ a.page ∧ a.page ≤ pages
deriving Decidable

/-- The annotation lies on a page of the document, and none of those before it there has its
number. -/
def IsFirst (pages : Nat) (before : List Mark) (a : Mark) : Prop :=
  a.IsOn pages ∧ ∀ b ∈ before, b.IsOn pages → b.id ≠ a.id
deriving Decidable

/-- The annotations of a list that are the first ones of their numbers on pages of the document. -/
def firsts (pages : Nat) (as : List Mark) : List Mark :=
  (as.zipIdx.filter fun entry ↦ entry.1.IsFirst pages (as.take entry.2)).map Prod.fst

end Mark

namespace Store

open AnnotationSet

/-! ## The first of each number -/

theorem firstOfEach_append {α : Type} (id : α → Nat) (seen : List Nat) (as bs : List α) :
    (firstOfEach id seen (as ++ bs)).1 =
      (firstOfEach id seen as).1 ++ (firstOfEach id (firstOfEach id seen as).2 bs).1 := by
  induction as generalizing seen with
  | nil => rfl
  | cons a rest ih =>
    rw [List.cons_append, firstOfEach, firstOfEach]
    split
    · exact ih seen
    · exact congrArg (a :: ·) (ih (id a :: seen))

theorem firstOfEach_map {α β : Type} (id : β → Nat) (f : α → β) (seen : List Nat)
    (as : List α) :
    firstOfEach id seen (as.map f) =
      ((firstOfEach (id ∘ f) seen as).1.map f, (firstOfEach (id ∘ f) seen as).2) := by
  induction as generalizing seen with
  | nil => rfl
  | cons a rest ih =>
    by_cases h : id (f a) ∈ seen
    · simp [firstOfEach, h, ih seen]
    · simp [firstOfEach, h, ih (id (f a) :: seen)]

/-- Both kinds are gone through as one list. -/
theorem listing_admissible (pages : Nat) (set : AnnotationSet) :
    (admissible pages set).listing =
      (firstOfEach Mark.id [] (set.listing.filter fun a ↦ a.IsOn pages)).1 := by
  have hfilter {α : Type} (items : List α) (page : α → Nat) (inject : α → Mark)
      (hpage : ∀ a, (inject a).page = page a) :
      (items.map inject).filter (fun a ↦ a.IsOn pages) =
        (items.filter fun a ↦ 1 ≤ page a && page a ≤ pages).map inject := by
    rw [List.filter_map]
    congr 2
    funext a
    simp [Mark.IsOn, hpage]
  rw [AnnotationSet.listing, AnnotationSet.listing, List.filter_append,
    hfilter set.labels Label.page .label fun _ ↦ rfl,
    hfilter set.patches Patch.page .patch fun _ ↦ rfl, firstOfEach_append, firstOfEach_map,
    firstOfEach_map]
  rfl

/-- What is kept are the first annotations; `before` are those that have been gone through. -/
theorem firstOfEach_eq_firsts (pages : Nat) (before as : List Mark) (seen : List Nat)
    (hseen : ∀ n, n ∈ seen ↔ ∃ b ∈ before, b.IsOn pages ∧ b.id = n) :
    (firstOfEach Mark.id seen (as.filter fun a ↦ a.IsOn pages)).1 =
      ((as.zipIdx before.length).filter fun entry ↦
        entry.1.IsFirst pages ((before ++ as).take entry.2)).map Prod.fst := by
  induction as generalizing before seen with
  | nil => rfl
  | cons a rest ih =>
    have hrest := ih (before ++ [a])
    rw [List.append_assoc, List.singleton_append, List.length_append, List.length_singleton]
      at hrest
    have hgrown (n : Nat) : (∃ b ∈ before ++ [a], b.IsOn pages ∧ b.id = n) ↔
        n ∈ seen ∨ a.IsOn pages ∧ a.id = n := by
      rw [hseen]
      simp [or_and_right, exists_or]
    simp only [List.zipIdx_cons, List.filter_cons, List.take_left, decide_eq_true_eq]
    by_cases hon : a.IsOn pages
    · by_cases hmem : a.id ∈ seen
      · have hnot : ¬a.IsFirst pages before := by
          intro hfirst
          obtain ⟨b, hb, hbon, hid⟩ := (hseen a.id).mp hmem
          exact hfirst.2 b hb hbon hid
        rw [if_pos hon, if_neg hnot, firstOfEach, if_pos hmem]
        refine hrest seen fun n ↦ ?_
        rw [hgrown, or_iff_left_of_imp fun h ↦ h.2 ▸ hmem]
      · have hfirst : a.IsFirst pages before :=
          ⟨hon, fun b hb hbon hid ↦ hmem ((hseen a.id).mpr ⟨b, hb, hbon, hid⟩)⟩
        rw [if_pos hon, if_pos hfirst, firstOfEach, if_neg hmem]
        refine congrArg (a :: ·) (hrest (a.id :: seen) fun n ↦ ?_)
        rw [hgrown, List.mem_cons, or_comm, eq_comm, and_iff_right hon]
    · have hnot : ¬a.IsFirst pages before := fun hfirst ↦ hon hfirst.1
      rw [if_neg hon, if_neg hnot]
      refine hrest seen fun n ↦ ?_
      rw [hgrown, or_iff_left fun h ↦ hon h.1]

theorem listing_restore (s : Store) (set : AnnotationSet) :
    (s.restore set).annotations.listing = Mark.firsts s.state.totalPages set.listing := by
  have hnone (n : Nat) : n ∈ ([] : List Nat) ↔
      ∃ b ∈ ([] : List Mark), b.IsOn s.state.totalPages ∧ b.id = n := by simp
  exact (listing_admissible _ set).trans (firstOfEach_eq_firsts _ [] set.listing [] hnone)

/-! ## Numbers -/

theorem nextId_le_run (s : Store) (operations : List Operation)
    (hedits : ∀ operation ∈ operations, operation.isEdit = true) :
    s.nextId ≤ (s.run operations).nextId := by
  induction operations generalizing s with
  | nil => exact Nat.le_refl _
  | cons operation rest ih =>
    obtain ⟨hfirst, hrest⟩ := List.forall_mem_cons.mp hedits
    have hstep : s.nextId ≤ (s.apply operation).2.nextId := by
      rcases (s.answered_apply operation).same_or_done with hsame | ⟨-, hdone⟩
      · exact Nat.le_of_eq (congrArg Store.nextId hsame).symm
      · exact hdone.nextId_le (operation.editKind_ne_replace hfirst)
    exact Nat.le_trans hstep (ih _ hrest)

/-- The store can answer the reference as that of an annotation that it has just added. -/
def Adds (s : Store) (r : AnnotationRef) : Prop :=
  (∃ place text style, (s.addText place text style).1 = some r) ∨
    ∃ box color, (s.addRect box color).1 = some r

theorem Adds.id_eq {s : Store} {r : AnnotationRef} (h : s.Adds r) : r.id = s.nextId := by
  rcases h with ⟨place, text, style, h⟩ | ⟨box, color, h⟩
  · exact addText_id s place text style r h
  · exact addRect_id s box color r h

/-! ## What is kept -/

/-- A set that has been kept is kept as a whole. -/
theorem annotations_restore_of_sound (s : Store) {pages bound : Nat} {set : AnnotationSet}
    (h : Sound pages bound set) (hpages : s.state.totalPages = pages) :
    (s.restore set).annotations = set := by
  subst hpages
  exact admissible_of_sound h

/-- Restoring keeps the first annotation of each number on the pages of the document, in order, and
nothing that could be undone or that refers elsewhere; numbers go on above those that are kept.
Restoring what was kept keeps all of it, and so does restoring the annotations of a store with as
many pages. -/
theorem restore_normalizes (s : Store) (set : AnnotationSet) :
    let restored := s.restore set
    let kept := restored.annotations
    (kept.listing = Mark.firsts s.state.totalPages set.listing ∧
        kept.labels.Sublist set.labels ∧ kept.patches.Sublist set.patches) ∧
      (∀ operations, (∀ operation ∈ operations, operation.isEdit = true) →
        ∀ r, (restored.run operations).Adds r → ∀ id ∈ kept.ids, id < r.id) ∧
      restored.history.snapshots = [] ∧
      (∀ r, restored.state.Refers r → kept.contains r = true) ∧
      (∀ other : Store, other.state.totalPages = s.state.totalPages →
        (other.restore kept).annotations = kept) ∧
      ∀ measure options operations, let edited := (new measure options).run operations
        edited.state.totalPages = s.state.totalPages →
          (s.restore edited.annotations).annotations = edited.annotations := by
  intro restored kept
  have hsound := sound_admissible s.state.totalPages set
  refine ⟨⟨s.listing_restore set, admissible_sublist _ set⟩, ?_, rfl, ?_, ?_, ?_⟩
  · intro operations hedits r hadds id hid
    rw [hadds.id_eq]
    exact Nat.lt_of_lt_of_le (hsound.below id hid) (restored.nextId_le_run operations hedits)
  · intro r hr
    rcases hr with hr | hr
    · exact (Option.filter_eq_some_iff.mp hr).2
    · exact (Option.filter_eq_some_iff.mp hr).2
  · intro other hpages
    exact other.annotations_restore_of_sound hsound hpages
  · intro measure options operations edited hpages
    have hinvariant : edited.Invariant := (invariant_new measure options).run operations
    exact s.annotations_restore_of_sound hinvariant.live hpages.symm

/-- Three labels and a patch have one number. -/
def crowded : AnnotationSet :=
  let label (page : Nat) : Label := ⟨4, page, 10, 50, "ab", .standard, 17.6, 16⟩
  ⟨[label 3, label 2, label 1], [⟨4, 1, 10, 10, 50, 50, .black⟩, ⟨1, 1, 0, 0, 20, 20, .white⟩]⟩

/-- On two pages the second label is the first one of its number; the next number is above it. -/
theorem restore_normalizes_crowded :
    let s := (new .approximate .standard).run [.loadDocument 2]
    let kept := (s.restore crowded).annotations
    kept.ids = [4, 1] ∧ kept.labels = [⟨4, 2, 10, 50, "ab", .standard, 17.6, 16⟩] ∧
      (s.restore crowded).Adds ⟨.label, 5⟩ ∧ (∀ id ∈ kept.ids, id < 5) ∧
      (s.restore kept).annotations = kept := by
  intro s kept
  obtain ⟨-, hnumbers, -, -, hagain, -⟩ := restore_normalizes s crowded
  have hadds : (s.restore crowded).Adds ⟨.label, 5⟩ :=
    .inl ⟨⟨10, 90⟩, "c", .standard, by decide +kernel⟩
  refine ⟨by decide +kernel, by decide +kernel, hadds, ?_, hagain s rfl⟩
  exact hnumbers [] (List.forall_mem_nil _) ⟨.label, 5⟩ hadds

end Store

end Marginalia
