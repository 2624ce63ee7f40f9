import Marginalia.Proofs.Annotation.Sets

/-!
# Labels and patches in one list

A set keeps its labels and its patches in two lists. Where it matters which of two annotations comes
first, whatever their kinds are, both lists are put together: labels before patches in the order in
which they are listed, patches before labels in the order in which they are painted.
-/

namespace Marginalia

/-- An annotation of either kind. -/
inductive Mark where
  | label (label : Label)
  | patch (patch : Patch)
  deriving DecidableEq, Repr

namespace Mark

/-- The number of an annotation. -/
def id : Mark → Nat
  | label l => l.id
  | patch p => p.id

/-- The page of an annotation. -/
def page : Mark → Nat
  | label l => l.page
  | patch p => p.page

/-- The kind of an annotation. -/
def kind : Mark → AnnotationKind
  | label _ => .label
  | patch _ => .patch

/-- The reference that names an annotation. -/
def ref (a : Mark) : AnnotationRef := ⟨a.kind, a.id⟩

/-- The box of an annotation. -/
def bounds : Mark → Box Scalar
  | label l => l.bounds
  | patch p => p.bounds

end Mark

namespace AnnotationSet

open Mark (label patch)

/-- All annotations in the order in which they are listed. -/
def listing (s : AnnotationSet) : List Mark :=
  s.labels.map label ++ s.patches.map patch

/-- All annotations in the order in which they are painted. -/
def layers (s : AnnotationSet) : List Mark :=
  s.patches.map patch ++ s.labels.map label

/-- The annotations of a page in the order in which they are painted. -/
def layersOn (s : AnnotationSet) (page : Nat) : List Mark :=
  (s.patchesOn page).map patch ++ (s.labelsOn page).map label

theorem mem_layersOn {s : AnnotationSet} {page : Nat} {a : Mark} :
    a ∈ s.layersOn page ↔ a ∈ s.layers ∧ a.page = page := by
  simp only [layersOn, layers, patchesOn, labelsOn, List.mem_append, List.mem_map,
    List.mem_filter, beq_iff_eq]
  cases a <;> simp [Mark.page]

/-- A reference to an annotation of a set leads to its page and to its box. -/
theorem resolves_of_mem {s : AnnotationSet} (hdistinct : s.ids.Nodup) {a : Mark}
    (h : a ∈ s.layers) :
    s.page? a.ref = some a.page ∧ s.bounds? a.ref = some a.bounds := by
  obtain ⟨hlabels, hpatches, -⟩ := List.nodup_append.mp hdistinct
  rcases List.mem_append.mp h with hmem | hmem
  · obtain ⟨p, hp, rfl⟩ := List.mem_map.mp hmem
    have hfound : s.patch? p.id = some p := find?_id_of_mem hpatches hp
    simp [page?, bounds?, Mark.ref, Mark.kind, Mark.id, Mark.page, Mark.bounds, hfound]
  · obtain ⟨l, hl, rfl⟩ := List.mem_map.mp hmem
    have hfound : s.label? l.id = some l := find?_id_of_mem hlabels hl
    simp [page?, bounds?, Mark.ref, Mark.kind, Mark.id, Mark.page, Mark.bounds, hfound]

/-- Each kind is listed by ascending numbers; a number may be repeated. -/
def IsSorted (s : AnnotationSet) : Prop :=
  ∀ kind, (s.idsOf kind).Pairwise (· ≤ ·)

/-- Each kind is listed by strictly ascending numbers. -/
def IsAscending (s : AnnotationSet) : Prop :=
  ∀ kind, (s.idsOf kind).Pairwise (· < ·)

theorem isAscending_empty : empty.IsAscending := by
  intro kind
  cases kind <;> exact .nil

theorem IsAscending.of_sublist {s t : AnnotationSet} (h : s.IsAscending)
    (hlabels : t.labels.Sublist s.labels) (hpatches : t.patches.Sublist s.patches) :
    t.IsAscending := by
  intro kind
  cases kind with
  | label => exact (h .label).sublist (hlabels.map Label.id)
  | patch => exact (h .patch).sublist (hpatches.map Patch.id)

theorem IsAscending.of_samePlaces {s t : AnnotationSet} (h : s.IsAscending)
    (hsame : SamePlaces s t) : t.IsAscending := by
  intro kind
  rw [← hsame.idsOf_eq]
  exact h kind

/-- A number above all others may come last. -/
theorem pairwise_lt_concat {ids : List Nat} {bound : Nat} (h : ids.Pairwise (· < ·))
    (hbelow : ∀ id ∈ ids, id < bound) : (ids ++ [bound]).Pairwise (· < ·) := by
  refine List.pairwise_append.mpr ⟨h, List.pairwise_singleton _ _, ?_⟩
  intro id hid last hlast
  rw [List.mem_singleton.mp hlast]
  exact hbelow id hid

theorem IsAscending.addLabel {s : AnnotationSet} (h : s.IsAscending) {l : Label}
    (hbelow : ∀ id ∈ s.ids, id < l.id) : { s with labels := s.labels ++ [l] }.IsAscending := by
  intro kind
  cases kind with
  | label =>
    change ((s.labels ++ [l]).map Label.id).Pairwise (· < ·)
    rw [List.map_append]
    exact pairwise_lt_concat (h .label) fun id hid ↦ hbelow id (List.mem_append_left _ hid)
  | patch => exact h .patch

theorem IsAscending.addPatch {s : AnnotationSet} (h : s.IsAscending) {p : Patch}
    (hbelow : ∀ id ∈ s.ids, id < p.id) : { s with patches := s.patches ++ [p] }.IsAscending := by
  intro kind
  cases kind with
  | label => exact h .label
  | patch =>
    change ((s.patches ++ [p]).map Patch.id).Pairwise (· < ·)
    rw [List.map_append]
    exact pairwise_lt_concat (h .patch) fun id hid ↦ hbelow id (List.mem_append_right _ hid)

/-- Of annotations of one kind, those with larger numbers are painted later. -/
theorem IsAscending.id_lt {s : AnnotationSet} (h : s.IsAscending) {page : Nat}
    {a b : Mark} (hlater : [a, b].Sublist (s.layersOn page)) (hkind : b.kind = a.kind) :
    a.id < b.id := by
  have hpatches := (List.pairwise_map.mp (h .patch)).sublist
    (List.filter_sublist : (s.patchesOn page).Sublist s.patches)
  have hlabels := (List.pairwise_map.mp (h .label)).sublist
    (List.filter_sublist : (s.labelsOn page).Sublist s.labels)
  have hall : (s.layersOn page).Pairwise fun a b ↦ b.kind = a.kind → a.id < b.id := by
    refine List.pairwise_append.mpr ⟨List.pairwise_map.mpr ?_, List.pairwise_map.mpr ?_, ?_⟩
    · refine List.Pairwise.imp ?_ hpatches
      intro p q hlt _
      exact hlt
    · refine List.Pairwise.imp ?_ hlabels
      intro l m hlt _
      exact hlt
    · intro a ha b hb hkind
      obtain ⟨p, -, rfl⟩ := List.mem_map.mp ha
      obtain ⟨l, -, rfl⟩ := List.mem_map.mp hb
      cases hkind
  exact List.pairwise_iff_forall_sublist.mp hall hlater hkind

end AnnotationSet

namespace Store

open AnnotationSet

/-- What is kept of a sorted set has strictly ascending numbers. -/
theorem isAscending_admissible {set : AnnotationSet} (h : set.IsSorted) (pages : Nat) :
    (admissible pages set).IsAscending := by
  obtain ⟨hlabels, hpatches, -⟩ := List.nodup_append.mp (sound_admissible pages set).distinct
  obtain ⟨hfewerLabels, hfewerPatches⟩ := admissible_sublist pages set
  intro kind
  cases kind with
  | label =>
    exact (((h .label).sublist (hfewerLabels.map Label.id)).and hlabels).imp fun ⟨hle, hne⟩ ↦
      Nat.lt_of_le_of_ne hle hne
  | patch =>
    exact (((h .patch).sublist (hfewerPatches.map Patch.id)).and hpatches).imp fun ⟨hle, hne⟩ ↦
      Nat.lt_of_le_of_ne hle hne

end Store

end Marginalia
