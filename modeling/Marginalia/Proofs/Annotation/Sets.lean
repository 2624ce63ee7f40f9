import Mathlib.Data.List.Nodup
import Marginalia.Editor.Store.Edit

/-!
# Sound annotation sets

A set is sound for a document when no two of its annotations have the same number, all numbers are
below the next free one, and every annotation lies on a page of the document. Soundness and the
question which references resolve depend on the numbers and the pages alone, so they survive every
change of the other properties. Taking annotations away keeps a set sound. What is left of an
arbitrary set after restoring it is sound, and nothing of a sound set is lost.
-/

namespace Marginalia

/-- An element is found by its number if no other has it. -/
theorem find?_id_of_mem {α : Type} {id : α → Nat} {items : List α}
    (hdistinct : (items.map id).Nodup) {a : α} (h : a ∈ items) :
    (items.find? fun b ↦ id b == id a) = some a := by
  have hfound : (items.find? fun b ↦ id b == id a).isSome :=
    List.find?_isSome.mpr ⟨a, h, beq_self_eq_true (id a)⟩
  obtain ⟨b, hb⟩ := Option.isSome_iff_exists.mp hfound
  have hid : id b = id a := by simpa using List.find?_some hb
  rw [hb, List.inj_on_of_nodup_map hdistinct (List.mem_of_find?_eq_some hb) h hid]

namespace AnnotationSet

/-- The numbers of the annotations of a kind. -/
def idsOf (s : AnnotationSet) : AnnotationKind → List Nat
  | .label => s.labels.map Label.id
  | .patch => s.patches.map Patch.id

theorem contains_iff (s : AnnotationSet) (r : AnnotationRef) :
    s.contains r = true ↔ r.id ∈ s.idsOf r.kind := by
  unfold contains idsOf label? patch?
  cases r.kind with
  | label => simp [List.find?_isSome]
  | patch => simp [List.find?_isSome]

/-- References keep resolving in a set that has all the numbers of another one. -/
theorem contains_of_idsOf_subset (s t : AnnotationSet)
    (hsubset : ∀ kind, s.idsOf kind ⊆ t.idsOf kind) (r : AnnotationRef)
    (h : s.contains r = true) : t.contains r = true := by
  rw [contains_iff] at h ⊢
  exact hsubset r.kind h

theorem label?_id (s : AnnotationSet) (id : Nat) (l : Label) (h : s.label? id = some l) :
    l.id = id := by
  have hfound := List.find?_some h
  simpa using hfound

/-! ## Sets that differ in neither numbers nor pages -/

/-- The sets have annotations of the same numbers on the same pages, in the same order. -/
structure SamePlaces (s t : AnnotationSet) : Prop where
  labels : s.labels.map (fun l ↦ (l.id, l.page)) = t.labels.map fun l ↦ (l.id, l.page)
  patches : s.patches.map (fun p ↦ (p.id, p.page)) = t.patches.map fun p ↦ (p.id, p.page)

theorem SamePlaces.idsOf_eq {s t : AnnotationSet} (h : SamePlaces s t) (kind : AnnotationKind) :
    s.idsOf kind = t.idsOf kind := by
  cases kind with
  | label => simpa [idsOf, Function.comp_def] using congrArg (List.map Prod.fst) h.labels
  | patch => simpa [idsOf, Function.comp_def] using congrArg (List.map Prod.fst) h.patches

theorem SamePlaces.contains_eq {s t : AnnotationSet} (h : SamePlaces s t) (r : AnnotationRef) :
    s.contains r = t.contains r := by
  rw [Bool.eq_iff_iff, contains_iff, contains_iff, h.idsOf_eq]

/-! ## Soundness -/

/-- The numbers are pairwise distinct and below a bound, and all annotations lie on the pages of a
document with so many pages. -/
structure Sound (pages bound : Nat) (s : AnnotationSet) : Prop where
  distinct : s.ids.Nodup
  below : ∀ id ∈ s.ids, id < bound
  labelPages : ∀ l ∈ s.labels, 1 ≤ l.page ∧ l.page ≤ pages
  patchPages : ∀ p ∈ s.patches, 1 ≤ p.page ∧ p.page ≤ pages

theorem sound_empty (pages bound : Nat) : Sound pages bound empty := by
  constructor <;> simp [empty, ids]

theorem Sound.mono {pages bound larger : Nat} {s : AnnotationSet} (h : Sound pages bound s)
    (hle : bound ≤ larger) : Sound pages larger s := by
  refine { h with below := ?_ }
  intro id hid
  exact Nat.lt_of_lt_of_le (h.below id hid) hle

theorem Sound.of_samePlaces {pages bound : Nat} {s t : AnnotationSet} (h : Sound pages bound s)
    (hsame : SamePlaces s t) : Sound pages bound t := by
  have hids : s.ids = t.ids := by
    change s.idsOf .label ++ s.idsOf .patch = t.idsOf .label ++ t.idsOf .patch
    rw [hsame.idsOf_eq, hsame.idsOf_eq]
  refine ⟨hids ▸ h.distinct, hids ▸ h.below, ?_, ?_⟩
  · intro l hl
    have hmem : (l.id, l.page) ∈ s.labels.map fun l ↦ (l.id, l.page) := by
      rw [hsame.labels]
      exact List.mem_map_of_mem hl
    obtain ⟨other, hother, heq⟩ := List.mem_map.mp hmem
    have hpage := h.labelPages other hother
    rwa [(Prod.mk.inj heq).2] at hpage
  · intro p hp
    have hmem : (p.id, p.page) ∈ s.patches.map fun p ↦ (p.id, p.page) := by
      rw [hsame.patches]
      exact List.mem_map_of_mem hp
    obtain ⟨other, hother, heq⟩ := List.mem_map.mp hmem
    have hpage := h.patchPages other hother
    rwa [(Prod.mk.inj heq).2] at hpage

theorem Sound.of_sublist {pages bound : Nat} {s t : AnnotationSet} (h : Sound pages bound s)
    (hlabels : t.labels.Sublist s.labels) (hpatches : t.patches.Sublist s.patches) :
    Sound pages bound t := by
  have hids : t.ids.Sublist s.ids :=
    (hlabels.map Label.id).append (hpatches.map Patch.id)
  refine ⟨h.distinct.sublist hids, ?_, ?_, ?_⟩
  · intro id hid
    exact h.below id (hids.subset hid)
  · intro l hl
    exact h.labelPages l (hlabels.subset hl)
  · intro p hp
    exact h.patchPages p (hpatches.subset hp)

/-- One more number, the bound itself, raises the bound by one. -/
theorem nodup_and_lt_of_perm_cons (bound : Nat) (ids more : List Nat)
    (hperm : List.Perm more (bound :: ids)) (hdistinct : ids.Nodup)
    (hbelow : ∀ id ∈ ids, id < bound) : more.Nodup ∧ ∀ id ∈ more, id < bound + 1 := by
  have hfresh : bound ∉ ids := fun hmem ↦ Nat.lt_irrefl bound (hbelow bound hmem)
  refine ⟨hperm.nodup_iff.mpr (List.nodup_cons.mpr ⟨hfresh, hdistinct⟩), ?_⟩
  intro id hid
  rcases List.mem_cons.mp (hperm.mem_iff.mp hid) with heq | hold
  · omega
  · exact Nat.lt_succ_of_lt (hbelow id hold)

/-- A label with the next free number may be added. -/
theorem Sound.addLabel {pages bound : Nat} {s : AnnotationSet} (h : Sound pages bound s)
    (l : Label) (hid : l.id = bound) (hpage : 1 ≤ l.page ∧ l.page ≤ pages) :
    Sound pages (bound + 1) { s with labels := s.labels ++ [l] } := by
  have hperm : List.Perm ((s.labels ++ [l]).map Label.id ++ s.patches.map Patch.id)
      (bound :: s.ids) := by
    rw [List.map_append, List.append_assoc, ← hid]
    exact List.perm_middle
  obtain ⟨hdistinct, hbelow⟩ := nodup_and_lt_of_perm_cons bound _ _ hperm h.distinct h.below
  refine ⟨hdistinct, hbelow, ?_, h.patchPages⟩
  intro other hmem
  rcases List.mem_append.mp hmem with hold | hnew
  · exact h.labelPages other hold
  · rw [List.mem_singleton.mp hnew]
    exact hpage

/-- A patch with the next free number may be added. -/
theorem Sound.addPatch {pages bound : Nat} {s : AnnotationSet} (h : Sound pages bound s)
    (p : Patch) (hid : p.id = bound) (hpage : 1 ≤ p.page ∧ p.page ≤ pages) :
    Sound pages (bound + 1) { s with patches := s.patches ++ [p] } := by
  have hperm : List.Perm (s.labels.map Label.id ++ (s.patches ++ [p]).map Patch.id)
      (bound :: s.ids) := by
    rw [List.map_append, ← List.append_assoc, ← hid]
    exact List.perm_append_comm
  obtain ⟨hdistinct, hbelow⟩ := nodup_and_lt_of_perm_cons bound _ _ hperm h.distinct h.below
  refine ⟨hdistinct, hbelow, h.labelPages, ?_⟩
  intro other hmem
  rcases List.mem_append.mp hmem with hold | hnew
  · exact h.patchPages other hold
  · rw [List.mem_singleton.mp hnew]
    exact hpage

/-- The number after the largest one is above all. -/
theorem lt_next_of_mem_ids (s : AnnotationSet) (id : Nat) (h : id ∈ s.ids) :
    id < (s.maxId?.map (· + 1)).getD 1 := by
  unfold maxId?
  cases hmax : s.ids.max? with
  | none =>
    rw [List.max?_eq_none_iff.mp hmax] at h
    exact absurd h List.not_mem_nil
  | some largest =>
    have hle : id ≤ largest := (List.max?_le_iff hmax).mp (Nat.le_refl largest) id h
    simp only [Option.map_some, Option.getD_some]
    omega

end AnnotationSet

namespace Store

open AnnotationSet

/-! ## Changing one annotation -/

/-- What the change of an element does not touch is the same for all elements afterwards. -/
theorem map_modifyFirst {α β : Type} (id : α → Nat) (f : α → α) (n : Nat) (g : α → β)
    (as : List α) (h : ∀ a, as.find? (fun a ↦ id a == n) = some a → g (f a) = g a) :
    (modifyFirst id f n as).map g = as.map g := by
  induction as with
  | nil => rfl
  | cons a rest ih =>
    unfold modifyFirst
    by_cases heq : id a = n
    · have hf : g (f a) = g a := h a (by simp [heq])
      simp [heq, hf]
    · have hrest := ih fun b hb ↦ h b (by simp [heq, hb])
      simp [heq, hrest]

/-- A change that keeps number and page of an annotation keeps those of all. -/
theorem samePlaces_modified (set : AnnotationSet) (r : AnnotationRef) (label : Label → Label)
    (patch : Patch → Patch) (hlabel : ∀ l, (label l).id = l.id ∧ (label l).page = l.page)
    (hpatch : ∀ p, (patch p).id = p.id ∧ (patch p).page = p.page) :
    SamePlaces set (modified set r label patch) := by
  unfold modified
  cases r.kind with
  | label =>
    refine ⟨?_, rfl⟩
    refine (map_modifyFirst Label.id label r.id _ set.labels ?_).symm
    intro l _
    rw [(hlabel l).1, (hlabel l).2]
  | patch =>
    refine ⟨rfl, ?_⟩
    refine (map_modifyFirst Patch.id patch r.id _ set.patches ?_).symm
    intro p _
    rw [(hpatch p).1, (hpatch p).2]

theorem samePlaces_moved (set : AnnotationSet) (r : AnnotationRef) (dx dy : Scalar) :
    SamePlaces set (moved set r dx dy) :=
  samePlaces_modified set r _ _ (fun _ ↦ ⟨rfl, rfl⟩) fun _ ↦ ⟨rfl, rfl⟩

/-! ## Restoring -/

theorem firstOfEach_sublist {α : Type} (id : α → Nat) (seen : List Nat) (as : List α) :
    (firstOfEach id seen as).1.Sublist as := by
  induction as generalizing seen with
  | nil => exact List.Sublist.refl []
  | cons a rest ih =>
    unfold firstOfEach
    by_cases h : id a ∈ seen
    · simp only [h, if_true]
      exact (ih seen).cons a
    · simp only [h, if_false]
      exact (ih (id a :: seen)).cons_cons a

/-- The numbers seen afterwards are those seen before and those of the elements that are kept. -/
theorem mem_firstOfEach_seen {α : Type} (id : α → Nat) (seen : List Nat) (as : List α) (n : Nat) :
    n ∈ (firstOfEach id seen as).2 ↔ n ∈ seen ∨ n ∈ (firstOfEach id seen as).1.map id := by
  induction as generalizing seen with
  | nil => simp [firstOfEach]
  | cons a rest ih =>
    unfold firstOfEach
    by_cases h : id a ∈ seen
    · simp only [h, if_true]
      exact ih seen
    · simp only [h, if_false, ih (id a :: seen), List.map_cons, List.mem_cons]
      grind

theorem firstOfEach_not_mem_seen {α : Type} (id : α → Nat) (seen : List Nat) (as : List α)
    (n : Nat) (h : n ∈ (firstOfEach id seen as).1.map id) : n ∉ seen := by
  induction as generalizing seen with
  | nil => simp [firstOfEach] at h
  | cons a rest ih =>
    unfold firstOfEach at h
    by_cases hseen : id a ∈ seen
    · simp only [hseen, if_true] at h
      exact ih seen h
    · simp only [hseen, if_false, List.map_cons, List.mem_cons] at h
      rcases h with heq | hrest
      · rw [heq]
        exact hseen
      · intro hmem
        exact ih (id a :: seen) hrest (List.mem_cons_of_mem _ hmem)

theorem firstOfEach_nodup {α : Type} (id : α → Nat) (seen : List Nat) (as : List α) :
    ((firstOfEach id seen as).1.map id).Nodup := by
  induction as generalizing seen with
  | nil => simp [firstOfEach]
  | cons a rest ih =>
    unfold firstOfEach
    by_cases h : id a ∈ seen
    · simp only [h, if_true]
      exact ih seen
    · simp only [h, if_false, List.map_cons]
      refine List.nodup_cons.mpr ⟨?_, ih (id a :: seen)⟩
      intro hmem
      exact firstOfEach_not_mem_seen id (id a :: seen) rest (id a) hmem List.mem_cons_self

/-- What is kept of a set stays in its order. -/
theorem admissible_sublist (pages : Nat) (set : AnnotationSet) :
    (admissible pages set).labels.Sublist set.labels ∧
      (admissible pages set).patches.Sublist set.patches :=
  ⟨(firstOfEach_sublist _ _ _).trans List.filter_sublist,
    (firstOfEach_sublist _ _ _).trans List.filter_sublist⟩

/-- What is kept of an arbitrary set is sound. -/
theorem sound_admissible (pages : Nat) (set : AnnotationSet) :
    Sound pages (((admissible pages set).maxId?.map (· + 1)).getD 1) (admissible pages set) := by
  refine ⟨?_, lt_next_of_mem_ids _, ?_, ?_⟩
  · refine List.nodup_append.mpr ⟨firstOfEach_nodup _ _ _, firstOfEach_nodup _ _ _, ?_⟩
    intro n hlabel m hpatch heq
    have hunseen := firstOfEach_not_mem_seen _ _ _ _ hpatch
    rw [← heq] at hunseen
    exact hunseen ((mem_firstOfEach_seen _ _ _ _).mpr (Or.inr hlabel))
  · intro l hl
    have hmem := (firstOfEach_sublist _ _ _).subset hl
    simpa using (List.mem_filter.mp hmem).2
  · intro p hp
    have hmem := (firstOfEach_sublist _ _ _).subset hp
    simpa using (List.mem_filter.mp hmem).2

/-- Different numbers, none of them seen before, are all kept. -/
theorem firstOfEach_of_nodup {α : Type} (id : α → Nat) (seen : List Nat) (as : List α)
    (hnodup : (as.map id).Nodup) (hunseen : ∀ a ∈ as, id a ∉ seen) :
    (firstOfEach id seen as).1 = as := by
  induction as generalizing seen with
  | nil => rfl
  | cons a rest ih =>
    obtain ⟨hnot, hrest⟩ := List.nodup_cons.mp hnodup
    rw [firstOfEach, if_neg (hunseen a List.mem_cons_self)]
    refine congrArg (a :: ·) (ih (id a :: seen) hrest ?_)
    intro b hb hmem
    rcases List.mem_cons.mp hmem with heq | hseen
    · exact hnot (heq ▸ List.mem_map_of_mem hb)
    · exact hunseen b (List.mem_cons_of_mem _ hb) hseen

/-- Nothing of a sound set is left out. -/
theorem admissible_of_sound {pages bound : Nat} {set : AnnotationSet}
    (h : Sound pages bound set) : admissible pages set = set := by
  have hlabels : set.labels.filter (fun l ↦ 1 ≤ l.page && l.page ≤ pages) = set.labels := by
    refine List.filter_eq_self.mpr fun l hl ↦ ?_
    simpa using h.labelPages l hl
  have hpatches : set.patches.filter (fun p ↦ 1 ≤ p.page && p.page ≤ pages) = set.patches := by
    refine List.filter_eq_self.mpr fun p hp ↦ ?_
    simpa using h.patchPages p hp
  obtain ⟨hlabelIds, hpatchIds, hdisjoint⟩ := List.nodup_append.mp h.distinct
  have hkeptLabels := firstOfEach_of_nodup Label.id [] set.labels hlabelIds fun _ _ hmem ↦
    nomatch hmem
  have hkeptPatches := firstOfEach_of_nodup Patch.id (firstOfEach Label.id [] set.labels).2
    set.patches hpatchIds (by
      intro p hp hmem
      rw [mem_firstOfEach_seen, hkeptLabels] at hmem
      rcases hmem with hnone | hlabel
      · cases hnone
      · exact hdisjoint _ hlabel _ (List.mem_map_of_mem hp) rfl)
  rw [admissible]
  simp only [hlabels, hpatches]
  rw [hkeptLabels, hkeptPatches]

end Store

end Marginalia
