import Mathlib.Data.List.Induction
import Marginalia.Proofs.Annotation.Stored
import Marginalia.Proofs.Editor.Places
import Marginalia.Proofs.Geometry.Equality

/-!
# Retiring painted annotations

When annotations have been painted into the document, the store gives up those that are still the
same and keeps all others, in order. Its history is empty then, so whatever undo brings back later
has been there since; and the numbers of the annotations given up are never used again.
-/

namespace Marginalia

/-! ## The same annotation -/

/-- The styles are the same. -/
def TextStyle.Same (a b : TextStyle) : Prop :=
  a.fontSize.Same b.fontSize ∧ a.family = b.family ∧ a.color = b.color
deriving Decidable

/-- The labels have the same number and values. -/
def Label.Same (a b : Label) : Prop :=
  a.id = b.id ∧ a.page = b.page ∧ a.x.Same b.x ∧ a.y.Same b.y ∧ a.text = b.text ∧
    a.style.Same b.style ∧ a.width.Same b.width ∧ a.height.Same b.height
deriving Decidable

/-- The patches have the same number and values. -/
def Patch.Same (a b : Patch) : Prop :=
  a.id = b.id ∧ a.page = b.page ∧ a.x.Same b.x ∧ a.y.Same b.y ∧ a.width.Same b.width ∧
    a.height.Same b.height ∧ a.color = b.color
deriving Decidable

theorem Label.agrees_iff {a b : Label} (hb : ∀ x ∈ b.scalars, x.isNaN = false) :
    a.agrees b = true ↔ a.Same b := by
  simp only [scalars, List.forall_mem_cons, List.not_mem_nil, false_implies, implies_true,
    and_true] at hb
  obtain ⟨hx, hy, hsize, hwidth, hheight⟩ := hb
  simp only [agrees, Same, TextStyle.agrees, TextStyle.Same, Bool.and_eq_true, beq_iff_eq,
    Scalar.beq_iff_same hx, Scalar.beq_iff_same hy, Scalar.beq_iff_same hsize,
    Scalar.beq_iff_same hwidth, Scalar.beq_iff_same hheight, and_assoc]

theorem Patch.agrees_iff {a b : Patch} (hb : ∀ x ∈ b.scalars, x.isNaN = false) :
    a.agrees b = true ↔ a.Same b := by
  simp only [scalars, List.forall_mem_cons, List.not_mem_nil, false_implies, implies_true,
    and_true] at hb
  obtain ⟨hx, hy, hwidth, hheight⟩ := hb
  simp only [agrees, Same, Bool.and_eq_true, beq_iff_eq, Scalar.beq_iff_same hx,
    Scalar.beq_iff_same hy, Scalar.beq_iff_same hwidth, Scalar.beq_iff_same hheight, and_assoc]

/-- Whether the element of a number agrees with another one is whether it is among the elements. -/
theorem any_find?_iff {α : Type} {id : α → Nat} {agrees : α → α → Bool} {same : α → α → Prop}
    {items : List α} (hdistinct : (items.map id).Nodup) {a : α}
    (hagrees : ∀ b, agrees b a = true ↔ same b a) (hid : ∀ b, same b a → id b = id a) :
    ((items.find? fun b ↦ id b == id a).any fun b ↦ agrees b a) = true ↔
      ∃ b ∈ items, same b a := by
  rw [Option.any_eq_true]
  constructor
  · rintro ⟨b, hfound, hb⟩
    exact ⟨b, List.mem_of_find?_eq_some hfound, (hagrees b).mp hb⟩
  · rintro ⟨b, hmem, hb⟩
    refine ⟨b, ?_, (hagrees b).mpr hb⟩
    rw [← hid b hb]
    exact find?_id_of_mem hdistinct hmem

/-! ## What is retired -/

namespace Store

open AnnotationSet

theorem isExportedLabel_iff {exported : AnnotationSet} (hdistinct : exported.ids.Nodup) {l : Label}
    (hl : ∀ x ∈ l.scalars, x.isNaN = false) :
    isExportedLabel exported l = true ↔ ∃ painted ∈ exported.labels, painted.Same l :=
  any_find?_iff (List.nodup_append.mp hdistinct).1 (fun _ ↦ Label.agrees_iff hl) fun _ h ↦ h.1

theorem isExportedPatch_iff {exported : AnnotationSet} (hdistinct : exported.ids.Nodup) {p : Patch}
    (hp : ∀ x ∈ p.scalars, x.isNaN = false) :
    isExportedPatch exported p = true ↔ ∃ painted ∈ exported.patches, painted.Same p :=
  any_find?_iff (List.nodup_append.mp hdistinct).2.1 (fun _ ↦ Patch.agrees_iff hp) fun _ h ↦ h.1

/-- Retiring keeps, in order, the annotations that are not the same as they were painted. -/
theorem retireExported_annotations (s : Store) {exported : AnnotationSet}
    (hdistinct : exported.ids.Nodup)
    (hnumbers : ∀ x ∈ s.annotations.scalars, x.isNaN = false) :
    (s.retireExported exported).annotations.labels =
        s.annotations.labels.filter (fun l ↦ ¬∃ painted ∈ exported.labels, painted.Same l) ∧
      (s.retireExported exported).annotations.patches =
        s.annotations.patches.filter fun p ↦ ¬∃ painted ∈ exported.patches, painted.Same p := by
  obtain ⟨hlabels, hpatches⟩ := List.forall_mem_append.mp hnumbers
  constructor
  · refine List.filter_congr fun l hl ↦ ?_
    have hl : ∀ x ∈ l.scalars, x.isNaN = false :=
      fun x hx ↦ hlabels x (List.mem_flatMap.mpr ⟨l, hl, hx⟩)
    rw [Bool.eq_iff_iff, Bool.not_eq_true', decide_eq_true_iff, ← isExportedLabel_iff hdistinct hl,
      Bool.not_eq_true]
  · refine List.filter_congr fun p hp ↦ ?_
    have hp : ∀ x ∈ p.scalars, x.isNaN = false :=
      fun x hx ↦ hpatches x (List.mem_flatMap.mpr ⟨p, hp, hx⟩)
    rw [Bool.eq_iff_iff, Bool.not_eq_true', decide_eq_true_iff, ← isExportedPatch_iff hdistinct hp,
      Bool.not_eq_true]

end Store

/-! ## What undo can bring back -/

namespace HistoryEffect

/-- Nothing comes into the stack but the present annotations. -/
theorem Relates.mem_stack {effect : HistoryEffect} {s s' : Store} (h : effect.Relates s s')
    {set : AnnotationSet} (hset : set ∈ s'.stack) : set = s'.annotations ∨ set ∈ s.stack := by
  refine (List.mem_cons.mp hset).imp_right fun hpast ↦ ?_
  cases effect with
  | kept => exact List.mem_cons_of_mem _ (h.2 ▸ hpast)
  | recorded =>
    have hpush : s'.history = s.history.push s.annotations := h
    exact Store.mem_stack_push (hpush ▸ hpast)
  | undone =>
    obtain ⟨hsnapshots, -⟩ := History.pop?_eq_some h
    refine List.mem_cons_of_mem _ ?_
    rw [hsnapshots]
    exact List.mem_cons_of_mem _ hpast
  | dragged =>
    have hhistory : s'.history = s.history := h
    exact List.mem_cons_of_mem _ (hhistory ▸ hpast)

end HistoryEffect

namespace Store

open AnnotationSet

/-- After a time without a past, undo leads only to annotations that were there since. -/
theorem live_of_mem_stack_run (s : Store) (hcleared : s.history.snapshots = [])
    (operations : List Operation) (hedits : ∀ operation ∈ operations, operation.isEdit = true)
    {set : AnnotationSet} (hset : set ∈ (s.run operations).stack) :
    ∃ earlier, earlier <+: operations ∧ set = (s.run earlier).annotations := by
  induction operations using List.reverseRecOn with
  | nil =>
    rw [run, List.foldl_nil, stack, hcleared, List.mem_singleton] at hset
    exact ⟨[], List.nil_prefix, hset⟩
  | append_singleton operations operation ih =>
    obtain ⟨hbefore, hlast⟩ := List.forall_mem_append.mp hedits
    rw [run_append] at hset
    have hrelates := relates_apply (s.run operations) operation
      (hlast operation (List.mem_singleton.mpr rfl))
    rcases hrelates.mem_stack hset with hlive | hold
    · refine ⟨operations ++ [operation], List.prefix_refl _, ?_⟩
      rw [run_append]
      exact hlive
    · obtain ⟨earlier, hearlier, hset⟩ := ih hbefore hold
      exact ⟨earlier, hearlier.trans (List.prefix_append _ _), hset⟩

/-- A store without an annotation, which undo does not bring back and whose number is used up. -/
structure Lacks (s : Store) (r : AnnotationRef) : Prop where
  used : r.id < s.nextId
  absent : ∀ set ∈ s.stack, set.contains r = false

/-- An edit gives an annotation the next number, or one of the stack. -/
theorem Edit.mem_idsOf {s s' : Store} {kind : EditKind} (h : Edit s kind s')
    (hkind : kind ≠ .replace) {k : AnnotationKind} {id : Nat}
    (hid : id ∈ s'.annotations.idsOf k) :
    id = s.nextId ∨ ∃ set ∈ s.stack, id ∈ set.idsOf k := by
  have hlive (hid : id ∈ s.annotations.idsOf k) : ∃ set ∈ s.stack, id ∈ set.idsOf k :=
    ⟨s.annotations, List.mem_cons_self, hid⟩
  cases h with
  | loadDocument pages => exact absurd rfl hkind
  | clear => exact absurd rfl hkind
  | restore set => exact absurd rfl hkind
  | retireExported exported => exact absurd rfl hkind
  | addLabel l hnext _ _ _ =>
    cases k with
    | label =>
      change id ∈ (s.annotations.labels ++ [l]).map Label.id at hid
      rw [List.map_append] at hid
      rcases List.mem_append.mp hid with hold | hnew
      · exact .inr (hlive hold)
      · exact .inl ((List.mem_singleton.mp hnew).trans hnext)
    | patch => exact .inr (hlive hid)
  | addPatch p hnext _ _ =>
    cases k with
    | label => exact .inr (hlive hid)
    | patch =>
      change id ∈ (s.annotations.patches ++ [p]).map Patch.id at hid
      rw [List.map_append] at hid
      rcases List.mem_append.mp hid with hold | hnew
      · exact .inr (hlive hold)
      · exact .inl ((List.mem_singleton.mp hnew).trans hnext)
  | rewrite set hset =>
    refine .inr (hlive ?_)
    rw [hset.samePlaces.idsOf_eq k]
    exact hid
  | delete r _ =>
    obtain ⟨hlabels, hpatches⟩ := without_sublist s.annotations r
    refine .inr (hlive ?_)
    cases k with
    | label => exact (hlabels.map Label.id).subset hid
    | patch => exact (hpatches.map Patch.id).subset hid
  | drag r dx dy _ =>
    refine .inr (hlive ?_)
    rw [(samePlaces_moved s.annotations r dx dy).idsOf_eq k]
    exact hid
  | undo set rest hpop =>
    obtain ⟨hsnapshots, -⟩ := History.pop?_eq_some hpop
    refine .inr ⟨set, List.mem_cons_of_mem _ ?_, hid⟩
    rw [hsnapshots]
    exact List.mem_cons_self
  | _ => exact .inr (hlive hid)

theorem Edit.nextId_le {s s' : Store} {kind : EditKind} (h : Edit s kind s')
    (hkind : kind ≠ .replace) : s.nextId ≤ s'.nextId := by
  cases h with
  | loadDocument pages => exact absurd rfl hkind
  | restore set => exact absurd rfl hkind
  | addLabel l _ _ _ _ => exact Nat.le_succ _
  | addPatch p _ _ _ => exact Nat.le_succ _
  | _ => exact Nat.le_refl _

namespace Lacks

variable {s : Store} {r : AnnotationRef} (h : s.Lacks r)
include h

theorem apply (operation : Operation) (hedit : operation.isEdit = true) :
    (s.apply operation).2.Lacks r := by
  rcases (s.answered_apply operation).same_or_done with hsame | ⟨-, hdone⟩
  · change (s.apply operation).2 = s at hsame
    rw [hsame]
    exact h
  · have hkind := operation.editKind_ne_replace hedit
    refine ⟨Nat.lt_of_lt_of_le h.used (hdone.nextId_le hkind), fun set hset ↦ ?_⟩
    rcases (hdone.relates hkind).mem_stack hset with rfl | hold
    · rw [Bool.eq_false_iff, Ne, contains_iff]
      intro hid
      rcases hdone.mem_idsOf hkind hid with hnew | ⟨set, hset, hold⟩
      · exact Nat.ne_of_lt h.used hnew
      · rw [← contains_iff, h.absent set hset] at hold
        cases hold
    · exact h.absent set hold

theorem run (operations : List Operation)
    (hedits : ∀ operation ∈ operations, operation.isEdit = true) : (s.run operations).Lacks r := by
  induction operations generalizing s with
  | nil => exact h
  | cons operation rest ih =>
    obtain ⟨hfirst, hrest⟩ := List.forall_mem_cons.mp hedits
    exact ih (h.apply operation hfirst) hrest

theorem retireExported (exported : AnnotationSet) : (s.retireExported exported).Lacks r := by
  refine ⟨h.used, fun set hset ↦ ?_⟩
  obtain rfl := List.mem_singleton.mp hset
  rw [Bool.eq_false_iff]
  intro hcontains
  have hlive := contains_of_idsOf_subset _ s.annotations (fun kind ↦ ?_) r hcontains
  · rw [h.absent s.annotations List.mem_cons_self] at hlive
    cases hlive
  · cases kind with
    | label => exact List.map_subset _ (List.filter_subset_self _)
    | patch => exact List.map_subset _ (List.filter_subset_self _)

end Lacks

/-- What is retired is gone for good. -/
theorem lacks_retireExported {s : Store} (h : s.Invariant) (exported : AnnotationSet)
    {r : AnnotationRef} (hr : s.annotations.contains r = true)
    (hgone : (s.retireExported exported).annotations.contains r = false) :
    (s.retireExported exported).Lacks r := by
  refine ⟨?_, fun set hset ↦ ?_⟩
  · obtain ⟨page, hpage⟩ := exists_page? hr
    exact h.live.below r.id (mem_ids_of_mem_placesOf (page?_mem_placesOf hpage))
  · obtain rfl := List.mem_singleton.mp hset
    exact hgone

end Store

end Marginalia
