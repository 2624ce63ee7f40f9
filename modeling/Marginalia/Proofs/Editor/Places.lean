import Mathlib.Data.List.Nodup
import Mathlib.Logic.Function.Basic
import Marginalia.Proofs.Editor.Undo

/-!
# The pages of annotations

An annotation never changes its page, and undo brings it back on the page where it was. So one table
of pages serves the annotations of a store and all sets that undo can bring back, and what is
selected or hovered on the current page stays there until it is forgotten.
-/

namespace Marginalia

namespace AnnotationSet

/-! ## Places -/

/-- The numbers of the annotations of a kind with their pages. -/
def placesOf (s : AnnotationSet) : AnnotationKind → List (Nat × Nat)
  | .label => s.labels.map fun l ↦ (l.id, l.page)
  | .patch => s.patches.map fun p ↦ (p.id, p.page)

theorem idsOf_eq_placesOf (s : AnnotationSet) (kind : AnnotationKind) :
    s.idsOf kind = (s.placesOf kind).map Prod.fst := by
  cases kind with
  | label => simp [idsOf, placesOf, Function.comp_def]
  | patch => simp [idsOf, placesOf, Function.comp_def]

theorem SamePlaces.placesOf_eq {s t : AnnotationSet} (h : SamePlaces s t)
    (kind : AnnotationKind) : s.placesOf kind = t.placesOf kind := by
  cases kind with
  | label => exact h.labels
  | patch => exact h.patches

theorem placesOf_subset {s t : AnnotationSet} (hlabels : t.labels ⊆ s.labels)
    (hpatches : t.patches ⊆ s.patches) (kind : AnnotationKind) :
    t.placesOf kind ⊆ s.placesOf kind := by
  cases kind with
  | label => exact List.map_subset _ hlabels
  | patch => exact List.map_subset _ hpatches

/-- A reference resolves where the set has a place for it. -/
theorem page?_mem_placesOf {s : AnnotationSet} {r : AnnotationRef} {page : Nat}
    (h : s.page? r = some page) : (r.id, page) ∈ s.placesOf r.kind := by
  unfold page? at h
  cases hkind : r.kind with
  | label =>
    simp only [hkind, label?, Option.map_eq_some_iff] at h
    obtain ⟨l, hfound, rfl⟩ := h
    have hid : l.id = r.id := by simpa using List.find?_some hfound
    rw [← hid]
    exact List.mem_map_of_mem (f := fun l : Label ↦ (l.id, l.page))
      (List.mem_of_find?_eq_some hfound)
  | patch =>
    simp only [hkind, patch?, Option.map_eq_some_iff] at h
    obtain ⟨p, hfound, rfl⟩ := h
    have hid : p.id = r.id := by simpa using List.find?_some hfound
    rw [← hid]
    exact List.mem_map_of_mem (f := fun p : Patch ↦ (p.id, p.page))
      (List.mem_of_find?_eq_some hfound)

/-- What is in a set lies on some page. -/
theorem exists_page? {s : AnnotationSet} {r : AnnotationRef} (h : s.contains r = true) :
    ∃ page, s.page? r = some page := by
  unfold contains at h
  unfold page?
  cases hkind : r.kind with
  | label =>
    simp only [hkind] at h
    obtain ⟨l, hl⟩ := Option.isSome_iff_exists.mp h
    exact ⟨l.page, by rw [hl]; rfl⟩
  | patch =>
    simp only [hkind] at h
    obtain ⟨p, hp⟩ := Option.isSome_iff_exists.mp h
    exact ⟨p.page, by rw [hp]; rfl⟩

/-- The annotations of a set lie on the pages that a table says. -/
def LiesBy (s : AnnotationSet) (pageOf : AnnotationRef → Nat) : Prop :=
  ∀ kind, ∀ place ∈ s.placesOf kind, pageOf ⟨kind, place.1⟩ = place.2

theorem LiesBy.of_subset {s t : AnnotationSet} {pageOf : AnnotationRef → Nat} (h : s.LiesBy pageOf)
    (hsubset : ∀ kind, t.placesOf kind ⊆ s.placesOf kind) : t.LiesBy pageOf :=
  fun kind place hplace ↦ h kind place (hsubset kind hplace)

theorem LiesBy.of_samePlaces {s t : AnnotationSet} {pageOf : AnnotationRef → Nat}
    (h : s.LiesBy pageOf) (hsame : SamePlaces s t) : t.LiesBy pageOf :=
  h.of_subset fun kind ↦ (hsame.placesOf_eq kind).symm ▸ List.Subset.refl _

/-- The table says where a reference resolves to. -/
theorem LiesBy.page? {s : AnnotationSet} {pageOf : AnnotationRef → Nat} (h : s.LiesBy pageOf)
    {r : AnnotationRef} (hr : s.contains r = true) : s.page? r = some (pageOf r) := by
  obtain ⟨page, hpage⟩ := exists_page? hr
  rw [hpage, h r.kind (r.id, page) (page?_mem_placesOf hpage)]

theorem mem_ids_of_mem_placesOf {s : AnnotationSet} {kind : AnnotationKind} {place : Nat × Nat}
    (h : place ∈ s.placesOf kind) : place.1 ∈ s.ids := by
  have hid : place.1 ∈ s.idsOf kind := by
    rw [idsOf_eq_placesOf]
    exact List.mem_map_of_mem h
  cases kind with
  | label => exact List.mem_append_left _ hid
  | patch => exact List.mem_append_right _ hid

/-- A table may say anything of a number that is not in use. -/
theorem LiesBy.update {s : AnnotationSet} {pageOf : AnnotationRef → Nat} {bound : Nat}
    (h : s.LiesBy pageOf) (hbelow : ∀ id ∈ s.ids, id < bound) (kind : AnnotationKind)
    (page : Nat) : s.LiesBy (Function.update pageOf ⟨kind, bound⟩ page) := by
  intro other place hplace
  have hlt := hbelow _ (mem_ids_of_mem_placesOf hplace)
  rw [Function.update_of_ne]
  · exact h other place hplace
  · intro heq
    exact Nat.ne_of_lt hlt (congrArg AnnotationRef.id heq)

theorem LiesBy.addLabel {s : AnnotationSet} {pageOf : AnnotationRef → Nat} (h : s.LiesBy pageOf)
    (l : Label) (hl : pageOf l.ref = l.page) :
    LiesBy { s with labels := s.labels ++ [l] } pageOf := by
  intro kind place hplace
  cases kind with
  | label =>
    rw [placesOf, List.map_append] at hplace
    rcases List.mem_append.mp hplace with hold | hnew
    · exact h .label place hold
    · rw [List.mem_singleton.mp hnew]
      exact hl
  | patch => exact h .patch place hplace

theorem LiesBy.addPatch {s : AnnotationSet} {pageOf : AnnotationRef → Nat} (h : s.LiesBy pageOf)
    (p : Patch) (hp : pageOf p.ref = p.page) :
    LiesBy { s with patches := s.patches ++ [p] } pageOf := by
  intro kind place hplace
  cases kind with
  | label => exact h .label place hplace
  | patch =>
    rw [placesOf, List.map_append] at hplace
    rcases List.mem_append.mp hplace with hold | hnew
    · exact h .patch place hold
    · rw [List.mem_singleton.mp hnew]
      exact hp

/-- No two annotations of a kind have the same number, so none has two pages. -/
theorem Sound.place_unique {pages bound : Nat} {s : AnnotationSet} (h : Sound pages bound s)
    {kind : AnnotationKind} {place other : Nat × Nat} (hplace : place ∈ s.placesOf kind)
    (hother : other ∈ s.placesOf kind) (hid : place.1 = other.1) : place = other := by
  have hdistinct : ((s.placesOf kind).map Prod.fst).Nodup := by
    rw [← idsOf_eq_placesOf]
    cases kind with
    | label => exact (List.nodup_append.mp h.distinct).1
    | patch => exact (List.nodup_append.mp h.distinct).2.1
  exact List.inj_on_of_nodup_map hdistinct hplace hother hid

/-- A set without repeated numbers has a table of its own. -/
theorem Sound.liesBy {pages bound : Nat} {s : AnnotationSet} (h : Sound pages bound s) :
    s.LiesBy fun r ↦ (s.page? r).getD 0 := by
  intro kind place hplace
  have hcontains : s.contains ⟨kind, place.1⟩ = true := by
    rw [contains_iff, idsOf_eq_placesOf]
    exact List.mem_map_of_mem hplace
  obtain ⟨page, hpage⟩ := exists_page? hcontains
  have hsame := h.place_unique (page?_mem_placesOf hpage) hplace rfl
  simp only [hpage, Option.getD_some]
  exact congrArg Prod.snd hsame

end AnnotationSet

/-! ## The view -/

/-- A view refers to an annotation that is selected or hovered. -/
def EditorState.Refers (v : EditorState) (r : AnnotationRef) : Prop :=
  v.selected = some r ∨ v.hovered = some r

namespace Store

open AnnotationSet

/-- An annotation of the current page. -/
def HasHere (s : Store) (r : AnnotationRef) : Prop :=
  (r.id, s.state.currentPage) ∈ s.annotations.placesOf r.kind

/-- A table of pages serves a store: all sets of its stack lie by it, and what the view refers to
lies on the current page. -/
structure PlacedBy (s : Store) (pageOf : AnnotationRef → Nat) : Prop where
  stack : ∀ set ∈ s.stack, set.LiesBy pageOf
  view : ∀ r, s.state.Refers r → pageOf r = s.state.currentPage

/-- Some table of pages serves a store. -/
def Placed (s : Store) : Prop := ∃ pageOf, s.PlacedBy pageOf

theorem placed_new (measure : TextMeasure) (options : StoreOptions) :
    (new measure options).Placed := by
  refine ⟨fun _ ↦ 0, ?_, ?_⟩
  · intro set hset kind place hplace
    obtain rfl := List.mem_singleton.mp hset
    cases kind <;> cases hplace
  · intro r hr
    rcases hr with hr | hr <;> cases hr

/-- What the view refers to lies on the current page. -/
theorem Placed.page? {s : Store} (h : s.Placed) (hinv : s.Invariant) {r : AnnotationRef}
    (hr : s.state.Refers r) : s.annotations.page? r = some s.state.currentPage := by
  obtain ⟨pageOf, hstack, hview⟩ := h
  have hcontains : s.annotations.contains r = true :=
    hr.elim (hinv.view.selected r) (hinv.view.hovered r)
  rw [(hstack s.annotations List.mem_cons_self).page? hcontains, hview r hr]

/-! ## Edits -/

/-- An edit lets the view refer to nothing new, unless it is one that marks something. -/
theorem Edit.refers {s s' : Store} {kind : EditKind} (h : Edit s kind s') (hkind : kind ≠ .mark)
    {r : AnnotationRef} (hr : s'.state.Refers r) : s.state.Refers r := by
  have hretained (set : AnnotationSet) (hr : (s.state.retainValidRefs set).Refers r) :
      s.state.Refers r :=
    hr.imp (fun h ↦ (Option.filter_eq_some_iff.mp h).1) fun h ↦ (Option.filter_eq_some_iff.mp h).1
  cases h with
  | loadDocument pages => rcases hr with hr | hr <;> cases hr
  | clear => exact hretained _ hr
  | restore set => exact hretained _ hr
  | retireExported exported => exact hretained _ hr
  | page page => rcases hr with hr | hr <;> cases hr
  | delete r _ => exact hretained _ hr
  | undo set rest _ => exact hretained _ hr
  | same => exact absurd rfl hkind
  | select r _ => exact absurd rfl hkind
  | deselect => exact absurd rfl hkind
  | hover r => exact absurd rfl hkind
  | mode mode => exact absurd rfl hkind
  | _ => exact hr

theorem mem_stack_push {set : AnnotationSet} {s : Store}
    (h : set ∈ (s.history.push s.annotations).snapshots) : set ∈ s.stack := by
  unfold History.push at h
  split at h
  · rcases List.mem_cons.mp h with rfl | hold
    · exact List.mem_cons_self
    · exact List.mem_cons_of_mem _ (List.dropLast_subset _ hold)
  · exact h

theorem Invariant.lt_of_mem_stack {s : Store} (h : s.Invariant) {set : AnnotationSet}
    (hset : set ∈ s.stack) : ∀ id ∈ set.ids, id < s.nextId := by
  rcases List.mem_cons.mp hset with rfl | hpast
  · exact h.live.below
  · exact (h.past.sound set hpast).below

/-- A store without a past that refers to nothing is placed by its own annotations. -/
theorem placed_of_cleared {s : Store} (h : s.Invariant) (hcleared : s.history.snapshots = [])
    (hrefers : ∀ r, ¬s.state.Refers r) : s.Placed := by
  refine ⟨fun r ↦ (s.annotations.page? r).getD 0, ?_, fun r hr ↦ absurd hr (hrefers r)⟩
  intro set hset
  rw [stack, hcleared] at hset
  rw [List.mem_singleton.mp hset]
  exact h.live.liesBy

namespace PlacedBy

variable {s : Store} {pageOf : AnnotationRef → Nat} (h : s.PlacedBy pageOf)
include h

theorem live : s.annotations.LiesBy pageOf := h.stack s.annotations List.mem_cons_self

/-- The same table serves a store whose stack lies by it, if the page stays and the view refers to
annotations of the page. -/
theorem mono {s' : Store} (hstack : ∀ set ∈ s'.stack, set.LiesBy pageOf)
    (hpage : s'.state.currentPage = s.state.currentPage)
    (hrefers : ∀ r, s'.state.Refers r → s.state.Refers r ∨ s.HasHere r) : s'.PlacedBy pageOf := by
  refine ⟨hstack, fun r hr ↦ ?_⟩
  rw [hpage]
  rcases hrefers r hr with hbefore | hhere
  · exact h.view r hbefore
  · exact h.live r.kind _ hhere

/-- Another set may take the place of the annotations if it lies by the table. -/
theorem stack_cons {set : AnnotationSet} (hset : set.LiesBy pageOf) :
    ∀ other ∈ set :: s.history.snapshots, other.LiesBy pageOf := by
  intro other hother
  rcases List.mem_cons.mp hother with rfl | hpast
  · exact hset
  · exact h.stack other (List.mem_cons_of_mem _ hpast)

/-- It may do so after the annotations have been recorded, too. -/
theorem stack_cons_push {set : AnnotationSet} (hset : set.LiesBy pageOf) :
    ∀ other ∈ set :: (s.history.push s.annotations).snapshots, other.LiesBy pageOf := by
  intro other hother
  rcases List.mem_cons.mp hother with rfl | hpast
  · exact hset
  · exact h.stack other (mem_stack_push hpast)

/-- A table that serves a store can be extended to the next free number. -/
theorem update (hinv : s.Invariant) (kind : AnnotationKind) (page : Nat) :
    s.PlacedBy (Function.update pageOf ⟨kind, s.nextId⟩ page) := by
  refine ⟨fun set hset ↦ (h.stack set hset).update (hinv.lt_of_mem_stack hset) kind page, ?_⟩
  intro r hr
  have hcontains : s.annotations.contains r = true :=
    hr.elim (hinv.view.selected r) (hinv.view.hovered r)
  obtain ⟨other, hother⟩ := exists_page? hcontains
  have hlt := hinv.live.below _ (mem_ids_of_mem_placesOf (page?_mem_placesOf hother))
  rw [Function.update_of_ne]
  · exact h.view r hr
  · intro heq
    exact Nat.ne_of_lt hlt (congrArg AnnotationRef.id heq)

end PlacedBy

/-- Every edit that marks annotations of the current page only, and restores none, leaves a store
placed. -/
theorem Placed.edit {s s' : Store} {kind : EditKind} (h : s.Placed) (hinv : s.Invariant)
    (hedit : Edit s kind s')
    (hrefers : ∀ r, s'.state.Refers r → s.state.Refers r ∨ s.HasHere r)
    (hfewer : kind = .replace →
      ∀ other, s'.annotations.placesOf other ⊆ s.annotations.placesOf other) : s'.Placed := by
  obtain ⟨pageOf, h⟩ := h
  have hcleared (set : AnnotationSet)
      (hset : ∀ other, set.placesOf other ⊆ s.annotations.placesOf other) :
      ∀ other ∈ [set], other.LiesBy pageOf := by
    intro other hother
    rw [List.mem_singleton.mp hother]
    exact h.live.of_subset hset
  cases hedit with
  | loadDocument pages =>
    refine placed_of_cleared (hinv.edit (.loadDocument pages)) rfl fun r hr ↦ ?_
    rcases hr with hr | hr <;> cases hr
  | clear => exact ⟨pageOf, h.mono (hcleared _ (hfewer rfl)) rfl hrefers⟩
  | restore set => exact ⟨pageOf, h.mono (hcleared _ (hfewer rfl)) rfl hrefers⟩
  | retireExported exported => exact ⟨pageOf, h.mono (hcleared _ (hfewer rfl)) rfl hrefers⟩
  | same => exact ⟨pageOf, h⟩
  | select r _ => exact ⟨pageOf, h.mono h.stack rfl hrefers⟩
  | deselect => exact ⟨pageOf, h.mono h.stack rfl hrefers⟩
  | hover r => exact ⟨pageOf, h.mono h.stack rfl hrefers⟩
  | mode mode => exact ⟨pageOf, h.mono h.stack rfl hrefers⟩
  | page page =>
    refine ⟨pageOf, h.stack, fun r hr ↦ ?_⟩
    rcases hr with hr | hr <;> cases hr
  | sameZoom => exact ⟨pageOf, h⟩
  | zoom zoom => exact ⟨pageOf, h.mono h.stack rfl hrefers⟩
  | addLabel l hid hpage _ =>
    have hmore := h.update hinv .label s.state.currentPage
    have hlive := hmore.live.addLabel l (by rw [Label.ref, hid, Function.update_self, hpage])
    exact ⟨_, hmore.mono (hmore.stack_cons_push hlive) rfl hrefers⟩
  | addPatch p hid hpage _ =>
    have hmore := h.update hinv .patch s.state.currentPage
    have hlive := hmore.live.addPatch p (by rw [Patch.ref, hid, Function.update_self, hpage])
    exact ⟨_, hmore.mono (hmore.stack_cons_push hlive) rfl hrefers⟩
  | rewrite set hset =>
    exact ⟨pageOf, h.mono (h.stack_cons_push (h.live.of_samePlaces hset.samePlaces)) rfl hrefers⟩
  | delete r _ =>
    obtain ⟨hlabels, hpatches⟩ := without_sublist s.annotations r
    have hlive := h.live.of_subset (placesOf_subset hlabels.subset hpatches.subset)
    exact ⟨pageOf, h.mono (h.stack_cons_push hlive) rfl hrefers⟩
  | beginDrag _ => exact ⟨pageOf, h.mono (h.stack_cons_push h.live) rfl hrefers⟩
  | drag r dx dy _ =>
    have hlive := h.live.of_samePlaces (samePlaces_moved s.annotations r dx dy)
    exact ⟨pageOf, h.mono (h.stack_cons hlive) rfl hrefers⟩
  | undo set rest hpop =>
    refine ⟨pageOf, h.mono (fun other hother ↦ h.stack other ?_) rfl hrefers⟩
    rw [stack, (History.pop?_eq_some hpop).1]
    exact List.mem_cons_of_mem _ hother

/-! ## What is hit -/

/-- The later of two references is one of them. -/
theorem newer_eq_or (best : Option AnnotationRef) (r : AnnotationRef) :
    newer best r = best ∨ newer best r = some r := by
  unfold newer
  split
  · exact Or.inr rfl
  · split
    · exact Or.inl rfl
    · exact Or.inr rfl

theorem mem_of_foldl_newer {refs : List AnnotationRef} {best : Option AnnotationRef}
    {r : AnnotationRef} (h : refs.foldl newer best = some r) : best = some r ∨ r ∈ refs := by
  induction refs generalizing best with
  | nil => exact Or.inl h
  | cons first rest ih =>
    rcases ih h with hnewer | hrest
    · rcases newer_eq_or best first with hbest | hfirst
      · exact Or.inl (hbest.symm.trans hnewer)
      · rw [Option.some.inj (hnewer.symm.trans hfirst)]
        exact Or.inr List.mem_cons_self
    · exact Or.inr (List.mem_cons_of_mem _ hrest)

theorem mem_of_newest {refs : List AnnotationRef} {r : AnnotationRef}
    (h : newest refs = some r) : r ∈ refs :=
  (mem_of_foldl_newer h).resolve_left (by simp)

theorem place_of_mem_patchesAt {set : AnnotationSet} {page : Nat} {p : Point Scalar}
    {r : AnnotationRef} (h : r ∈ patchesAt set page p) : (r.id, page) ∈ set.placesOf r.kind := by
  obtain ⟨patch, hpatch, rfl⟩ := List.mem_map.mp h
  obtain ⟨hmem, hpage⟩ := List.mem_filter.mp (List.mem_filter.mp hpatch).1
  rw [← beq_iff_eq.mp hpage]
  exact List.mem_map_of_mem (f := fun p : Patch ↦ (p.id, p.page)) hmem

theorem place_of_mem_labelsAt {set : AnnotationSet} {page : Nat} {p : Point Scalar}
    {margin : Scalar} {r : AnnotationRef} (h : r ∈ labelsAt set page p margin) :
    (r.id, page) ∈ set.placesOf r.kind := by
  obtain ⟨l, hl, rfl⟩ := List.mem_map.mp h
  obtain ⟨hmem, hpage⟩ := List.mem_filter.mp (List.mem_filter.mp hl).1
  rw [← beq_iff_eq.mp hpage]
  exact List.mem_map_of_mem (f := fun l : Label ↦ (l.id, l.page)) hmem

/-- What is hit lies on the current page. -/
theorem hasHere_of_hit? {s : Store} {screen : Point Scalar} {r : AnnotationRef}
    (h : s.hit? screen = some r) : s.HasHere r := by
  rcases Option.or_eq_some_iff.mp h with hexact | ⟨_, hnear⟩
  · rcases List.mem_append.mp (mem_of_newest hexact) with hpatch | hlabel
    · exact place_of_mem_patchesAt hpatch
    · exact place_of_mem_labelsAt hlabel
  · exact place_of_mem_labelsAt (mem_of_newest hnear)

/-! ## Operations -/

/-- The operations that mark nothing but annotations of the current page, and that restore nothing
while the view refers to an annotation. -/
def Operation.Aims (s : Store) : Operation → Prop
  | .select r => s.HasHere r
  | .setHovered r => ∀ hovered, r = some hovered → s.HasHere hovered
  | .restore _ => ∀ r, ¬s.state.Refers r
  | _ => True

theorem select_refers (s : Store) (r other : AnnotationRef)
    (h : (s.select r).2.state.Refers other) : s.state.Refers other ∨ other = r := by
  unfold select at h
  split at h
  · exact Or.inl h
  · split at h
    · exact Or.inl h
    · rcases h with hselected | hhovered
      · exact Or.inr (Option.some.inj hselected).symm
      · exact Or.inl (Or.inr hhovered)

theorem deselect_refers (s : Store) (r : AnnotationRef) (h : s.deselect.2.state.Refers r) :
    s.state.Refers r := by
  unfold deselect at h
  split at h
  · exact h
  · rcases h with hselected | hhovered
    · cases hselected
    · exact Or.inr hhovered

theorem setHovered_refers (s : Store) (r : Option AnnotationRef) (other : AnnotationRef)
    (h : (s.setHovered r).2.state.Refers other) : s.state.Refers other ∨ r = some other := by
  unfold setHovered at h
  dsimp only at h
  split at h
  · exact Or.inl h
  · rcases h with hselected | hhovered
    · exact Or.inl (Or.inl hselected)
    · exact Or.inr (Option.filter_eq_some_iff.mp hhovered).1

theorem setMode_refers (s : Store) (mode : EditMode) (r : AnnotationRef)
    (h : (s.setMode mode).2.state.Refers r) : s.state.Refers r := by
  unfold setMode at h
  split at h
  · exact h
  · exact h

/-- An operation that aims well lets the view refer to nothing new but annotations of the page. -/
theorem refers_apply (s : Store) (operation : Operation) (haims : operation.Aims s)
    (r : AnnotationRef) (h : (s.apply operation).2.state.Refers r) :
    s.state.Refers r ∨ s.HasHere r := by
  have hedit (hkind : operation.editKind ≠ .mark) : s.state.Refers r := by
    rcases (s.answered_apply operation).same_or_done with hsame | ⟨_, hdone⟩
    · rw [show (s.apply operation).2 = s from hsame] at h
      exact h
    · exact hdone.refers hkind h
  cases operation with
  | hit screen => exact Or.inl h
  | selectionContains screen => exact Or.inl h
  | select other => exact (s.select_refers other r h).imp id (by rintro rfl; exact haims)
  | deselect => exact Or.inl (s.deselect_refers r h)
  | setHovered other => exact (s.setHovered_refers other r h).imp id (haims r)
  | setMode mode => exact Or.inl (s.setMode_refers mode r h)
  | _ => exact Or.inl (hedit (by simp [Operation.editKind]))

theorem Placed.apply {s : Store} (h : s.Placed) (hinv : s.Invariant) (operation : Operation)
    (haims : operation.Aims s) : (s.apply operation).2.Placed := by
  have hrefers := s.refers_apply operation haims
  have hedited (hfewer : operation.editKind = .replace → ∀ other,
      (s.apply operation).2.annotations.placesOf other ⊆ s.annotations.placesOf other) :
      (s.apply operation).2.Placed := by
    rcases (s.answered_apply operation).same_or_done with hsame | ⟨_, hdone⟩
    · rw [show (s.apply operation).2 = s from hsame]
      exact h
    · exact h.edit hinv hdone hrefers hfewer
  cases operation with
  | restore set =>
    refine placed_of_cleared (hinv.apply (.restore set)) rfl fun r hr ↦ ?_
    have hedit : Edit s .replace (s.restore set) := .restore set
    exact haims r (hedit.refers (by simp) hr)
  | loadDocument pages => exact hedited fun _ other ↦ by cases other <;> exact List.nil_subset _
  | clear => exact hedited fun _ other ↦ by cases other <;> exact List.nil_subset _
  | retireExported exported =>
    exact hedited fun _ ↦ placesOf_subset List.filter_sublist.subset List.filter_sublist.subset
  | _ => exact hedited fun hkind ↦ by simp [Operation.editKind] at hkind

end Store

end Marginalia
