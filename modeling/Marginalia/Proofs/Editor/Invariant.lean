import Marginalia.Proofs.Editor.Edits
import Marginalia.Proofs.Geometry.Comparison

/-!
# The invariant of the store

Whatever is asked of a store, its annotations and every set that undo can bring back stay sound for
the open document, with all numbers below the next free one. The page lies in the document, the
selection and the hovered annotation resolve, the zoom is allowed, and the history keeps its limit.
Undo reinstates old sets while counter, page and zoom stay as they are, so the invariant speaks of
all recorded sets and not of the present one only.
-/

namespace Marginalia

open AnnotationSet

/-! ## The view -/

/-- The view fits a document and a set of its annotations. -/
structure EditorState.Fits (v : EditorState) (set : AnnotationSet) : Prop where
  page : 1 ≤ v.currentPage ∧ v.currentPage ≤ max v.totalPages 1
  selected : ∀ r, v.selected = some r → set.contains r = true
  hovered : ∀ r, v.hovered = some r → set.contains r = true
  zoom : IsZoom v.zoom

namespace EditorState

theorem clampPage_bounds (v : EditorState) (page : Nat) :
    1 ≤ v.clampPage page ∧ v.clampPage page ≤ max v.totalPages 1 := by
  unfold clampPage
  omega

theorem fits_ofPages (pages : Nat) (zoom : Scalar) (mode : EditMode) (set : AnnotationSet)
    (hzoom : IsZoom zoom) : Fits { ofPages pages with zoom, mode } set := by
  refine ⟨⟨Nat.le_refl 1, Nat.le_max_right pages 1⟩, ?_, ?_, hzoom⟩
  · intro r hr
    simp [ofPages] at hr
  · intro r hr
    simp [ofPages] at hr

/-- A view also fits every set in which the same references resolve. -/
theorem Fits.of_contains {v : EditorState} {set other : AnnotationSet} (h : v.Fits set)
    (hcontains : ∀ r, set.contains r = true → other.contains r = true) : v.Fits other where
  page := h.page
  selected := fun r hr ↦ hcontains r (h.selected r hr)
  hovered := fun r hr ↦ hcontains r (h.hovered r hr)
  zoom := h.zoom

/-- Forgetting what does not resolve makes a view fit any set. -/
theorem Fits.retain {v : EditorState} {set : AnnotationSet} (h : v.Fits set)
    (other : AnnotationSet) : (v.retainValidRefs other).Fits other where
  page := h.page
  selected := fun _ hr ↦ (Option.filter_eq_some_iff.mp hr).2
  hovered := fun _ hr ↦ (Option.filter_eq_some_iff.mp hr).2
  zoom := h.zoom

end EditorState

/-! ## The history -/

/-- All recorded sets are sound, and there are no more of them than the limit allows. -/
structure History.Fits (h : History) (pages bound : Nat) : Prop where
  sound : ∀ set ∈ h.snapshots, Sound pages bound set
  limit : 0 < h.limit
  size : h.size ≤ h.limit

namespace History

theorem fits_new (limit pages bound : Nat) : (new limit).Fits pages bound := by
  refine ⟨?_, ?_, Nat.zero_le _⟩
  · intro set hset
    exact absurd hset List.not_mem_nil
  · change 0 < max limit 1
    omega

theorem Fits.clear {h : History} {pages bound : Nat} (hfits : h.Fits pages bound)
    (pages' bound' : Nat) : h.clear.Fits pages' bound' := by
  refine ⟨?_, hfits.limit, Nat.zero_le _⟩
  intro set hset
  exact absurd hset List.not_mem_nil

theorem Fits.mono {h : History} {pages bound larger : Nat} (hfits : h.Fits pages bound)
    (hle : bound ≤ larger) : h.Fits pages larger :=
  { hfits with sound := fun set hset ↦ (hfits.sound set hset).mono hle }

theorem Fits.push {h : History} {pages bound : Nat} (hfits : h.Fits pages bound)
    (s : AnnotationSet) (hs : Sound pages bound s) : (h.push s).Fits pages bound := by
  have hlimit := hfits.limit
  have hsize := hfits.size
  unfold History.size at hsize
  unfold History.push
  split
  · next hfull =>
    refine ⟨?_, hlimit, ?_⟩
    · intro set hset
      rcases List.mem_cons.mp hset with heq | hold
      · exact heq ▸ hs
      · exact hfits.sound set (List.dropLast_subset _ hold)
    · simp only [History.size, List.length_cons, List.length_dropLast]
      omega
  · next hroom =>
    refine ⟨?_, hlimit, ?_⟩
    · intro set hset
      rcases List.mem_cons.mp hset with heq | hold
      · exact heq ▸ hs
      · exact hfits.sound set hold
    · simp only [History.size, List.length_cons]
      omega

theorem pop?_eq_some {h rest : History} {s : AnnotationSet} (hpop : h.pop? = some (s, rest)) :
    h.snapshots = s :: rest.snapshots ∧ rest.limit = h.limit := by
  unfold pop? at hpop
  cases hsnapshots : h.snapshots with
  | nil => simp [hsnapshots] at hpop
  | cons newest older =>
    simp only [hsnapshots, Option.some.injEq, Prod.mk.injEq] at hpop
    obtain ⟨rfl, rfl⟩ := hpop
    exact ⟨rfl, rfl⟩

theorem Fits.pop {h rest : History} {pages bound : Nat} {s : AnnotationSet}
    (hfits : h.Fits pages bound) (hpop : h.pop? = some (s, rest)) :
    Sound pages bound s ∧ rest.Fits pages bound := by
  obtain ⟨hsnapshots, hlimit⟩ := pop?_eq_some hpop
  have hsound := hfits.sound
  have hsize := hfits.size
  unfold History.size at hsize
  rw [hsnapshots] at hsound hsize
  refine ⟨hsound s List.mem_cons_self, ?_, ?_, ?_⟩
  · intro set hset
    exact hsound set (List.mem_cons_of_mem _ hset)
  · rw [hlimit]
    exact hfits.limit
  · rw [hlimit]
    exact Nat.le_of_succ_le hsize

end History

/-! ## The store -/

namespace Store

/-- The annotations, the view and the history of a store fit together. -/
structure Invariant (s : Store) : Prop where
  live : Sound s.state.totalPages s.nextId s.annotations
  view : s.state.Fits s.annotations
  past : s.history.Fits s.state.totalPages s.nextId

theorem invariant_new (measure : TextMeasure) (options : StoreOptions) :
    (new measure options).Invariant where
  live := sound_empty _ _
  view := EditorState.fits_ofPages 0 1 .select _ isZoom_one
  past := History.fits_new _ _ _

/-- The view may change as long as it fits. -/
theorem Invariant.withView {s : Store} (h : s.Invariant) (v : EditorState)
    (hpages : v.totalPages = s.state.totalPages) (hv : v.Fits s.annotations) :
    ({ s with state := v }.bump).Invariant where
  live := by
    change Sound v.totalPages s.nextId s.annotations
    rw [hpages]
    exact h.live
  view := hv
  past := by
    change s.history.Fits v.totalPages s.nextId
    rw [hpages]
    exact h.past

theorem Invariant.snapshot {s : Store} (h : s.Invariant) : s.snapshot.Invariant where
  live := h.live
  view := h.view
  past := h.past.push s.annotations h.live

/-- The annotations may change as long as their numbers and pages stay. -/
theorem Invariant.withPlaces {s : Store} (h : s.Invariant) (set : AnnotationSet)
    (hset : SamePlaces s.annotations set) : ({ s with annotations := set }.bump).Invariant where
  live := h.live.of_samePlaces hset
  view := h.view.of_contains fun r hr ↦ (hset.contains_eq r).symm.trans hr
  past := h.past

/-- Exchanging all annotations for sound ones forgets the history. -/
theorem Invariant.replaceAll {s : Store} (h : s.Invariant) (set : AnnotationSet) (bound : Nat)
    (hset : Sound s.state.totalPages bound set) :
    { s.replaceAll set with nextId := bound }.Invariant where
  live := hset
  view := h.view.retain set
  past := h.past.clear _ _

/-- New annotations lie on the current page, which exists as soon as there is a page. -/
theorem Invariant.currentPage_bounds {s : Store} (h : s.Invariant)
    (hpages : s.state.totalPages ≠ 0) :
    1 ≤ s.state.currentPage ∧ s.state.currentPage ≤ s.state.totalPages := by
  have hpage := h.view.page
  omega

/-- The annotations may grow by one with the next free number, as a change that is recorded. -/
theorem Invariant.grow {s : Store} (h : s.Invariant) (set : AnnotationSet)
    (hset : Sound s.state.totalPages (s.nextId + 1) set)
    (hsubset : ∀ kind, s.annotations.idsOf kind ⊆ set.idsOf kind) :
    ({ s.snapshot with annotations := set, nextId := s.nextId + 1 }.bump).Invariant where
  live := hset
  view := h.view.of_contains (contains_of_idsOf_subset s.annotations set hsubset)
  past := (h.past.mono (Nat.le_succ _)).push s.annotations (h.live.mono (Nat.le_succ _))

/-! ## Edits -/

/-- A rewritten set has the same numbers on the same pages. -/
theorem Rewrite.samePlaces {s : Store} {set : AnnotationSet} (h : Rewrite s set) :
    SamePlaces s.annotations set := by
  cases h with
  | label old new hfound hid hpage =>
    refine ⟨?_, rfl⟩
    refine (map_modifyFirst Label.id _ new.id _ s.annotations.labels ?_).symm
    intro other hother
    rw [hid] at hother
    obtain rfl := Option.some.inj (hother.symm.trans hfound)
    rw [hid, hpage]
  | color r color _ =>
    exact samePlaces_modified s.annotations r _ _ (fun _ ↦ ⟨rfl, rfl⟩) fun _ ↦ ⟨rfl, rfl⟩
  | move r dx dy _ => exact samePlaces_moved s.annotations r dx dy

theorem without_sublist (set : AnnotationSet) (r : AnnotationRef) :
    (without set r).labels.Sublist set.labels ∧ (without set r).patches.Sublist set.patches := by
  unfold without
  cases r.kind with
  | label => exact ⟨List.filter_sublist, List.Sublist.refl _⟩
  | patch => exact ⟨List.Sublist.refl _, List.filter_sublist⟩

/-- Every edit keeps the invariant. -/
theorem Invariant.edit {s s' : Store} {kind : EditKind} (h : s.Invariant)
    (hedit : Edit s kind s') : s'.Invariant := by
  cases hedit with
  | loadDocument pages =>
    exact ⟨sound_empty _ _, EditorState.fits_ofPages pages _ _ _ h.view.zoom, h.past.clear _ _⟩
  | clear => exact h.replaceAll .empty s.nextId (sound_empty _ _)
  | restore set =>
    exact h.replaceAll (admissible s.state.totalPages set) _ (sound_admissible _ set)
  | retireExported exported =>
    exact h.replaceAll _ s.nextId (h.live.of_sublist List.filter_sublist List.filter_sublist)
  | same => exact h
  | select r hcontains =>
    refine h.withView _ rfl { h.view with selected := ?_ }
    intro other hother
    obtain rfl := Option.some.inj hother
    exact hcontains
  | deselect =>
    refine h.withView _ rfl { h.view with selected := ?_ }
    intro r hr
    exact absurd hr (by simp)
  | hover r =>
    refine h.withView _ rfl { h.view with hovered := ?_ }
    intro other hother
    exact (Option.filter_eq_some_iff.mp hother).2
  | mode mode => exact h.withView _ rfl { h.view with }
  | page page =>
    refine h.withView _ rfl ⟨s.state.clampPage_bounds page, ?_, ?_, h.view.zoom⟩
    · intro r hr
      exact absurd hr (by simp)
    · intro r hr
      exact absurd hr (by simp)
  | sameZoom => exact h
  | zoom zoom => exact h.withView _ rfl { h.view with zoom := isZoom_clampZoom zoom }
  | addLabel l hid hpage hopen =>
    refine h.grow _ (h.live.addLabel l hid ?_) ?_
    · rw [hpage]
      exact h.currentPage_bounds hopen
    · intro kind
      cases kind with
      | label => exact List.map_subset _ (List.subset_append_left _ _)
      | patch => exact List.Subset.refl _
  | addPatch p hid hpage hopen =>
    refine h.grow _ (h.live.addPatch p hid ?_) ?_
    · rw [hpage]
      exact h.currentPage_bounds hopen
    · intro kind
      cases kind with
      | label => exact List.Subset.refl _
      | patch => exact List.map_subset _ (List.subset_append_left _ _)
  | rewrite set hset => exact h.snapshot.withPlaces set hset.samePlaces
  | delete r _ =>
    obtain ⟨hlabels, hpatches⟩ := without_sublist s.annotations r
    exact ⟨h.live.of_sublist hlabels hpatches, h.view.retain _, h.past.push _ h.live⟩
  | beginDrag _ => exact h.snapshot
  | drag r dx dy _ => exact h.withPlaces _ (samePlaces_moved s.annotations r dx dy)
  | undo set rest hpop =>
    obtain ⟨hsound, hrest⟩ := h.past.pop hpop
    exact ⟨hsound, h.view.retain set, hrest⟩

/-! ## Runs -/

/-- Every operation keeps the invariant. -/
theorem Invariant.apply {s : Store} (h : s.Invariant) (operation : Operation) :
    (s.apply operation).2.Invariant := by
  rcases (s.answered_apply operation).same_or_done with hsame | ⟨_, hedit⟩
  · have hstay : (s.apply operation).2 = s := hsame
    rw [hstay]
    exact h
  · exact h.edit hedit

theorem Invariant.run {s : Store} (h : s.Invariant) (operations : List Operation) :
    (s.run operations).Invariant := by
  induction operations generalizing s with
  | nil => exact h
  | cons operation rest ih => exact ih (h.apply operation)

/-- The numbers of the annotations and of all those that undo can bring back. -/
def idsInReach (s : Store) : List Nat :=
  s.annotations.ids ++ s.history.snapshots.flatMap AnnotationSet.ids

theorem Invariant.lt_nextId {s : Store} (h : s.Invariant) (id : Nat) (hid : id ∈ s.idsInReach) :
    id < s.nextId := by
  unfold idsInReach at hid
  rcases List.mem_append.mp hid with hlive | hpast
  · exact h.live.below id hlive
  · obtain ⟨set, hset, hmem⟩ := List.mem_flatMap.mp hpast
    exact (h.past.sound set hset).below id hmem

theorem addText_id (s : Store) (place : Point Scalar) (text : String) (style : TextStyle)
    (r : AnnotationRef) (h : (s.addText place text style).1 = some r) : r.id = s.nextId := by
  unfold Store.addText at h
  split at h
  · exact absurd h (by simp)
  · obtain rfl := Option.some.inj h
    rfl

theorem addRect_id (s : Store) (box : Box Scalar) (color : Color) (r : AnnotationRef)
    (h : (s.addRect box color).1 = some r) : r.id = s.nextId := by
  unfold Store.addRect at h
  split at h
  · exact absurd h (by simp)
  · obtain rfl := Option.some.inj h
    rfl

/-- Every store that operations can lead to from a new one is sound, and so is every set that undo
can bring back; an annotation that is added never shares its number with one of theirs. -/
theorem invariant_run_new (measure : TextMeasure) (options : StoreOptions)
    (operations : List Operation) :
    let s := (new measure options).run operations
    s.Invariant ∧
      (∀ place text style r,
        (s.addText place text style).1 = some r → r.id ∉ s.idsInReach) ∧
      ∀ box color r, (s.addRect box color).1 = some r → r.id ∉ s.idsInReach := by
  intro s
  have h : s.Invariant := (invariant_new measure options).run operations
  refine ⟨h, ?_, ?_⟩
  · intro place text style r hr hmem
    have hlt := h.lt_nextId r.id hmem
    rw [addText_id s place text style r hr] at hlt
    exact Nat.lt_irrefl _ hlt
  · intro box color r hr hmem
    have hlt := h.lt_nextId r.id hmem
    rw [addRect_id s box color r hr] at hlt
    exact Nat.lt_irrefl _ hlt

end Store

end Marginalia
