import Marginalia.Export.Markup
import Marginalia.Proofs.Annotation.Listing
import Marginalia.Proofs.Editor.Changes
import Marginalia.Render.Overlay

/-!
# What is hit is what is on top

A hit is decided by the numbers of the annotations, but annotations are painted in the order of the
set, on the screen as well as into an exported page. The two agree because each kind is listed by
ascending numbers: whatever is added has the largest number and comes last, and nothing else moves
an annotation in its list. Only a set that is restored can bring another order in.
-/

namespace Marginalia

/-! ## The order of painting -/

namespace Render

/-- Paint an annotation over an image. A label without text is nowhere to be seen. -/
def paintLayer (fonts : Font.Library) (scale : Scalar) (image : Image) : Mark → Image
  | .patch p => fillBox image p.bounds ⟨p.color, 255⟩ scale
  | .label l => if l.text.isEmpty then image else drawLabel fonts image l scale

/-- Paint what is over all annotations: the rectangle that is being drawn, and the frames. -/
def paintMoment (scene : Scene) (scale : Scalar) (image : Image) : Image :=
  let image := match scene.live with
    | none => image
    | some (b, color) => frameBox (fillBox image b ⟨color, 160⟩ scale) b selectionColor 1 scale
  let hovered := scene.hovered.filter fun r ↦ scene.selected ≠ some r
  let image := frameRef image scene hovered hoverColor 1 scale
  frameRef image scene scene.selected selectionColor 2 scale

/-- The overlay is painted layer by layer. -/
theorem paintOverlay_eq_layers (fonts : Font.Library) (scene : Scene) (scale : Scalar)
    (image : Image) : paintOverlay fonts scene scale image =
      paintMoment scene scale
        (scene.annotations.layers.foldl (paintLayer fonts scale) image) := by
  have hlabels (image : Image) :
      (scene.annotations.labels.filter fun l ↦ !l.text.isEmpty).foldl
          (fun image l ↦ drawLabel fonts image l scale) image =
        (scene.annotations.labels.map Mark.label).foldl (paintLayer fonts scale) image := by
    rw [List.foldl_filter, List.foldl_map]
    congr 1
    funext image l
    cases hempty : l.text.isEmpty <;> simp [paintLayer, hempty]
  rw [AnnotationSet.layers, List.foldl_append, ← hlabels, List.foldl_map]
  rfl

end Render

namespace Export

/-- The operators that paint an annotation. -/
def layerOperators (frame : PageFrame Scalar) (fonts : FamilyTable Font.Payload)
    (resources : FamilyTable String) : Mark → List Operator
  | .patch p => patchOperators frame p
  | .label l =>
    if l.text.isEmpty then []
    else
      match fonts.get? l.style.family, resources.get? l.style.family with
      | some payload, some resource => labelOperators frame payload resource l
      | _, _ => []

/-- The markup of a page is written layer by layer. -/
theorem markup_eq_layers (annotations : AnnotationSet) (page : Nat) (frame : PageFrame Scalar)
    (fonts : FamilyTable Font.Payload) (resources : FamilyTable String) :
    markup annotations page frame fonts resources =
      [.restore, .save] ++
        (annotations.layersOn page).flatMap (layerOperators frame fonts resources) ++
          [.restore] := by
  have hlabels (f : Label → List Operator) (labels : List Label) :
      (labels.filter fun l ↦ !l.text.isEmpty).flatMap f =
        labels.flatMap fun l ↦ if l.text.isEmpty then [] else f l := by
    induction labels with
    | nil => rfl
    | cons l rest ih =>
      rw [List.filter_cons, List.flatMap_cons, ← ih]
      cases l.text.isEmpty <;> rfl
  rw [AnnotationSet.layersOn, List.flatMap_append, List.flatMap_map, List.flatMap_map,
    ← List.append_assoc, markup, hlabels]
  rfl

end Export

/-- The annotations of the current page are painted in this order, both over the page on the screen
and into the page of an exported document. -/
structure Store.PaintsInOrder (s : Store) (layers : List Mark) : Prop where
  overlay : ∀ fonts pageSize live scale image,
    let scene := Render.Scene.capture s pageSize live
    Render.paintOverlay fonts scene scale image =
      Render.paintMoment scene scale (layers.foldl (Render.paintLayer fonts scale) image)
  markup : ∀ frame fonts resources,
    Export.markup s.annotations s.state.currentPage frame fonts resources =
      [.restore, .save] ++ layers.flatMap (Export.layerOperators frame fonts resources) ++
        [.restore]

/-! ## Hits -/

namespace Mark

/-- Whether a point lies in the box of an annotation. -/
def isAt (p : Point Scalar) (a : Mark) : Bool := a.bounds.contains p 0

/-- Whether a point lies in the box of a label or in the margin around it. -/
def isNear (margin : Scalar) (p : Point Scalar) : Mark → Bool
  | label l => l.bounds.contains p margin
  | patch _ => false

end Mark

namespace Store

open AnnotationSet

/-- What is hit at a point of the page whose annotations are painted in the order of `layers`. -/
inductive IsHit (layers : List Mark) (margin : Scalar) (p : Point Scalar) :
    Option AnnotationRef → Prop where
  | exact (a : Mark) (hmem : a ∈ layers) (hat : a.isAt p = true)
      (hnewest : ∀ b ∈ layers, b.isAt p = true → b.id ≤ a.id)
      (htop : ∀ b, b.kind = a.kind → [a, b].Sublist layers → b.isAt p = false) :
      IsHit layers margin p (some a.ref)
  | margin (a : Mark) (hmem : a ∈ layers) (hnear : a.isNear margin p = true)
      (hnewest : ∀ b ∈ layers, b.isNear margin p = true → b.id ≤ a.id)
      (hnone : ∀ b ∈ layers, b.isAt p = false) : IsHit layers margin p (some a.ref)
  | nothing (hnone : ∀ b ∈ layers, b.isAt p = false)
      (hfar : ∀ b ∈ layers, b.isNear margin p = false) : IsHit layers margin p none

theorem foldl_newer_eq_some {best : Option AnnotationRef} {refs : List AnnotationRef}
    {r : AnnotationRef} (h : refs.foldl newer best = some r) :
    (r ∈ refs ∨ best = some r) ∧ (∀ b ∈ refs, b.id ≤ r.id) ∧
      ∀ b, best = some b → b.id ≤ r.id := by
  induction refs generalizing best with
  | nil =>
    rw [List.foldl_nil] at h
    refine ⟨.inr h, List.forall_mem_nil _, ?_⟩
    intro b hb
    rw [hb, Option.some.injEq] at h
    exact Nat.le_of_eq (congrArg AnnotationRef.id h)
  | cons first rest ih =>
    obtain ⟨hfound, hrest, hbest⟩ := ih h
    have hnewer : ∀ b, b = first ∨ best = some b → b.id ≤ r.id := by
      intro b hb
      unfold newer at hbest
      grind
    refine ⟨?_, ?_, fun b hb ↦ hnewer b (.inr hb)⟩
    · rcases hfound with hmem | hkept
      · exact .inl (List.mem_cons_of_mem _ hmem)
      · unfold newer at hkept
        grind
    · exact List.forall_mem_cons.mpr ⟨hnewer first (.inl rfl), hrest⟩

/-- The newest of some references is one of them, and none of them has a larger number. -/
theorem newest_eq_some {refs : List AnnotationRef} {r : AnnotationRef}
    (h : newest refs = some r) : r ∈ refs ∧ ∀ b ∈ refs, b.id ≤ r.id := by
  obtain ⟨hfound, hall, -⟩ := foldl_newer_eq_some h
  refine ⟨?_, hall⟩
  rcases hfound with hmem | hnone
  · exact hmem
  · cases hnone

theorem foldl_newer_isSome (r : AnnotationRef) (refs : List AnnotationRef) :
    (refs.foldl newer (some r)).isSome := by
  induction refs generalizing r with
  | nil => rfl
  | cons first rest ih =>
    rw [List.foldl_cons, newer]
    split <;> exact ih _

theorem newest_eq_none {refs : List AnnotationRef} (h : newest refs = none) : refs = [] := by
  cases refs with
  | nil => rfl
  | cons first rest =>
    have hsome := foldl_newer_isSome first rest
    rw [newest, List.foldl_cons, newer] at h
    rw [h] at hsome
    cases hsome

/-- The references of the layers for which something is the case. -/
def refsWhere (layers : List Mark) (holds : Mark → Bool) : List AnnotationRef :=
  (layers.filter holds).map Mark.ref

theorem refsWhere_isAt (set : AnnotationSet) (page : Nat) (p : Point Scalar) :
    refsWhere (set.layersOn page) (Mark.isAt p) =
      patchesAt set page p ++ labelsAt set page p 0 := by
  rw [refsWhere, layersOn, List.filter_append, List.map_append, List.filter_map, List.filter_map,
    List.map_map, List.map_map]
  rfl

theorem refsWhere_isNear (set : AnnotationSet) (page : Nat) (margin : Scalar) (p : Point Scalar) :
    refsWhere (set.layersOn page) (Mark.isNear margin p) = labelsAt set page p margin := by
  have hpatches : (set.patchesOn page).filter (Mark.isNear margin p ∘ .patch) = [] :=
    List.filter_eq_nil_iff.mpr fun _ _ ↦ Bool.false_ne_true
  rw [refsWhere, layersOn, List.filter_append, List.map_append, List.filter_map, List.filter_map,
    List.map_map, List.map_map, hpatches]
  rfl

theorem hit?_eq (s : Store) (screen : Point Scalar) :
    s.hit? screen =
      (newest (refsWhere (s.annotations.layersOn s.state.currentPage)
        (Mark.isAt (screen.toDocument s.state.zoom)))).or
      (newest (refsWhere (s.annotations.layersOn s.state.currentPage)
        (Mark.isNear s.textHitMargin (screen.toDocument s.state.zoom)))) := by
  rw [refsWhere_isAt, refsWhere_isNear]
  rfl

theorem mem_refsWhere {layers : List Mark} {holds : Mark → Bool} {r : AnnotationRef} :
    r ∈ refsWhere layers holds ↔ ∃ a ∈ layers, holds a = true ∧ a.ref = r := by
  simp [refsWhere, and_assoc]

theorem exists_of_newest {layers : List Mark} {holds : Mark → Bool}
    {r : AnnotationRef} (h : newest (refsWhere layers holds) = some r) :
    ∃ a ∈ layers, holds a = true ∧ a.ref = r ∧ ∀ b ∈ layers, holds b = true → b.id ≤ a.id := by
  obtain ⟨hmem, hall⟩ := newest_eq_some h
  obtain ⟨a, ha, hholds, rfl⟩ := mem_refsWhere.mp hmem
  refine ⟨a, ha, hholds, rfl, ?_⟩
  intro b hb hbholds
  exact hall b.ref (mem_refsWhere.mpr ⟨b, hb, hbholds, rfl⟩)

theorem none_of_newest {layers : List Mark} {holds : Mark → Bool}
    (h : newest (refsWhere layers holds) = none) : ∀ b ∈ layers, holds b = false := by
  intro b hb
  rw [Bool.eq_false_iff]
  intro hholds
  have hmem : b.ref ∈ refsWhere layers holds := mem_refsWhere.mpr ⟨b, hb, hholds, rfl⟩
  rw [newest_eq_none h] at hmem
  cases hmem

/-- Where the numbers ascend in the order of painting, the newest annotation is on top. -/
theorem isHit_hit? {s : Store} (h : s.annotations.IsAscending) (screen : Point Scalar) :
    IsHit (s.annotations.layersOn s.state.currentPage) s.textHitMargin
      (screen.toDocument s.state.zoom) (s.hit? screen) := by
  rw [hit?_eq]
  cases hexact : newest (refsWhere (s.annotations.layersOn s.state.currentPage)
      (Mark.isAt (screen.toDocument s.state.zoom))) with
  | some r =>
    obtain ⟨a, hmem, hat, rfl, hnewest⟩ := exists_of_newest hexact
    refine .exact a hmem hat hnewest ?_
    intro b hkind hlater
    rw [Bool.eq_false_iff]
    intro hb
    have hle := hnewest b (hlater.subset (by simp)) hb
    exact Nat.not_le_of_lt (h.id_lt hlater hkind) hle
  | none =>
    have hnone := none_of_newest hexact
    rw [Option.none_or]
    cases hnear : newest (refsWhere (s.annotations.layersOn s.state.currentPage)
        (Mark.isNear s.textHitMargin (screen.toDocument s.state.zoom))) with
    | some r =>
      obtain ⟨a, hmem, hin, rfl, hnewest⟩ := exists_of_newest hnear
      exact .margin a hmem hin hnewest hnone
    | none => exact .nothing hnone (none_of_newest hnear)

/-! ## Ascending numbers -/

/-- Whatever is made of ascending lists, they stay ascending, unless others are restored. -/
theorem Change.isAscending {s : Store} (hs : s.Invariant) {operation : Operation}
    {set : AnnotationSet} (hchange : Change s operation set) (h : s.annotations.IsAscending)
    (hsorted : ∀ restored, operation = .restore restored → restored.IsSorted) :
    set.IsAscending := by
  cases hchange with
  | fewer _ hlabels hpatches => exact h.of_sublist hlabels hpatches
  | restored restored hrestored => exact isAscending_admissible (hsorted restored hrestored) _
  | label l hid _ => exact h.addLabel fun id hmem ↦ hid ▸ hs.live.below id hmem
  | patch p hid => exact h.addPatch fun id hmem ↦ hid ▸ hs.live.below id hmem
  | rewrite _ hrewrite => exact h.of_samePlaces hrewrite.samePlaces

theorem isAscending_run_new (measure : TextMeasure) (options : StoreOptions)
    {operations : List Operation} (hsorted : ∀ set, .restore set ∈ operations → set.IsSorted) :
    ∀ set ∈ ((new measure options).run operations).stack, set.IsAscending := by
  refine forall_mem_stack_run Invariant (fun _ operation hs ↦ hs.apply operation) ?_
    (invariant_new measure options) (List.forall_mem_singleton.mpr isAscending_empty)
  intro s hs h operation hoperation set hchange
  exact hchange.isAscending hs h fun restored heq ↦ hsorted restored (heq ▸ hoperation)

/-- As long as each set that is restored lists each kind by ascending numbers, so do the present
set and all sets that undo can bring back, and annotations are painted by ascending numbers. What is
hit at a point is an annotation of the current page that contains it, the newest one of all and so
the one on top of its kind; if there is none, a label in whose margin the point lies; and nothing if
there is no such label either. -/
theorem hits_are_on_top (measure : TextMeasure) (options : StoreOptions)
    (operations : List Operation)
    (hsorted : ∀ set, .restore set ∈ operations → set.IsSorted) :
    let s := (new measure options).run operations
    let layers := s.annotations.layersOn s.state.currentPage
    (∀ set ∈ s.stack, set.IsAscending) ∧ s.PaintsInOrder layers ∧
      (∀ a ∈ layers, s.annotations.page? a.ref = some s.state.currentPage ∧
        s.annotations.bounds? a.ref = some a.bounds) ∧
      ∀ screen, IsHit layers s.textHitMargin (screen.toDocument s.state.zoom) (s.hit? screen) := by
  intro s layers
  have hascending := isAscending_run_new measure options hsorted
  have hinvariant : s.Invariant := (invariant_new measure options).run operations
  have hpresent := hascending s.annotations List.mem_cons_self
  refine ⟨hascending, ⟨?_, ?_⟩, ?_, isHit_hit? hpresent⟩
  · intro fonts pageSize live scale image scene
    exact Render.paintOverlay_eq_layers fonts scene scale image
  · intro frame fonts resources
    exact Export.markup_eq_layers s.annotations s.state.currentPage frame fonts resources
  · intro a ha
    obtain ⟨hmem, hpage⟩ := mem_layersOn.mp ha
    rw [← hpage]
    exact resolves_of_mem hinvariant.live.distinct hmem

/-- Two patches that overlap are restored below a label; a third one is drawn over both and taken
back. -/
def stacked : List Operation :=
  [.loadDocument 1,
    .restore ⟨[⟨3, 1, 200, 216, "ab", .standard, 17.6, 16⟩],
      [⟨1, 1, 10, 10, 50, 50, .white⟩, ⟨2, 1, 30, 30, 50, 50, .black⟩]⟩,
    .addRect ⟨20, 20, 60, 60⟩ .black, .undo]

theorem isSorted_stacked (set : AnnotationSet) (h : .restore set ∈ stacked) : set.IsSorted := by
  simp only [stacked, List.mem_cons, List.not_mem_nil, reduceCtorEq, Operation.restore.injEq,
    false_or, or_false] at h
  subst h
  intro kind
  cases kind <;> decide

/-- Then the second patch is hit where both are, and the label a little beside its box. -/
theorem hits_are_on_top_stacked :
    (∀ set, .restore set ∈ stacked → set.IsSorted) ∧
      let s := (new .approximate .standard).run stacked
      let isHit (screen : Point Scalar) := IsHit (s.annotations.layersOn s.state.currentPage)
        s.textHitMargin (screen.toDocument s.state.zoom)
      (∀ set ∈ s.stack, set.IsAscending) ∧ isHit ⟨40, 40⟩ (some ⟨.patch, 2⟩) ∧
        isHit ⟨197, 210⟩ (some ⟨.label, 3⟩) ∧ isHit ⟨5, 5⟩ none := by
  obtain ⟨hascending, -, -, hhits⟩ :=
    hits_are_on_top .approximate .standard stacked isSorted_stacked
  have hboth : ((new .approximate .standard).run stacked).hit? ⟨40, 40⟩ = some ⟨.patch, 2⟩ := by
    decide +kernel
  have hbeside : ((new .approximate .standard).run stacked).hit? ⟨197, 210⟩ =
      some ⟨.label, 3⟩ := by decide +kernel
  have hfar : ((new .approximate .standard).run stacked).hit? ⟨5, 5⟩ = none := by decide +kernel
  exact ⟨isSorted_stacked, hascending, hboth ▸ hhits ⟨40, 40⟩, hbeside ▸ hhits ⟨197, 210⟩,
    hfar ▸ hhits ⟨5, 5⟩⟩

end Store

end Marginalia
