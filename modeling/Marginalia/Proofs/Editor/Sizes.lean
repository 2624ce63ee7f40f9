import Marginalia.Proofs.Editor.Changes

/-!
# The sizes of labels

The size of a label is kept beside the text and the style that it follows from. Whatever adds a
label or changes its text, its font size or its family measures it again, and undo brings back
labels that had been measured. Only a restored set is taken over with the sizes that it says, so the
one way for a size to be wrong is to have been wrong in a set that was restored.
-/

namespace Marginalia

/-- The color of a text does not matter for its size. -/
def TextMeasure.IgnoresColor (measure : TextMeasure) : Prop :=
  ∀ text style color, measure text { style with color } = measure text style

theorem TextMeasure.ignoresColor_approximate : approximate.IgnoresColor :=
  fun _ _ _ ↦ rfl

namespace Label

/-- A label has the size of its text. -/
def IsMeasured (measure : TextMeasure) (l : Label) : Prop :=
  measure l.text l.style = ⟨l.width, l.height⟩

instance (measure : TextMeasure) (l : Label) : Decidable (l.IsMeasured measure) :=
  inferInstanceAs (Decidable (_ = _))

/-- The box above the baseline that the text of a label takes. -/
def realBox (measure : TextMeasure) (l : Label) : Box Scalar :=
  let size := measure l.text l.style
  ⟨l.x, l.y - size.height, size.width, size.height⟩

theorem IsMeasured.bounds_eq {measure : TextMeasure} {l : Label} (h : l.IsMeasured measure) :
    l.bounds = l.realBox measure := by
  rw [realBox, h]
  rfl

/-- The labels have the same number, text, font size and family, and are taken to be equally
large. -/
structure SetAlike (a b : Label) : Prop where
  id : a.id = b.id
  text : a.text = b.text
  fontSize : a.style.fontSize = b.style.fontSize
  family : a.style.family = b.style.family
  width : a.width = b.width
  height : a.height = b.height

theorem SetAlike.refl (l : Label) : l.SetAlike l := ⟨rfl, rfl, rfl, rfl, rfl, rfl⟩

theorem SetAlike.trans {a b c : Label} (h : a.SetAlike b) (h' : b.SetAlike c) : a.SetAlike c :=
  ⟨h.id.trans h'.id, h.text.trans h'.text, h.fontSize.trans h'.fontSize, h.family.trans h'.family,
    h.width.trans h'.width, h.height.trans h'.height⟩

/-- Labels that are set alike are measured alike. -/
theorem SetAlike.isMeasured {measure : TextMeasure} (hcolor : measure.IgnoresColor) {a b : Label}
    (h : a.SetAlike b) (hb : b.IsMeasured measure) : a.IsMeasured measure := by
  have hstyle : a.style = { b.style with color := a.style.color } := by
    simp only [← h.fontSize, ← h.family]
  rw [IsMeasured, h.text, h.width, h.height, hstyle, hcolor]
  exact hb

end Label

namespace Store

open AnnotationSet

/-- The label has the size of its text, or it is set like a label that did not have that and was in
a restored set. -/
def IsAccounted (measure : TextMeasure) (operations : List Operation) (l : Label) : Prop :=
  l.IsMeasured measure ∨ ∃ set, .restore set ∈ operations ∧
    ∃ old ∈ set.labels, l.SetAlike old ∧ ¬old.IsMeasured measure

theorem IsAccounted.of_setAlike {measure : TextMeasure} (hcolor : measure.IgnoresColor)
    {operations : List Operation} {a b : Label} (hb : IsAccounted measure operations b)
    (h : a.SetAlike b) : IsAccounted measure operations a := by
  rcases hb with hmeasured | ⟨set, hset, old, hold, halike, hstale⟩
  · exact .inl (h.isMeasured hcolor hmeasured)
  · exact .inr ⟨set, hset, old, hold, h.trans halike, hstale⟩

/-! ## Changes -/

theorem mem_modifyFirst {α : Type} {id : α → Nat} {f : α → α} {n : Nat} {as : List α} {b : α}
    (h : b ∈ modifyFirst id f n as) : b ∈ as ∨ ∃ a ∈ as, b = f a := by
  induction as with
  | nil => exact .inl h
  | cons a rest ih =>
    unfold modifyFirst at h
    split at h
    · rcases List.mem_cons.mp h with hb | hb
      · exact .inr ⟨a, List.mem_cons_self, hb⟩
      · exact .inl (List.mem_cons_of_mem a hb)
    · rcases List.mem_cons.mp h with hb | hb
      · exact .inl (hb ▸ List.mem_cons_self)
      · rcases ih hb with hold | ⟨c, hc, heq⟩
        · exact .inl (List.mem_cons_of_mem a hold)
        · exact .inr ⟨c, List.mem_cons_of_mem a hc, heq⟩

theorem mem_labels_modified {set : AnnotationSet} {r : AnnotationRef} {label : Label → Label}
    {patch : Patch → Patch} {l : Label} (h : l ∈ (modified set r label patch).labels) :
    l ∈ set.labels ∨ ∃ old ∈ set.labels, l = label old := by
  unfold modified at h
  cases hkind : r.kind with
  | label =>
    rw [hkind] at h
    exact mem_modifyFirst h
  | patch =>
    rw [hkind] at h
    exact .inl h

/-- A rewritten set has labels that were there, were measured again, or are set as before. -/
theorem Rewrite.mem_labels {s : Store} {set : AnnotationSet} (h : Rewrite s set) {l : Label}
    (hl : l ∈ set.labels) :
    l ∈ s.annotations.labels ∨ l.IsMeasured s.measure ∨
      ∃ old ∈ s.annotations.labels, l.SetAlike old := by
  cases h with
  | label old new hfound hid hpage hsize =>
    rcases mem_modifyFirst hl with hsame | ⟨_, _, rfl⟩
    · exact .inl hsame
    · exact .inr (.inl hsize)
  | color r color hselected =>
    rcases mem_labels_modified hl with hsame | ⟨old, hold, rfl⟩
    · exact .inl hsame
    · exact .inr (.inr ⟨old, hold, rfl, rfl, rfl, rfl, rfl, rfl⟩)
  | move r dx dy hvalid =>
    rcases mem_labels_modified hl with hsame | ⟨old, hold, rfl⟩
    · exact .inl hsame
    · exact .inr (.inr ⟨old, hold, rfl, rfl, rfl, rfl, rfl, rfl⟩)

/-- What is made of labels that are accounted for is accounted for as well. -/
theorem Change.isAccounted {s : Store} (hcolor : s.measure.IgnoresColor)
    {operations : List Operation} {operation : Operation} (hoperation : operation ∈ operations)
    {set : AnnotationSet} (hchange : Change s operation set)
    (h : ∀ l ∈ s.annotations.labels, IsAccounted s.measure operations l) :
    ∀ l ∈ set.labels, IsAccounted s.measure operations l := by
  intro l hl
  cases hchange with
  | fewer _ hlabels _ => exact h l (hlabels.subset hl)
  | restored restored hrestored =>
    have hmem : l ∈ restored.labels := (admissible_sublist _ _).1.subset hl
    by_cases hmeasured : l.IsMeasured s.measure
    · exact .inl hmeasured
    · exact .inr ⟨restored, hrestored ▸ hoperation, l, hmem, .refl l, hmeasured⟩
  | label new _ hsize =>
    rcases List.mem_append.mp hl with hold | hnew
    · exact h l hold
    · rw [List.mem_singleton.mp hnew]
      exact .inl hsize
  | patch => exact h l hl
  | rewrite _ hrewrite =>
    rcases hrewrite.mem_labels hl with hsame | hmeasured | ⟨old, hold, halike⟩
    · exact h l hsame
    · exact .inl hmeasured
    · exact (h old hold).of_setAlike hcolor halike

/-! ## Runs -/

theorem Edit.measure_eq {s s' : Store} {kind : EditKind} (h : Edit s kind s') :
    s'.measure = s.measure := by
  cases h <;> rfl

theorem measure_apply (s : Store) (operation : Operation) :
    (s.apply operation).2.measure = s.measure := by
  rcases (s.answered_apply operation).same_or_done with hsame | ⟨-, hedit⟩
  · exact congrArg Store.measure hsame
  · exact hedit.measure_eq

/-- A label, present or brought back by undo, whose size is not that of its text was restored with
this text, font size, family and size. So if the labels of all restored sets have the sizes of their
texts, all labels always have, and the box in which a label is hit and framed is the real one. -/
theorem sizes_follow_texts (measure : TextMeasure) (hcolor : measure.IgnoresColor)
    (options : StoreOptions) (operations : List Operation) :
    let s := (new measure options).run operations
    (∀ set ∈ s.stack, ∀ l ∈ set.labels, ¬l.IsMeasured measure →
        ∃ restored, .restore restored ∈ operations ∧
          ∃ old ∈ restored.labels, l.SetAlike old ∧ ¬old.IsMeasured measure) ∧
      ((∀ restored, .restore restored ∈ operations →
          ∀ l ∈ restored.labels, l.IsMeasured measure) →
        ∀ set ∈ s.stack, ∀ l ∈ set.labels,
          l.IsMeasured measure ∧ l.bounds = l.realBox measure) := by
  intro s
  have haccounted : ∀ set ∈ s.stack, ∀ l ∈ set.labels, IsAccounted measure operations l := by
    refine forall_mem_stack_run (fun s ↦ s.measure = measure)
      (fun s operation hs ↦ (s.measure_apply operation).trans hs) ?_ rfl
      (List.forall_mem_singleton.mpr (List.forall_mem_nil _))
    rintro s rfl h operation hoperation set hchange
    exact hchange.isAccounted hcolor hoperation h
  constructor
  · intro set hset l hl hstale
    exact (haccounted set hset l hl).resolve_left hstale
  · intro hrestored set hset l hl
    have hmeasured : l.IsMeasured measure := by
      rcases haccounted set hset l hl with hmeasured | ⟨restored, hmem, old, hold, -, hstale⟩
      · exact hmeasured
      · exact absurd (hrestored restored hmem old hold) hstale
    exact ⟨hmeasured, hmeasured.bounds_eq⟩

/-- A label is restored with a size, another one is added, and the first one is colored. -/
def recolored (size : Size Scalar) : List Operation :=
  [.loadDocument 1,
    .restore ⟨[⟨1, 1, 10, 50, "abc", .standard, size.width, size.height⟩], []⟩,
    .addText ⟨100, 50⟩ "ab" .standard, .select ⟨.label, 1⟩, .updateColor .white]

/-- A label that was restored without its size is the one that has none; with its size, both labels
have theirs. -/
theorem sizes_follow_texts_recolored :
    TextMeasure.approximate.IgnoresColor ∧
      (∃ l ∈ ((new .approximate .standard).run (recolored ⟨0, 0⟩)).annotations.labels,
        l.style.color = .white ∧ ∃ restored, .restore restored ∈ recolored ⟨0, 0⟩ ∧
          ∃ old ∈ restored.labels, l.SetAlike old ∧ ¬old.IsMeasured .approximate) ∧
      let size := TextMeasure.approximate "abc" .standard
      (∀ restored, .restore restored ∈ recolored size →
          ∀ l ∈ restored.labels, l.IsMeasured .approximate) ∧
        ∀ l ∈ ((new .approximate .standard).run (recolored size)).annotations.labels,
          l.IsMeasured .approximate ∧ l.bounds = l.realBox .approximate := by
  have hcolor := TextMeasure.ignoresColor_approximate
  refine ⟨hcolor, ?_, ?_⟩
  · have hstale : ∃ l ∈ ((new .approximate .standard).run (recolored ⟨0, 0⟩)).annotations.labels,
        l.style.color = .white ∧ ¬l.IsMeasured .approximate := by decide +kernel
    obtain ⟨l, hl, hwhite, hstale⟩ := hstale
    obtain ⟨horigin, -⟩ :=
      sizes_follow_texts .approximate hcolor .standard (recolored ⟨0, 0⟩)
    exact ⟨l, hl, hwhite, horigin _ List.mem_cons_self l hl hstale⟩
  · intro size
    have hrestored : ∀ restored, .restore restored ∈ recolored size →
        ∀ l ∈ restored.labels, l.IsMeasured .approximate := by
      intro restored hmem
      simp only [recolored, List.mem_cons, List.not_mem_nil, reduceCtorEq,
        Operation.restore.injEq, false_or, or_false] at hmem
      subst hmem
      exact List.forall_mem_singleton.mpr rfl
    obtain ⟨-, hmeasured⟩ :=
      sizes_follow_texts .approximate hcolor .standard (recolored size)
    exact ⟨hrestored, hmeasured hrestored _ List.mem_cons_self⟩

/-- A label that is restored without a size is neither as large as its text nor hit where that
is. -/
theorem not_isMeasured_after_restore :
    let label : Label := ⟨1, 1, 10, 50, "abc", .standard, 0, 0⟩
    let s := (new .approximate .standard).run [.loadDocument 1, .restore ⟨[label], []⟩]
    label ∈ s.annotations.labels ∧ ¬label.IsMeasured .approximate ∧
      (label.realBox .approximate).contains ⟨15, 45⟩ 0 = true ∧ s.hit? ⟨15, 45⟩ = none := by
  decide +kernel

end Store

end Marginalia
