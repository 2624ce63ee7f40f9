import Mathlib.Data.Option.Basic
import Marginalia.Editor.Store.Operation
import Marginalia.Proofs.Annotation.Sets

/-!
# What an edit changes

Every operation on a store is refused, or changes the store in one of a few ways. This is the only
place that looks into the operations one by one: whatever a store keeps is proved by cases on
`Store.Edit`.
-/

namespace Marginalia.Store

/-! ## Edits -/

/-- How the annotations can change when one of them is exchanged for another with the same number
on the same page. -/
inductive Rewrite (s : Store) : AnnotationSet → Prop where
  | label (old new : Label) (hfound : s.annotations.label? old.id = some old)
      (hid : new.id = old.id) (hpage : new.page = old.page)
      (hsize : s.measure new.text new.style = ⟨new.width, new.height⟩) :
      Rewrite s { s.annotations with
        labels := modifyFirst Label.id (fun _ ↦ new) new.id s.annotations.labels }
  | color (r : AnnotationRef) (color : Color) (h : s.state.selected = some r) :
      Rewrite s (modified s.annotations r
        (fun l ↦ { l with style := { l.style with color } }) fun p ↦ { p with color })
  | move (r : AnnotationRef) (dx dy : Scalar) (h : s.validSelection? = some r) :
      Rewrite s (moved s.annotations r dx dy)

/-- The kinds of operations. -/
inductive EditKind where
  | replace
  | mark
  | page
  | zoom
  | add
  | rewrite
  | delete
  | beginDrag
  | drag
  | undo
  deriving DecidableEq, Repr

/-- How a store can follow another by an operation of a kind. -/
inductive Edit (s : Store) : EditKind → Store → Prop where
  | loadDocument (pages : Nat) : Edit s .replace (s.loadDocument pages)
  | clear : Edit s .replace s.clear
  | restore (set : AnnotationSet) : Edit s .replace (s.restore set)
  | retireExported (exported : AnnotationSet) : Edit s .replace (s.retireExported exported)
  | same : Edit s .mark s
  | select (r : AnnotationRef) (h : s.annotations.contains r = true) :
      Edit s .mark { s with state := { s.state with selected := some r } }.bump
  | deselect : Edit s .mark { s with state := { s.state with selected := none } }.bump
  | hover (r : Option AnnotationRef) :
      Edit s .mark
        { s with state := { s.state with hovered := r.filter s.annotations.contains } }.bump
  | mode (mode : EditMode) : Edit s .mark { s with state := { s.state with mode } }.bump
  | page (page : Nat) :
      Edit s .page { s with
        state := { s.state with
          currentPage := s.state.clampPage page, selected := none, hovered := none } }.bump
  | sameZoom : Edit s .zoom s
  | zoom (zoom : Scalar) :
      Edit s .zoom { s with state := { s.state with zoom := clampZoom zoom } }.bump
  | addLabel (l : Label) (hid : l.id = s.nextId) (hpage : l.page = s.state.currentPage)
      (hopen : s.state.totalPages ≠ 0) (hsize : s.measure l.text l.style = ⟨l.width, l.height⟩) :
      Edit s .add { s.snapshot with
        annotations := { s.annotations with labels := s.annotations.labels ++ [l] }
        nextId := s.nextId + 1 }.bump
  | addPatch (p : Patch) (hid : p.id = s.nextId) (hpage : p.page = s.state.currentPage)
      (hopen : s.state.totalPages ≠ 0) :
      Edit s .add { s.snapshot with
        annotations := { s.annotations with patches := s.annotations.patches ++ [p] }
        nextId := s.nextId + 1 }.bump
  | rewrite (set : AnnotationSet) (h : Rewrite s set) :
      Edit s .rewrite { s.snapshot with annotations := set }.bump
  | delete (r : AnnotationRef) (h : s.validSelection? = some r) :
      Edit s .delete { s.snapshot with
        annotations := without s.annotations r
        state := s.state.retainValidRefs (without s.annotations r) }.bump
  | beginDrag (h : s.validSelection? ≠ none) : Edit s .beginDrag s.snapshot
  | drag (r : AnnotationRef) (dx dy : Scalar) (h : s.validSelection? = some r) :
      Edit s .drag { s with annotations := moved s.annotations r dx dy }.bump
  | undo (set : AnnotationSet) (rest : History) (hpop : s.history.pop? = some (set, rest)) :
      Edit s .undo { s with
        annotations := set, history := rest, state := s.state.retainValidRefs set }.bump

/-- An answer with the store after it: either nothing was done, or an edit of this kind. -/
inductive Answered (kind : EditKind) (s : Store) : Bool × Store → Prop where
  | refused : Answered kind s (false, s)
  | done (s' : Store) (h : Edit s kind s') : Answered kind s (true, s')

/-- A change that is refused changes nothing. -/
theorem Answered.same_or_done {kind : EditKind} {s : Store} {change : Bool × Store}
    (h : Answered kind s change) : change.2 = s ∨ (change.1 = true ∧ Edit s kind change.2) := by
  cases h with
  | refused => exact Or.inl rfl
  | done s' hedit => exact Or.inr ⟨rfl, hedit⟩

/-! ## Adding -/

theorem answered_addText (s : Store) (place : Point Scalar) (text : String) (style : TextStyle) :
    Answered .add s ((s.addText place text style).map Option.isSome id) := by
  unfold Store.addText
  split
  · exact .refused
  · next hadd =>
    have hopen : s.state.totalPages ≠ 0 := by
      intro hzero
      simp [hzero] at hadd
    exact .done _ (.addLabel _ rfl rfl hopen rfl)

theorem answered_addRect (s : Store) (box : Box Scalar) (color : Color) :
    Answered .add s ((s.addRect box color).map Option.isSome id) := by
  unfold Store.addRect
  split
  · exact .refused
  · next hadd =>
    have hopen : s.state.totalPages ≠ 0 := by
      intro hzero
      simp [hzero] at hadd
    exact .done _ (.addPatch _ rfl rfl hopen)

/-! ## The view -/

theorem answered_select (s : Store) (r : AnnotationRef) : Answered .mark s (s.select r) := by
  unfold select
  split
  · exact .refused
  · next hcontains =>
    split
    · exact .done s .same
    · exact .done _ (.select r (by simpa using hcontains))

theorem answered_deselect (s : Store) : Answered .mark s s.deselect := by
  unfold deselect
  split
  · exact .refused
  · exact .done _ .deselect

theorem answered_setHovered (s : Store) (r : Option AnnotationRef) :
    Answered .mark s (s.setHovered r) := by
  unfold setHovered
  dsimp only
  split
  · exact .refused
  · exact .done _ (.hover r)

theorem answered_setMode (s : Store) (mode : EditMode) : Answered .mark s (s.setMode mode) := by
  unfold setMode
  split
  · exact .refused
  · exact .done _ (.mode mode)

theorem answered_setPage (s : Store) (page : Nat) : Answered .page s (s.setPage page) := by
  unfold setPage
  dsimp only
  split
  · exact .refused
  · exact .done _ (.page page)

theorem edit_setZoom (s : Store) (zoom : Scalar) : Edit s .zoom (s.setZoom zoom).2 := by
  unfold setZoom
  dsimp only
  split
  · exact .sameZoom
  · exact .zoom zoom

/-! ## The selected annotation -/

theorem selectedLabel?_eq_some (s : Store) (l : Label) (h : s.selectedLabel? = some l) :
    ∃ r, s.state.selected = some r ∧ r.kind = .label ∧ s.annotations.label? r.id = some l := by
  unfold selectedLabel? at h
  cases hselected : s.state.selected with
  | none => simp [hselected] at h
  | some r =>
    by_cases hkind : r.kind = .label
    · refine ⟨r, rfl, hkind, ?_⟩
      simpa [hselected, hkind, guard] using h
    · simp [hselected, hkind, guard, failure] at h

/-- Whatever edit of a label leaves its number and page alone rewrites it. -/
theorem answered_editLabel (s : Store) (edit : Label → Option Label)
    (hedit : ∀ l l', edit l = some l' → l'.id = l.id ∧ l'.page = l.page) :
    Answered .rewrite s (s.editLabel edit) := by
  unfold editLabel
  split
  · exact .refused
  · next changed hchanged =>
    obtain ⟨old, hold, hedited⟩ := Option.bind_eq_some_iff.mp hchanged
    obtain ⟨r, _, _, hfound⟩ := s.selectedLabel?_eq_some old hold
    obtain ⟨hid, hpage⟩ := hedit old changed hedited
    have hown : s.annotations.label? old.id = some old := by
      rw [AnnotationSet.label?_id s.annotations r.id old hfound]
      exact hfound
    exact .done _ (.rewrite _ (.label old _ hown hid hpage rfl))

theorem answered_updateText (s : Store) (text : String) :
    Answered .rewrite s (s.updateText text) := by
  refine s.answered_editLabel _ ?_
  intro l l' hl
  split at hl
  · exact absurd hl (by simp)
  · obtain rfl := Option.some.inj hl
    exact ⟨rfl, rfl⟩

theorem answered_updateFontSize (s : Store) (fontSize : Scalar) :
    Answered .rewrite s (s.updateFontSize fontSize) := by
  unfold updateFontSize
  split
  · refine s.answered_editLabel _ ?_
    intro l l' hl
    split at hl
    · exact absurd hl (by simp)
    · obtain rfl := Option.some.inj hl
      exact ⟨rfl, rfl⟩
  · exact .refused

theorem answered_updateFamily (s : Store) (family : FontFamily) :
    Answered .rewrite s (s.updateFamily family) := by
  refine s.answered_editLabel _ ?_
  intro l l' hl
  split at hl
  · exact absurd hl (by simp)
  · obtain rfl := Option.some.inj hl
    exact ⟨rfl, rfl⟩

theorem answered_updateColor (s : Store) (color : Color) :
    Answered .rewrite s (s.updateColor color) := by
  unfold updateColor
  split
  · exact .refused
  · next r hselected =>
    split
    · exact .refused
    · split
      · exact .refused
      · exact .done _ (.rewrite _ (.color r color hselected))

theorem answered_delete (s : Store) : Answered .delete s s.delete := by
  unfold delete
  split
  · exact .refused
  · next r hvalid => exact .done _ (.delete r hvalid)

theorem answered_nudge (s : Store) (dx dy : Scalar) : Answered .rewrite s (s.nudge dx dy) := by
  unfold nudge
  split
  · exact .refused
  · next r hvalid =>
    split
    · exact .refused
    · exact .done _ (.rewrite _ (.move r dx dy hvalid))

theorem answered_beginDrag (s : Store) : Answered .beginDrag s s.beginDrag := by
  unfold beginDrag
  split
  · exact .refused
  · next hvalid => exact .done _ (.beginDrag (by simpa using hvalid))

theorem answered_drag (s : Store) (dx dy : Scalar) : Answered .drag s (s.drag dx dy) := by
  unfold drag
  split
  · exact .refused
  · next r hvalid => exact .done _ (.drag r dx dy hvalid)

/-- Where a drag cannot begin, nothing is dragged. -/
theorem drag_of_beginDrag_refused (s : Store) (dx dy : Scalar) (h : s.beginDrag.1 = false) :
    s.beginDrag.2 = s ∧ s.drag dx dy = (false, s) := by
  unfold beginDrag at h ⊢
  unfold drag
  cases hvalid : s.validSelection? with
  | none => exact ⟨rfl, rfl⟩
  | some r =>
    rw [hvalid] at h
    cases h

theorem answered_undo (s : Store) : Answered .undo s s.undo := by
  unfold undo
  split
  · exact .refused
  · next set rest hpop => exact .done _ (.undo set rest hpop)

/-! ## All operations -/

/-- Whether an answer says that something was done. -/
def Answer.isDone : Answer → Bool
  | .nothing => true
  | .flag value => value
  | .ref value => value.isSome
  | .zoom _ => true

/-- The kind of an operation. -/
def Operation.editKind : Operation → EditKind
  | .loadDocument _ => .replace
  | .clear => .replace
  | .restore _ => .replace
  | .retireExported _ => .replace
  | .addText _ _ _ => .add
  | .addRect _ _ => .add
  | .hit _ => .mark
  | .selectionContains _ => .mark
  | .select _ => .mark
  | .deselect => .mark
  | .setHovered _ => .mark
  | .setMode _ => .mark
  | .setPage _ => .page
  | .setZoom _ => .zoom
  | .updateText _ => .rewrite
  | .updateFontSize _ => .rewrite
  | .updateFamily _ => .rewrite
  | .updateColor _ => .rewrite
  | .delete => .delete
  | .nudge _ _ => .rewrite
  | .beginDrag => .beginDrag
  | .drag _ _ => .drag
  | .undo => .undo

/-- Asking for something changes nothing, whatever the answer is. -/
theorem answered_same (s : Store) (done : Bool) : Answered .mark s (done, s) := by
  cases done with
  | false => exact .refused
  | true => exact .done s .same

/-- Every operation is refused or an edit of its kind. -/
theorem answered_apply (s : Store) (operation : Operation) :
    Answered operation.editKind s ((s.apply operation).map Answer.isDone id) := by
  cases operation with
  | loadDocument pages => exact .done _ (.loadDocument pages)
  | clear => exact .done _ .clear
  | restore set => exact .done _ (.restore set)
  | retireExported exported => exact .done _ (.retireExported exported)
  | addText place text style => exact s.answered_addText place text style
  | addRect box color => exact s.answered_addRect box color
  | hit screen => exact s.answered_same _
  | selectionContains screen => exact s.answered_same _
  | select r => exact s.answered_select r
  | deselect => exact s.answered_deselect
  | setHovered r => exact s.answered_setHovered r
  | setMode mode => exact s.answered_setMode mode
  | setPage page => exact s.answered_setPage page
  | setZoom zoom => exact .done _ (s.edit_setZoom zoom)
  | updateText text => exact s.answered_updateText text
  | updateFontSize fontSize => exact s.answered_updateFontSize fontSize
  | updateFamily family => exact s.answered_updateFamily family
  | updateColor color => exact s.answered_updateColor color
  | delete => exact s.answered_delete
  | nudge dx dy => exact s.answered_nudge dx dy
  | beginDrag => exact s.answered_beginDrag
  | drag dx dy => exact s.answered_drag dx dy
  | undo => exact s.answered_undo

end Marginalia.Store
