import Marginalia.Proofs.Editor.Retiring

/-!
# New sets of annotations

An operation makes at most one new set of the present annotations, and there are five ways in which
it can do so. All other sets of the stack were in it before. So what the five ways keep is true of
every set that is ever in the stack.
-/

namespace Marginalia

namespace Store

/-- What an operation can make of the present annotations. -/
inductive Change (s : Store) (operation : Operation) : AnnotationSet → Prop where
  | fewer (set : AnnotationSet) (hlabels : set.labels.Sublist s.annotations.labels)
      (hpatches : set.patches.Sublist s.annotations.patches) : Change s operation set
  | restored (set : AnnotationSet) (h : operation = .restore set) :
      Change s operation (admissible s.state.totalPages set)
  | label (l : Label) (hid : l.id = s.nextId)
      (hsize : s.measure l.text l.style = ⟨l.width, l.height⟩) :
      Change s operation { s.annotations with labels := s.annotations.labels ++ [l] }
  | patch (p : Patch) (hid : p.id = s.nextId) :
      Change s operation { s.annotations with patches := s.annotations.patches ++ [p] }
  | rewrite (set : AnnotationSet) (h : Rewrite s set) : Change s operation set

/-! ## One operation -/

/-- The annotations after an edit that does not replace them all. -/
theorem Edit.mem_stack_or_change {s s' : Store} {kind : EditKind} (hedit : Edit s kind s')
    (hkind : kind ≠ .replace) (operation : Operation) :
    s'.annotations ∈ s.stack ∨ Change s operation s'.annotations := by
  cases hedit with
  | loadDocument | clear | restore | retireExported => exact absurd rfl hkind
  | same | select | deselect | hover | mode | page | sameZoom | zoom | beginDrag =>
    exact .inl List.mem_cons_self
  | addLabel l hid hpage hopen hsize => exact .inr (.label l hid hsize)
  | addPatch p hid hpage hopen => exact .inr (.patch p hid)
  | rewrite set hset => exact .inr (.rewrite set hset)
  | delete r hvalid =>
    obtain ⟨hlabels, hpatches⟩ := without_sublist s.annotations r
    exact .inr (.fewer _ hlabels hpatches)
  | drag r dx dy hvalid => exact .inr (.rewrite _ (.move r dx dy hvalid))
  | undo newest rest hpop =>
    obtain ⟨hsnapshots, -⟩ := History.pop?_eq_some hpop
    rw [stack, hsnapshots]
    exact .inl (List.mem_cons_of_mem _ List.mem_cons_self)

/-- Exchanging all annotations leaves nothing that undo could bring back. -/
theorem eq_of_mem_stack_cleared {s : Store} {set : AnnotationSet} (h : set ∈ s.stack)
    (hcleared : s.history.snapshots = []) : set = s.annotations := by
  rw [stack, hcleared] at h
  exact List.mem_singleton.mp h

/-- An edit of the open document makes at most one new set. -/
theorem mem_stack_edit (s : Store) {operation : Operation} (hedit : operation.isEdit = true)
    {set : AnnotationSet} (h : set ∈ (s.apply operation).2.stack) :
    set ∈ s.stack ∨ Change s operation set := by
  rcases (s.relates_apply operation hedit).mem_stack h with rfl | hold
  · rcases (s.answered_apply operation).same_or_done with hsame | ⟨-, hdone⟩
    · have hstay : (s.apply operation).2 = s := hsame
      rw [hstay]
      exact .inl List.mem_cons_self
    · exact hdone.mem_stack_or_change (operation.editKind_ne_replace hedit) operation
  · exact .inl hold

/-- An operation makes at most one new set, which is a change of the present one. -/
theorem mem_stack_apply (s : Store) (operation : Operation) {set : AnnotationSet}
    (h : set ∈ (s.apply operation).2.stack) : set ∈ s.stack ∨ Change s operation set := by
  cases operation with
  | loadDocument | clear =>
    rw [eq_of_mem_stack_cleared h rfl]
    exact .inr (.fewer _ (List.nil_sublist _) (List.nil_sublist _))
  | restore restored =>
    rw [eq_of_mem_stack_cleared h rfl]
    exact .inr (.restored restored rfl)
  | retireExported exported =>
    rw [eq_of_mem_stack_cleared h rfl]
    exact .inr (.fewer _ List.filter_sublist List.filter_sublist)
  | _ => exact s.mem_stack_edit rfl h

/-! ## Runs -/

/-- What is true of all sets of the stack stays true as long as it is true of what operations make
of the present one; `I` is what may be used of the store itself. -/
theorem forall_mem_stack_run (I : Store → Prop) {P : AnnotationSet → Prop}
    {operations : List Operation} (hkeeps : ∀ s operation, I s → I (s.apply operation).2)
    (hchange : ∀ s, I s → P s.annotations → ∀ operation ∈ operations, ∀ set,
      Change s operation set → P set)
    {s : Store} (hs : I s) (hstack : ∀ set ∈ s.stack, P set) :
    ∀ set ∈ (s.run operations).stack, P set := by
  induction operations generalizing s with
  | nil => exact hstack
  | cons operation rest ih =>
    have hfirst := hchange s hs (hstack _ List.mem_cons_self) operation List.mem_cons_self
    have hrest := fun s hs hP other hother ↦
      hchange s hs hP other (List.mem_cons_of_mem operation hother)
    refine ih hrest (hkeeps s operation hs) ?_
    intro set hset
    exact (mem_stack_apply s operation hset).elim (hstack set) (hfirst set)

end Store

end Marginalia
