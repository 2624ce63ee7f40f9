import Marginalia.Proofs.Editor.Invariant

/-!
# Undo

Every editing operation either leaves the history alone, or records the annotations before it
changes them, or goes back to the newest recorded ones; only a drag changes annotations that it does
not record. The annotations and the recorded sets together are a stack, of which the history keeps
the newest part.
-/

namespace Marginalia

/-- What an operation turns out to be for the history. -/
inductive HistoryEffect where
  | kept
  | recorded
  | undone
  | dragged
  deriving DecidableEq, Repr

namespace HistoryEffect

/-- How far back a set of the stack is after an operation. -/
def depthAfter : HistoryEffect → Nat → Nat
  | .kept, depth => depth
  | .recorded, depth => depth + 1
  | .undone, depth => depth - 1
  | .dragged, depth => depth

/-- How a store may follow another by an operation of this effect. -/
def Relates (effect : HistoryEffect) (s s' : Store) : Prop :=
  match effect with
  | .kept => s'.annotations = s.annotations ∧ s'.history = s.history
  | .recorded => s'.history = s.history.push s.annotations
  | .undone => s.history.pop? = some (s'.annotations, s'.history)
  | .dragged => s'.history = s.history

end HistoryEffect

namespace Store

/-- The operations on an open document, which leave its number of pages alone. -/
def Operation.isEdit : Operation → Bool
  | .loadDocument _ => false
  | .clear => false
  | .restore _ => false
  | .retireExported _ => false
  | _ => true

/-- What an operation is for the history when it is done. -/
def Operation.historyEffect : Operation → HistoryEffect
  | .addText _ _ _ => .recorded
  | .addRect _ _ => .recorded
  | .updateText _ => .recorded
  | .updateFontSize _ => .recorded
  | .updateFamily _ => .recorded
  | .updateColor _ => .recorded
  | .delete => .recorded
  | .nudge _ _ => .recorded
  | .beginDrag => .recorded
  | .drag _ _ => .dragged
  | .undo => .undone
  | _ => .kept

/-- What an operation turns out to be for the history; one that is refused is nothing. -/
def historyEffect (s : Store) (operation : Operation) : HistoryEffect :=
  if (s.apply operation).1.isDone then operation.historyEffect else .kept

/-- An operation has the effect of its kind or none. -/
theorem historyEffect_eq_or (s : Store) (operation : Operation) :
    s.historyEffect operation = operation.historyEffect ∨ s.historyEffect operation = .kept := by
  unfold historyEffect
  split
  · exact Or.inl rfl
  · exact Or.inr rfl

theorem historyEffect_ne (s : Store) (operation : Operation) {effect : HistoryEffect}
    (hkept : effect ≠ .kept) (hkind : operation.historyEffect ≠ effect) :
    s.historyEffect operation ≠ effect := by
  rcases s.historyEffect_eq_or operation with heffect | heffect
  · rw [heffect]
    exact hkind
  · rw [heffect]
    exact hkept.symm

/-! ## Single operations -/

/-- What an edit of a kind is for the history. -/
def EditKind.historyEffect : EditKind → HistoryEffect
  | .add => .recorded
  | .rewrite => .recorded
  | .delete => .recorded
  | .beginDrag => .recorded
  | .drag => .dragged
  | .undo => .undone
  | _ => .kept

theorem Operation.historyEffect_eq (operation : Operation) :
    operation.historyEffect = operation.editKind.historyEffect := by
  cases operation <;> rfl

theorem Operation.editKind_ne_replace (operation : Operation) (h : operation.isEdit = true) :
    operation.editKind ≠ .replace := by
  cases operation <;> simp [isEdit] at h <;> simp [editKind]

/-- An edit of an open document acts on annotations and history as its effect says. -/
theorem Edit.relates {s s' : Store} {kind : EditKind} (h : Edit s kind s')
    (hkind : kind ≠ .replace) : kind.historyEffect.Relates s s' := by
  cases h with
  | loadDocument pages => exact absurd rfl hkind
  | clear => exact absurd rfl hkind
  | restore set => exact absurd rfl hkind
  | retireExported exported => exact absurd rfl hkind
  | same => exact ⟨rfl, rfl⟩
  | select r _ => exact ⟨rfl, rfl⟩
  | deselect => exact ⟨rfl, rfl⟩
  | hover r => exact ⟨rfl, rfl⟩
  | mode mode => exact ⟨rfl, rfl⟩
  | page page => exact ⟨rfl, rfl⟩
  | sameZoom => exact ⟨rfl, rfl⟩
  | zoom zoom => exact ⟨rfl, rfl⟩
  | addLabel l _ _ _ => rfl
  | addPatch p _ _ _ => rfl
  | rewrite set _ => rfl
  | delete r _ => rfl
  | beginDrag _ => rfl
  | drag r dx dy _ => rfl
  | undo set rest hpop => exact hpop

/-- Every editing operation acts on annotations and history as its effect says. -/
theorem relates_apply (s : Store) (operation : Operation) (hedit : operation.isEdit = true) :
    (s.historyEffect operation).Relates s (s.apply operation).2 := by
  have hanswered := s.answered_apply operation
  have hkind := operation.editKind_ne_replace hedit
  unfold historyEffect
  rw [operation.historyEffect_eq]
  generalize hchange : (s.apply operation).map Answer.isDone id = change at hanswered
  have hdone : (s.apply operation).1.isDone = change.1 := congrArg Prod.fst hchange
  have hafter : (s.apply operation).2 = change.2 := congrArg Prod.snd hchange
  rw [hdone, hafter]
  cases hanswered with
  | refused => exact ⟨rfl, rfl⟩
  | done s' h => exact h.relates hkind

/-! ## The stack -/

/-- The annotations and all that undo can bring back, newest first. -/
def stack (s : Store) : List AnnotationSet := s.annotations :: s.history.snapshots

end Store

theorem History.push_limit (h : History) (set : AnnotationSet) :
    (h.push set).limit = h.limit := by
  unfold History.push
  split
  · rfl
  · rfl

/-- Recording a set pushes the others one down, as far as the limit reaches. -/
theorem History.push_snapshots (h : History) (set : AnnotationSet) (depth : Nat)
    (hroom : depth < h.limit) : (h.push set).snapshots[depth]? = (set :: h.snapshots)[depth]? := by
  unfold History.push
  split
  · next hfull =>
    cases depth with
    | zero => rfl
    | succ depth =>
      simp only [List.getElem?_cons_succ, List.getElem?_dropLast]
      rw [if_pos (by omega)]
  · rfl

namespace HistoryEffect

theorem Relates.limit {effect : HistoryEffect} {s s' : Store} (h : effect.Relates s s') :
    s'.history.limit = s.history.limit := by
  cases effect with
  | kept => exact congrArg History.limit h.2
  | recorded =>
    have hpush : s'.history = s.history.push s.annotations := h
    rw [hpush, History.push_limit]
  | undone => exact (History.pop?_eq_some h).2
  | dragged => exact congrArg History.limit h

/-- A set of the stack stays in it, as long as the history does not overflow, nothing is undone
beyond it, and no drag changes the very annotations it is. -/
theorem Relates.stack {effect : HistoryEffect} {s s' : Store} (h : effect.Relates s s')
    (set : AnnotationSet) (depth : Nat) (hset : s.stack[depth]? = some set)
    (hroom : effect.depthAfter depth ≤ s.history.limit)
    (hundone : effect = .undone → depth ≠ 0) (hdragged : effect = .dragged → depth ≠ 0) :
    s'.stack[effect.depthAfter depth]? = some set := by
  unfold Store.stack at hset ⊢
  cases effect with
  | kept =>
    obtain ⟨hannotations, hhistory⟩ := h
    rw [hannotations, hhistory]
    exact hset
  | recorded =>
    have hpush : s'.history = s.history.push s.annotations := h
    have hlt : depth < s.history.limit := hroom
    simp only [depthAfter, List.getElem?_cons_succ]
    rw [hpush, History.push_snapshots _ _ _ hlt]
    exact hset
  | undone =>
    obtain ⟨hsnapshots, _⟩ := History.pop?_eq_some h
    obtain ⟨before, rfl⟩ := Nat.exists_eq_succ_of_ne_zero (hundone rfl)
    rw [hsnapshots] at hset
    exact hset
  | dragged =>
    have hhistory : s'.history = s.history := h
    obtain ⟨before, rfl⟩ := Nat.exists_eq_succ_of_ne_zero (hdragged rfl)
    rw [hhistory]
    exact hset

end HistoryEffect

namespace Store

/-! ## Runs -/

/-- How many operations of a run turn out to have an effect on the history. -/
def count (effect : HistoryEffect) (s : Store) : List Operation → Nat
  | [] => 0
  | operation :: rest =>
    (if s.historyEffect operation = effect then 1 else 0) +
      count effect (s.apply operation).2 rest

theorem run_append (s : Store) (before after : List Operation) :
    s.run (before ++ after) = (s.run before).run after :=
  List.foldl_append

/-- Editing leaves the limit of the history alone. -/
theorem limit_run (s : Store) (operations : List Operation)
    (hedit : ∀ operation ∈ operations, operation.isEdit = true) :
    (s.run operations).history.limit = s.history.limit := by
  induction operations generalizing s with
  | nil => rfl
  | cons operation rest ih =>
    have hfirst := (s.relates_apply operation (hedit operation List.mem_cons_self)).limit
    have hrest := ih (s.apply operation).2 fun other hmem ↦
      hedit other (List.mem_cons_of_mem _ hmem)
    exact hrest.trans hfirst

/-- A single operation moves a set of the stack by what it is counted as. -/
theorem stack_apply (s : Store) (operation : Operation) (set : AnnotationSet) (depth : Nat)
    (hedit : operation.isEdit = true) (hset : s.stack[depth]? = some set)
    (hroom : depth + s.count .recorded [operation] ≤ s.history.limit)
    (hundone : s.historyEffect operation = .undone → depth ≠ 0)
    (hdragged : s.historyEffect operation = .dragged → depth ≠ 0) :
    ∃ after, after + s.count .undone [operation] = depth + s.count .recorded [operation] ∧
      (s.run [operation]).stack[after]? = some set := by
  have hstack := (s.relates_apply operation hedit).stack set depth hset
  simp only [count, Nat.add_zero] at hroom ⊢
  cases heffect : s.historyEffect operation with
  | kept =>
    rw [heffect] at hstack hroom
    exact ⟨depth, rfl, hstack hroom (by simp) (by simp)⟩
  | recorded =>
    rw [heffect] at hstack hroom
    exact ⟨depth + 1, rfl, hstack hroom (by simp) (by simp)⟩
  | undone =>
    have hne : depth ≠ 0 := hundone heffect
    rw [heffect] at hstack hroom
    refine ⟨depth - 1, Nat.sub_one_add_one hne, hstack ?_ (fun _ ↦ hne) (by simp)⟩
    exact Nat.le_trans (Nat.sub_le depth 1) hroom
  | dragged =>
    have hne : depth ≠ 0 := hdragged heffect
    rw [heffect] at hstack hroom
    exact ⟨depth, rfl, hstack hroom (by simp) (fun _ ↦ hne)⟩

theorem stack_drag (s : Store) (dx dy : Scalar) (set : AnnotationSet) (depth : Nat)
    (hset : s.stack[depth]? = some set) (hdepth : depth ≠ 0) :
    (s.run [.drag dx dy]).stack[depth]? = some set := by
  have hrelates := s.relates_apply (.drag dx dy) rfl
  have hkind := s.historyEffect_eq_or (.drag dx dy)
  obtain ⟨before, rfl⟩ := Nat.exists_eq_succ_of_ne_zero hdepth
  have hhistory : (s.apply (.drag dx dy)).2.history = s.history := by
    rcases hkind with hdragged | hkept
    · rw [hdragged] at hrelates
      exact hrelates
    · rw [hkept] at hrelates
      exact hrelates.2
  change (s.apply (.drag dx dy)).2.history.snapshots[before]? = some set
  rw [hhistory]
  exact hset

/-- Undo lifts all sets of the stack by one. -/
theorem stack_undo (s : Store) (set : AnnotationSet) (depth : Nat)
    (hset : s.stack[depth + 1]? = some set) : s.undo.2.stack[depth]? = some set := by
  unfold stack at hset
  unfold undo
  cases hpop : s.history.pop? with
  | none =>
    unfold History.pop? at hpop
    cases hsnapshots : s.history.snapshots with
    | nil => simp [hsnapshots] at hset
    | cons newest older => simp [hsnapshots] at hpop
  | some popped =>
    obtain ⟨annotations, history⟩ := popped
    rw [(History.pop?_eq_some hpop).1] at hset
    exact hset

/-- An operation is not counted as something that its kind never is. -/
theorem count_singleton_eq_zero (s : Store) (effect : HistoryEffect) (operation : Operation)
    (hkept : effect ≠ .kept) (hkind : operation.historyEffect ≠ effect) :
    s.count effect [operation] = 0 := by
  simp only [count, Nat.add_zero]
  exact if_neg (s.historyEffect_ne operation hkept hkind)

theorem count_append (effect : HistoryEffect) (s : Store) (before after : List Operation) :
    s.count effect (before ++ after) =
      s.count effect before + (s.run before).count effect after := by
  induction before generalizing s with
  | nil => exact (Nat.zero_add _).symm
  | cons operation rest ih =>
    simp only [List.cons_append, count]
    rw [ih, Nat.add_assoc]
    rfl

end Store

end Marginalia
