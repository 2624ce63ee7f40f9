import Mathlib.Data.List.Infix
import Marginalia.Proofs.Editor.Undo
import Marginalia.Proofs.Workbench.Coherence

/-!
# Undo on the workbench

The annotations of some moment stay in the undo stack, as far down as more changes were recorded
than undone since. Only a drag that has begun to move things changes annotations without recording
them, and it has recorded them before; so the invariant speaks of the gesture too.
-/

namespace Marginalia

/-- Whether an input moves the pointer. -/
def Input.isPointerMove : Input → Bool
  | .pointerMove _ => true
  | _ => false

/-- Whether an input is meant to change annotations, apart from drags and new annotations. -/
def Input.isEdit : Input → Bool
  | .keyDown key _ => key != .escape
  | .updateText _ => true
  | .updateFontSize _ => true
  | .updateFamily _ => true
  | .updateColor _ => true
  | _ => false

theorem Input.exists_of_isPointerMove (input : Input) (h : input.isPointerMove = true) :
    ∃ e, input = .pointerMove e := by
  cases input with
  | pointerMove e => exact ⟨e, rfl⟩
  | _ => cases h

namespace Controller

/-- Whether an input moves the pointer during a drag by more than nothing. -/
def isDraggedBy (c : Controller) (s : Store) : Input → Bool
  | .pointerMove e =>
    match c.gesture with
    | .dragging _ last _ => hasDelta last (e.place.toDocument s.state.zoom)
    | _ => false
  | _ => false

theorem hasDragged_eq_false (c : Controller) (h : c.dragTarget? = none) :
    c.hasDragged = false := by
  unfold dragTarget? at h
  unfold hasDragged
  cases hgesture : c.gesture with
  | dragging target last moved =>
    rw [hgesture] at h
    cases h
  | _ => rfl

/-- A press begins no drag that has moved something already. -/
theorem press_hasDragged (c : Controller) (s : Store) (place : Point Scalar)
    (hidle : c.gesture = .idle) : (c.press s place).controller.hasDragged = false := by
  have hrest : c.hasDragged = false := by
    unfold hasDragged
    rw [hidle]
  unfold press
  cases s.state.mode with
  | addText =>
    simp only [placeText]
    split
    · exact hrest
    · exact hrest
  | addRect => rfl
  | select =>
    simp only [pressSelect]
    split
    · rfl
    · split
      · split
        · exact hrest
        · exact hrest
      · exact hrest

end Controller

/-! ## Plain inputs -/

/-- The editing operations that neither go back nor drag. -/
def Store.Operation.isPlain (operation : Store.Operation) : Bool :=
  operation.isEdit &&
    (operation.historyEffect == .kept || operation.historyEffect == .recorded)

/-- At most one request, and a plain one. -/
def Store.ArePlain (requests : List Store.Operation) : Prop :=
  requests = [] ∨ ∃ operation, requests = [operation] ∧ operation.isPlain = true

namespace Store

theorem arePlain_nil : ArePlain [] := Or.inl rfl

theorem arePlain_singleton (operation : Operation) (h : operation.isPlain = true) :
    ArePlain [operation] := Or.inr ⟨operation, rfl, h⟩

end Store

namespace Controller

open Store (ArePlain arePlain_nil arePlain_singleton)

theorem arePlain_pressRequests (c : Controller) (s : Store) (place : Point Scalar) :
    ArePlain (c.pressRequests s place) := by
  unfold pressRequests
  cases s.state.mode with
  | addText =>
    dsimp only
    split
    · exact arePlain_nil
    · exact arePlain_singleton _ rfl
  | addRect => exact arePlain_nil
  | select =>
    dsimp only [selectRequests]
    split
    · exact arePlain_nil
    · split
      · split
        · exact arePlain_nil
        · exact arePlain_singleton _ rfl
      · exact arePlain_singleton _ rfl

theorem arePlain_pointerDownRequests (c : Controller) (s : Store) (e : PointerEvent) :
    ArePlain (c.pointerDownRequests s e) := by
  unfold pointerDownRequests
  dsimp only
  split
  · exact arePlain_nil
  · split
    · exact arePlain_nil
    · split
      · exact arePlain_pressRequests _ s e.place
      · exact arePlain_nil

theorem arePlain_pointerMoveRequests (c : Controller) (s : Store) (e : PointerEvent)
    (hdrag : c.dragTarget? = none) : ArePlain (c.pointerMoveRequests s e) := by
  rw [← c.track_dragTarget? e fun touches finger ↦ touches.move finger e.place] at hdrag
  unfold pointerMoveRequests
  dsimp only
  generalize c.track e (fun touches finger ↦ touches.move finger e.place) = tracked at hdrag ⊢
  cases hgesture : tracked.gesture with
  | idle =>
    dsimp only
    split
    · exact arePlain_singleton _ rfl
    · exact arePlain_nil
  | drawing origin current => exact arePlain_nil
  | dragging target last moved =>
    unfold dragTarget? at hdrag
    rw [hgesture] at hdrag
    cases hdrag
  | panning origin initialScroll => exact arePlain_nil
  | pinching initialDistance initialZoom =>
    dsimp only
    split
    · exact arePlain_singleton _ rfl
    · exact arePlain_nil

theorem arePlain_pointerUpRequests (c : Controller) (s : Store) (e : PointerEvent) :
    ArePlain (c.pointerUpRequests s e) := by
  unfold pointerUpRequests
  dsimp only
  split
  · exact arePlain_singleton _ rfl
  · exact arePlain_nil

theorem arePlain_keyRequests (key : Key) (shift : Bool) (hundo : key ≠ .undo) :
    ArePlain (keyRequests key shift) := by
  cases key with
  | undo => exact absurd rfl hundo
  | _ => exact arePlain_singleton _ rfl

/-- A pointer that goes down leaves a drag as it is, or begins one that has moved nothing. -/
theorem pointerDown_gesture (c : Controller) (s : Store) (e : PointerEvent)
    (h : (c.pointerDown s e).controller.dragTarget?.isSome = true) :
    (c.pointerDown s e).controller.gesture = c.gesture ∨
      (c.dragTarget? = none ∧ (c.pointerDown s e).controller.hasDragged = false) := by
  have hgesture := c.track_gesture e fun touches finger ↦ touches.press finger e.place
  unfold pointerDown at h ⊢
  dsimp only at h ⊢
  generalize c.track e (fun touches finger ↦ touches.press finger e.place) = tracked
    at h hgesture ⊢
  split at h
  · rw [startPinch_dragTarget?] at h
    cases h
  · next hpinch =>
    rw [if_neg hpinch]
    split at h
    · cases h
    · next hpan =>
      rw [if_neg hpan]
      split at h
      · next hidle =>
        rw [if_pos hidle]
        refine Or.inr ⟨?_, ?_⟩
        · exact c.dragTarget?_eq_none (by simp [← hgesture, hidle])
        · exact press_hasDragged tracked s e.place hidle
      · next hbusy =>
        rw [if_neg hbusy]
        exact Or.inl hgesture

theorem moveDrag_gesture (c : Controller) (s : Store) (target : AnnotationRef)
    (last : Point Scalar) (moved : Bool) (point : Point Scalar) :
    (c.moveDrag s target last moved point).controller.gesture =
      .dragging target point (moved || (hasDelta last point && s.beginDrag.1)) := by
  unfold moveDrag hasDelta
  dsimp only
  cases point.x - last.x == 0 && point.y - last.y == 0 with
  | true => simp
  | false =>
    cases moved with
    | true => simp
    | false => simp

/-- A pointer that moves during a drag asks for the drag, and the drag goes on from there. -/
theorem pointerMove_of_dragging (c : Controller) (s : Store) (e : PointerEvent)
    (target : AnnotationRef) (last : Point Scalar) (moved : Bool)
    (hgesture : c.gesture = .dragging target last moved) :
    let point := e.place.toDocument s.state.zoom
    c.pointerMoveRequests s e = dragRequests last moved point ∧
      (c.pointerMove s e).controller.gesture =
        .dragging target point (moved || (hasDelta last point && s.beginDrag.1)) := by
  intro point
  have htrack := c.track_gesture e fun touches finger ↦ touches.move finger e.place
  unfold pointerMoveRequests pointerMove
  dsimp only
  rw [htrack, hgesture]
  exact ⟨rfl, moveDrag_gesture _ _ _ _ _ _⟩

end Controller

namespace Workbench

open Controller (dragRequests hasDelta)
open Store (ArePlain arePlain_singleton)

/-- Only pointers that move drag on; anything else leaves a drag as it is. -/
theorem react_gesture (c : Controller) (s : Store) (input : Input)
    (hmove : input.isPointerMove = false)
    (h : (react c s input).controller.dragTarget?.isSome = true) :
    (react c s input).controller.gesture = c.gesture ∨
      (c.dragTarget? = none ∧ (react c s input).controller.hasDragged = false) := by
  cases input with
  | pointerDown e => exact c.pointerDown_gesture s e h
  | pointerMove e => cases hmove
  | pointerUp e =>
    have hnone : (react c s (.pointerUp e)).controller.dragTarget? = none :=
      c.pointerUp_dragTarget? s e
    rw [hnone] at h
    cases h
  | keyDown key shift =>
    cases key with
    | delete => cases h
    | backspace => cases h
    | escape => cases h
    | undo => cases h
    | _ => exact Or.inl rfl
  | setMode mode => cases h
  | setPage page => cases h
  | _ => exact Or.inl rfl

/-- The three kinds of input: undo, a pointer that drags, and all others, which ask for one plain
change at most and never make a drag one that has moved something. -/
theorem react_cases (c : Controller) (s : Store) (input : Input) :
    (∃ shift, input = .keyDown .undo shift) ∨
      (∃ e target last moved, input = .pointerMove e ∧ c.gesture = .dragging target last moved) ∨
      (ArePlain (inputRequests c s input) ∧
        ((react c s input).controller.hasDragged = true → c.hasDragged = true)) := by
  have hdragged (hmove : input.isPointerMove = false)
      (h : (react c s input).controller.hasDragged = true) : c.hasDragged = true := by
    have hsome : (react c s input).controller.dragTarget?.isSome = true := by
      cases hnone : (react c s input).controller.dragTarget? with
      | some target => rfl
      | none => rw [Controller.hasDragged_eq_false _ hnone] at h; cases h
    rcases react_gesture c s input hmove hsome with hsame | ⟨_, hfalse⟩
    · unfold Controller.hasDragged at h ⊢
      rw [hsame] at h
      exact h
    · rw [hfalse] at h
      cases h
  cases input with
  | pointerDown e =>
    exact Or.inr (Or.inr ⟨c.arePlain_pointerDownRequests s e, hdragged rfl⟩)
  | pointerMove e =>
    right
    cases hgesture : c.gesture with
    | dragging target last moved => exact Or.inl ⟨e, target, last, moved, rfl, rfl⟩
    | _ =>
      have hrest := c.dragTarget?_eq_none (by simp [hgesture])
      refine Or.inr ⟨c.arePlain_pointerMoveRequests s e hrest, ?_⟩
      intro h
      cases hnone : (c.pointerMove s e).controller.dragTarget? with
      | some target =>
        have hon := (c.pointerMove_dragsOn s e target hnone).1
        rw [hrest] at hon
        cases hon
      | none =>
        have hfalse := Controller.hasDragged_eq_false _ hnone
        exact absurd (h.symm.trans hfalse) (by simp)
  | pointerUp e => exact Or.inr (Or.inr ⟨c.arePlain_pointerUpRequests s e, hdragged rfl⟩)
  | keyDown key shift =>
    by_cases hundo : key = .undo
    · subst hundo
      exact Or.inl ⟨shift, rfl⟩
    · exact Or.inr (Or.inr ⟨Controller.arePlain_keyRequests key shift hundo, hdragged rfl⟩)
  | _ => exact Or.inr (Or.inr ⟨arePlain_singleton _ rfl, hdragged rfl⟩)

/-! ## The invariant -/

/-- A set is in the undo stack at a depth, below the top as long as a drag moves things. -/
structure Balanced (set : AnnotationSet) (depth : Nat) (c : Controller) (s : Store) : Prop where
  stack : s.stack[depth]? = some set
  drag : c.hasDragged = true → depth ≠ 0

/-- A drag records the annotations before it first moves something, and then never again. -/
theorem count_dragRequests (s : Store) (last : Point Scalar) (moved : Bool) (point : Point Scalar) :
    s.count .undone (dragRequests last moved point) = 0 ∧
      s.count .recorded (dragRequests last moved point) =
        if hasDelta last point && !moved && s.beginDrag.1 then 1 else 0 := by
  have hdrag (s : Store) (effect : HistoryEffect) (hkept : effect ≠ .kept)
      (hkind : .dragged ≠ effect) (dx dy : Scalar) : s.count effect [.drag dx dy] = 0 :=
    s.count_singleton_eq_zero effect _ hkept hkind
  unfold dragRequests
  cases hasDelta last point with
  | false => exact ⟨rfl, rfl⟩
  | true =>
    cases moved with
    | true => exact ⟨hdrag s _ (by simp) (by simp) _ _, hdrag s _ (by simp) (by simp) _ _⟩
    | false =>
      simp only [if_true, Bool.false_eq_true, if_false, Store.count_append]
      rw [hdrag _ _ (by simp) (by simp), hdrag _ _ (by simp) (by simp)]
      refine ⟨s.count_singleton_eq_zero .undone .beginDrag (by simp) ?_, ?_⟩
      · simp [Store.Operation.historyEffect]
      change (if (if s.beginDrag.1 then HistoryEffect.recorded else .kept) = .recorded
        then 1 else 0) + 0 + 0 = _
      cases s.beginDrag.1 with
      | true => rfl
      | false => rfl

theorem Balanced.drag_stack {set : AnnotationSet} {depth : Nat} {c : Controller} {s : Store}
    (h : Balanced set depth c s) (last : Point Scalar) (point : Point Scalar)
    (hroom : depth + s.count .recorded (dragRequests last c.hasDragged point) ≤ s.history.limit) :
    let begins := hasDelta last point && !c.hasDragged && s.beginDrag.1
    (s.run (dragRequests last c.hasDragged point)).stack[depth + begins.toNat]? = some set := by
  have hstack := h.stack
  rw [(count_dragRequests s last c.hasDragged point).2] at hroom
  unfold dragRequests
  cases hmove : hasDelta last point with
  | false => exact hstack
  | true =>
    cases hmoved : c.hasDragged with
    | true => exact s.stack_drag _ _ set depth hstack (h.drag hmoved)
    | false =>
      rw [hmove, hmoved] at hroom
      simp only [if_true, Bool.false_eq_true, if_false, Store.run_append]
      cases hbegin : s.beginDrag.1 with
      | false =>
        obtain ⟨hsame, hrefused⟩ :=
          s.drag_of_beginDrag_refused (point.x - last.x) (point.y - last.y) hbegin
        change (s.beginDrag.2.drag _ _).2.stack[depth]? = some set
        rw [hsame, hrefused]
        exact hstack
      | true =>
        rw [hbegin] at hroom
        apply Store.stack_drag _ _ _ set (depth + 1)
        · have hrelates := s.relates_apply .beginDrag rfl
          have heffect : s.historyEffect .beginDrag = .recorded := if_pos hbegin
          rw [heffect] at hrelates
          exact hrelates.stack set depth hstack hroom (by simp) (by simp)
        · exact Nat.succ_ne_zero depth

theorem Balanced.undo {set : AnnotationSet} {depth : Nat} {c : Controller} {s : Store}
    (h : Balanced set depth c s) (shift : Bool) (hdepth : depth ≤ s.history.limit)
    (hne : depth ≠ 0) :
    ∃ after, after + s.count .undone [.undo] = depth + s.count .recorded [.undo] ∧
      Balanced set after (c.keyDown s .undo shift).controller (s.run [.undo]) := by
  have hrecorded : s.count .recorded [.undo] = 0 := by
    apply s.count_singleton_eq_zero .recorded .undo (by simp)
    simp [Store.Operation.historyEffect]
  obtain ⟨after, hafter, hstack⟩ := s.stack_apply .undo set depth rfl h.stack
    (by rw [hrecorded]; exact hdepth) (fun _ ↦ hne) (fun _ ↦ hne)
  refine ⟨after, hafter, hstack, ?_⟩
  intro hdragged
  cases hdragged

theorem Balanced.pointerMove {set : AnnotationSet} {depth : Nat} {c : Controller} {s : Store}
    (h : Balanced set depth c s) (e : PointerEvent) (target : AnnotationRef) (last : Point Scalar)
    (hgesture : c.gesture = .dragging target last c.hasDragged)
    (hroom : depth + s.count .recorded (c.pointerMoveRequests s e) ≤
      s.history.limit + s.count .undone (c.pointerMoveRequests s e)) :
    ∃ after, after + s.count .undone (c.pointerMoveRequests s e) =
        depth + s.count .recorded (c.pointerMoveRequests s e) ∧
      Balanced set after (c.pointerMove s e).controller (s.run (c.pointerMoveRequests s e)) := by
  obtain ⟨hrequests, hnext⟩ := c.pointerMove_of_dragging s e target last _ hgesture
  rw [hrequests] at hroom ⊢
  generalize e.place.toDocument s.state.zoom = point at hroom hnext ⊢
  obtain ⟨hundone, hrecorded⟩ := count_dragRequests s last c.hasDragged point
  rw [hundone] at hroom ⊢
  refine ⟨_, ?_, h.drag_stack last point hroom, ?_⟩
  · rw [hrecorded]
    cases hasDelta last point && !c.hasDragged && s.beginDrag.1 with
    | true => rfl
    | false => rfl
  · intro hdragged
    unfold Controller.hasDragged at hdragged
    rw [hnext] at hdragged
    -- either something had been moved before, or the annotations have just been recorded
    cases hbefore : c.hasDragged with
    | true =>
      have hne := h.drag hbefore
      omega
    | false =>
      dsimp only at hdragged
      rw [hbefore, Bool.false_or, Bool.and_eq_true] at hdragged
      rw [hdragged.1, hdragged.2]
      exact Nat.succ_ne_zero depth

theorem Balanced.plain {set : AnnotationSet} {depth : Nat} {c c' : Controller} {s : Store}
    (h : Balanced set depth c s) (requests : List Store.Operation) (hplain : ArePlain requests)
    (hdragged : c'.hasDragged = true → c.hasDragged = true)
    (hroom : depth + s.count .recorded requests ≤
      s.history.limit + s.count .undone requests) :
    ∃ after, after + s.count .undone requests = depth + s.count .recorded requests ∧
      Balanced set after c' (s.run requests) := by
  rcases hplain with rfl | ⟨operation, rfl, hoperation⟩
  · exact ⟨depth, rfl, h.stack, fun hnow ↦ h.drag (hdragged hnow)⟩
  · unfold Store.Operation.isPlain at hoperation
    obtain ⟨hedit, hkind⟩ := Bool.and_eq_true_iff.mp hoperation
    have hforward : operation.historyEffect ≠ .undone ∧ operation.historyEffect ≠ .dragged := by
      cases heffect : operation.historyEffect <;> simp [heffect] at hkind ⊢
    have hundone : s.count .undone [operation] = 0 :=
      s.count_singleton_eq_zero .undone operation (by simp) hforward.1
    rw [hundone] at hroom
    obtain ⟨after, hafter, hstack⟩ := s.stack_apply operation set depth hedit h.stack hroom
      (fun heffect ↦ absurd heffect (s.historyEffect_ne operation (by simp) hforward.1))
      (fun heffect ↦ absurd heffect (s.historyEffect_ne operation (by simp) hforward.2))
    refine ⟨after, hafter, hstack, ?_⟩
    intro hnow
    have hne := h.drag (hdragged hnow)
    omega

/-- An input keeps the invariant at the depth it is counted for. -/
theorem Balanced.react {set : AnnotationSet} {depth : Nat} {c : Controller} {s : Store}
    (h : Balanced set depth c s) (input : Input) (hdepth : depth ≤ s.history.limit)
    (hroom : depth + s.count .recorded (inputRequests c s input) ≤
      s.history.limit + s.count .undone (inputRequests c s input))
    (hundo : ∀ shift, input = .keyDown .undo shift → depth ≠ 0) :
    ∃ after, after + s.count .undone (inputRequests c s input) =
        depth + s.count .recorded (inputRequests c s input) ∧
      Balanced set after (react c s input).controller (react c s input).store := by
  rw [react_store]
  rcases react_cases c s input with ⟨shift, rfl⟩ | ⟨e, target, last, moved, rfl, hgesture⟩ |
    ⟨hplain, hdragged⟩
  · exact h.undo shift hdepth (hundo shift rfl)
  · have hmoved : c.hasDragged = moved := by
      unfold Controller.hasDragged
      rw [hgesture]
    rw [← hmoved] at hgesture
    exact h.pointerMove e target last hgesture hroom
  · exact h.plain _ hplain hdragged hroom

/-! ## Runs of inputs -/

/-- The workbench after some inputs. -/
def handleAll (w : Workbench) (inputs : List (Instant × Input)) : Workbench :=
  w.run (inputs.map (Prod.map id Event.input))

theorem handleAll_cons (w : Workbench) (now : Instant) (input : Input)
    (rest : List (Instant × Input)) :
    w.handleAll ((now, input) :: rest) = (w.handle now input).2.handleAll rest := rfl

/-- What some inputs ask of the store one after another. -/
def requests (w : Workbench) : List (Instant × Input) → List Store.Operation
  | [] => []
  | (now, input) :: rest =>
    inputRequests w.controller w.store input ++ (w.handle now input).2.requests rest

theorem requests_cons (w : Workbench) (now : Instant) (input : Input)
    (rest : List (Instant × Input)) :
    w.requests ((now, input) :: rest) =
      inputRequests w.controller w.store input ++ (w.handle now input).2.requests rest := rfl

/-- Inputs change the store by what they ask of it and by nothing else. -/
theorem handleAll_store (w : Workbench) (inputs : List (Instant × Input)) :
    (w.handleAll inputs).store = w.store.run (w.requests inputs) := by
  induction inputs generalizing w with
  | nil => rfl
  | cons first rest ih =>
    obtain ⟨now, input⟩ := first
    rw [handleAll_cons, ih, requests_cons, Store.run_append, handle_store, react_store]

/-- How many requests of some inputs turn out to have an effect on the history. -/
def count (effect : HistoryEffect) (w : Workbench) (inputs : List (Instant × Input)) : Nat :=
  w.store.count effect (w.requests inputs)

theorem count_cons (effect : HistoryEffect) (w : Workbench) (now : Instant) (input : Input)
    (rest : List (Instant × Input)) :
    w.count effect ((now, input) :: rest) =
      w.store.count effect (inputRequests w.controller w.store input) +
        (w.handle now input).2.count effect rest := by
  unfold count
  rw [requests_cons, Store.count_append, handle_store, react_store]

theorem count_singleton (effect : HistoryEffect) (w : Workbench) (now : Instant) (input : Input) :
    w.count effect [(now, input)] =
      w.store.count effect (inputRequests w.controller w.store input) :=
  w.count_cons effect now input []

/-- How many more changes some inputs record than they undo. -/
def depth (w : Workbench) (inputs : List (Instant × Input)) : Int :=
  w.count .recorded inputs - w.count .undone inputs

theorem depth_cons (w : Workbench) (now : Instant) (input : Input)
    (rest : List (Instant × Input)) :
    w.depth ((now, input) :: rest) =
      w.depth [(now, input)] + (w.handle now input).2.depth rest := by
  unfold depth
  rw [count_cons, count_cons, count_singleton, count_singleton]
  omega

/-- Every request of an input is an editing operation. -/
theorem isEdit_of_inputRequests (c : Controller) (s : Store) (input : Input)
    (operation : Store.Operation) (h : operation ∈ inputRequests c s input) :
    operation.isEdit = true := by
  rcases react_cases c s input with ⟨shift, rfl⟩ | ⟨e, target, last, moved, rfl, hgesture⟩ |
    ⟨hplain, _⟩
  · obtain rfl := List.mem_singleton.mp h
    rfl
  · have hrequests := (c.pointerMove_of_dragging s e target last moved hgesture).1
    change operation ∈ c.pointerMoveRequests s e at h
    rw [hrequests] at h
    have hkeeps := Controller.keepsSelection_of_dragRequests _ _ _ operation h
    cases operation <;> first | rfl | cases hkeeps
  · rcases hplain with hnil | ⟨single, hsingle, hoperation⟩
    · rw [hnil] at h
      exact absurd h List.not_mem_nil
    · rw [hsingle] at h
      obtain rfl := List.mem_singleton.mp h
      exact (Bool.and_eq_true_iff.mp hoperation).1

theorem handle_limit (w : Workbench) (now : Instant) (input : Input) :
    (w.handle now input).2.store.history.limit = w.store.history.limit := by
  rw [handle_store, react_store]
  exact w.store.limit_run _ (isEdit_of_inputRequests _ _ _)

/-- Inputs keep the invariant at the depth they lead to, if the history never overflows and nothing
is undone that was recorded before them. -/
theorem Balanced.handleAll {set : AnnotationSet} {start : Nat} {w : Workbench}
    (h : Balanced set start w.controller w.store) (inputs : List (Instant × Input))
    (hroom : ∀ before, before <+: inputs → start + w.depth before ≤ w.store.history.limit)
    (hundo : ∀ before now shift, before ++ [(now, .keyDown .undo shift)] <+: inputs →
      start + w.depth before ≠ 0) :
    ∃ after : Nat, (after : Int) = start + w.depth inputs ∧
      Balanced set after (w.handleAll inputs).controller (w.handleAll inputs).store := by
  induction inputs generalizing w start with
  | nil => exact ⟨start, (Int.add_zero _).symm, h⟩
  | cons first rest ih =>
    obtain ⟨now, input⟩ := first
    have hnone : start + w.depth [] ≤ w.store.history.limit := hroom [] List.nil_prefix
    have hone := hroom [(now, input)] ⟨rest, rfl⟩
    have hfirst : ∀ shift, input = .keyDown .undo shift → start ≠ 0 := by
      rintro shift rfl rfl
      exact hundo [] now shift ⟨rest, rfl⟩ rfl
    have hdepth : w.depth [(now, input)] =
        w.store.count .recorded (inputRequests w.controller w.store input) -
          w.store.count .undone (inputRequests w.controller w.store input) := by
      unfold depth
      rw [count_singleton, count_singleton]
    have hempty : w.depth [] = 0 := rfl
    obtain ⟨after, hafter, hbalanced⟩ := h.react input (by omega) (by omega) hfirst
    rw [← handle_store w now, ← handle_controller w now] at hbalanced
    have hnext : (after : Int) = start + w.depth [(now, input)] := by omega
    obtain ⟨final, hfinal, hend⟩ := ih hbalanced
      (by
        intro before hbefore
        rw [handle_limit, hnext, Int.add_assoc, ← depth_cons]
        exact hroom _ (List.cons_prefix_cons.mpr ⟨rfl, hbefore⟩))
      (by
        intro before later shift hbefore
        rw [hnext, Int.add_assoc, ← depth_cons]
        exact hundo ((now, input) :: before) later shift
          (List.cons_prefix_cons.mpr ⟨rfl, hbefore⟩))
    refine ⟨final, ?_, hend⟩
    calc
      (final : Int) = after + (w.handle now input).2.depth rest := hfinal
      _ = start + (w.depth [(now, input)] + (w.handle now input).2.depth rest) := by
        rw [hnext, Int.add_assoc]
      _ = start + w.depth ((now, input) :: rest) := by rw [← depth_cons]

/-- Pressing undo as often as a set is deep in the stack brings it back. -/
theorem annotations_undoAll (w : Workbench) (undos : List (Instant × Bool)) (set : AnnotationSet)
    (h : w.store.stack[undos.length]? = some set) :
    (w.handleAll (undos.map fun (now, shift) ↦ (now, .keyDown .undo shift))).store.annotations =
      set := by
  induction undos generalizing w with
  | nil => exact Option.some.inj h
  | cons first rest ih =>
    obtain ⟨now, shift⟩ := first
    apply ih (w.handle now (.keyDown .undo shift)).2
    rw [handle_store]
    exact w.store.stack_undo set rest.length h

/-! ## Drags -/

/-- Whether one of some inputs drags. -/
def drags (w : Workbench) : List (Instant × Input) → Bool
  | [] => false
  | (now, input) :: rest =>
    w.controller.isDraggedBy w.store input || (w.handle now input).2.drags rest

theorem Coherent.beginDrag {w : Workbench} (h : w.Coherent) (target : AnnotationRef)
    (htarget : w.controller.dragTarget? = some target) : w.store.beginDrag.1 = true := by
  have hselected := h.drag target htarget
  have hcontains := h.store.view.selected target hselected
  unfold Store.beginDrag Store.validSelection?
  rw [hselected, Option.filter_some, if_pos hcontains]
  rfl

theorem isDraggedBy_of_not_move (c : Controller) (s : Store) (input : Input)
    (hmove : input.isPointerMove = false) : c.isDraggedBy s input = false := by
  cases input with
  | pointerMove e => cases hmove
  | _ => rfl

section
variable {w : Workbench} {target : AnnotationRef} {last : Point Scalar} {moved : Bool}
  (hgesture : w.controller.gesture = .dragging target last moved) (now : Instant)
include hgesture

/-- A drag that is not given up stays as it is until the pointer moves. -/
theorem gesture_of_dragging {input : Input} (hmove : input.isPointerMove = false)
    (hon : (w.handle now input).2.controller.dragTarget?.isSome = true) :
    (w.handle now input).2.controller.gesture = .dragging target last moved := by
  rw [handle_controller] at hon ⊢
  rcases react_gesture _ _ _ hmove hon with hsame | ⟨hrest, _⟩
  · exact hsame.trans hgesture
  · unfold Controller.dragTarget? at hrest
    rw [hgesture] at hrest
    cases hrest

/-- A pointer that drags records the annotations unless it has dragged before. -/
theorem pointerMove_records (hw : w.Coherent) (e : PointerEvent) :
    let dragged := w.controller.isDraggedBy w.store (.pointerMove e)
    (∃ point, (w.handle now (.pointerMove e)).2.controller.gesture =
        .dragging target point (moved || dragged)) ∧
      w.count .recorded [(now, .pointerMove e)] = if dragged && !moved then 1 else 0 := by
  have htarget : w.controller.dragTarget? = some target := by
    unfold Controller.dragTarget?
    rw [hgesture]
  have hdragged : w.controller.isDraggedBy w.store (.pointerMove e) =
      hasDelta last (e.place.toDocument w.store.state.zoom) := by
    unfold Controller.isDraggedBy
    rw [hgesture]
  obtain ⟨hrequests, hnext⟩ :=
    w.controller.pointerMove_of_dragging w.store e target last moved hgesture
  have hbegin := hw.beginDrag target htarget
  intro dragged
  rw [hbegin, Bool.and_true, ← hdragged] at hnext
  refine ⟨⟨_, by rw [handle_controller]; exact hnext⟩, ?_⟩
  rw [count_singleton]
  change w.store.count .recorded (w.controller.pointerMoveRequests w.store e) = _
  rw [hrequests, (count_dragRequests _ _ _ _).2, hbegin, Bool.and_true, ← hdragged]

end

/-- As long as a drag goes on and nothing else records anything, it records the annotations once,
when it first moves something. -/
theorem recorded_of_dragging (w : Workbench) (hw : w.Coherent) (target : AnnotationRef)
    (last : Point Scalar) (moved : Bool)
    (hgesture : w.controller.gesture = .dragging target last moved)
    (inputs : List (Instant × Input))
    (hon : ∀ before, before <+: inputs →
      (w.handleAll before).controller.dragTarget?.isSome = true)
    (halone : ∀ before now input, before ++ [(now, input)] <+: inputs →
      input.isPointerMove = false → (w.handleAll before).count .recorded [(now, input)] = 0) :
    w.count .recorded inputs = if !moved && w.drags inputs then 1 else 0 := by
  induction inputs generalizing w last moved with
  | nil =>
    unfold drags
    rw [Bool.and_false]
    rfl
  | cons first rest ih =>
    obtain ⟨now, input⟩ := first
    have hrest (last : Point Scalar) (moved : Bool)
        (hgesture : (w.handle now input).2.controller.gesture = .dragging target last moved) :
        (w.handle now input).2.count .recorded rest =
          if !moved && (w.handle now input).2.drags rest then 1 else 0 := by
      refine ih _ (hw.handle now input) last moved hgesture ?_ ?_
      · intro before hbefore
        exact hon _ (List.cons_prefix_cons.mpr ⟨rfl, hbefore⟩)
      · intro before later other hbefore
        exact halone ((now, input) :: before) later other (List.cons_prefix_cons.mpr ⟨rfl, hbefore⟩)
    rw [count_cons, ← count_singleton .recorded w now input]
    unfold drags
    cases hmove : input.isPointerMove with
    | false =>
      have hnone : w.count .recorded [(now, input)] = 0 := halone [] now input ⟨rest, rfl⟩ hmove
      have hsame := gesture_of_dragging hgesture now hmove (hon [(now, input)] ⟨rest, rfl⟩)
      rw [hnone, hrest last moved hsame, isDraggedBy_of_not_move _ _ _ hmove, Nat.zero_add,
        Bool.false_or]
    | true =>
      obtain ⟨e, rfl⟩ := input.exists_of_isPointerMove hmove
      obtain ⟨⟨point, hnext⟩, hrecords⟩ := pointerMove_records hgesture now hw e
      rw [hrecords, hrest point _ hnext]
      -- it is recorded at the first move that drags, which is this one or a later one
      generalize (w.handle now (.pointerMove e)).2.drags rest = later
      generalize w.controller.isDraggedBy w.store (.pointerMove e) = here
      cases here <;> cases moved <;> cases later <;> rfl

theorem count_append (effect : HistoryEffect) (w : Workbench)
    (before after : List (Instant × Input)) :
    w.count effect (before ++ after) =
      w.count effect before + (w.handleAll before).count effect after := by
  induction before generalizing w with
  | nil => exact (Nat.zero_add _).symm
  | cons first rest ih =>
    obtain ⟨now, input⟩ := first
    rw [List.cons_append, count_cons, count_cons, ih, handleAll_cons, Nat.add_assoc]

/-- A drag that ends, in whatever way, records nothing more. -/
theorem count_recorded_of_not_edit (c : Controller) (s : Store) (input : Input)
    (target : AnnotationRef) (htarget : c.dragTarget? = some target)
    (hmove : input.isPointerMove = false) (hedit : input.isEdit = false) :
    s.count .recorded (inputRequests c s input) = 0 := by
  have hkept (operation : Store.Operation) (h : operation.historyEffect = .kept) :
      s.count .recorded [operation] = 0 := by
    apply s.count_singleton_eq_zero .recorded operation (by simp)
    rw [h]
    simp
  cases input with
  | pointerDown e =>
    have hbusy : (c.track e fun touches finger ↦ touches.press finger e.place).gesture ≠ .idle := by
      intro hidle
      rw [← c.track_dragTarget? e fun touches finger ↦ touches.press finger e.place,
        Controller.dragTarget?_eq_none _ (by simp [hidle])] at htarget
      cases htarget
    simp only [inputRequests, Controller.pointerDownRequests]
    rw [if_neg hbusy, ite_self, ite_self]
    rfl
  | pointerMove e => cases hmove
  | pointerUp e =>
    rw [← c.track_dragTarget? e Touches.lift] at htarget
    simp only [inputRequests, Controller.pointerUpRequests]
    split
    · next hdrawing =>
      rw [Controller.dragTarget?_eq_none _ (by simp [hdrawing])] at htarget
      cases htarget
    · rfl
  | keyDown key shift =>
    cases key with
    | escape => exact hkept .deselect rfl
    | _ => cases hedit
  | setMode mode => exact hkept (.setMode mode) rfl
  | setPage page => exact hkept (.setPage page) rfl
  | setZoom zoom => exact hkept (.setZoom zoom) rfl
  | _ => cases hedit

/-- A press that begins a drag records nothing, and the drag has moved nothing. -/
theorem pointerDown_begins (c : Controller) (s : Store) (e : PointerEvent)
    (hrest : c.dragTarget? = none) (target : AnnotationRef)
    (h : (c.pointerDown s e).controller.dragTarget? = some target) :
    s.count .recorded (c.pointerDownRequests s e) = 0 ∧
      ∃ last, (c.pointerDown s e).controller.gesture = .dragging target last false := by
  refine ⟨?_, ?_⟩
  · rcases c.pointerDown_dragSource s e target h with ⟨hon, _⟩ | ⟨_, hnothing⟩
    · rw [hrest] at hon
      cases hon
    · rw [hnothing]
      rfl
  · rcases c.pointerDown_gesture s e (by rw [h]; rfl) with hsame | ⟨_, hfresh⟩
    · unfold Controller.dragTarget? at hrest h
      rw [hsame, hrest] at h
      cases h
    · unfold Controller.dragTarget? at h
      unfold Controller.hasDragged at hfresh
      cases hgesture : (c.pointerDown s e).controller.gesture with
      | dragging other last moved =>
        rw [hgesture] at h hfresh
        obtain rfl := Option.some.inj h
        exact ⟨last, congrArg (Gesture.dragging other last) hfresh⟩
      | _ =>
        rw [hgesture] at h
        cases h

/-- A whole drag, from the press that begins it to whatever ends it, records the annotations once if
something was moved, and else not at all. -/
theorem recorded_of_drag (w : Workbench) (hw : w.Coherent)
    (hrest : w.controller.dragTarget? = none) (now : Instant) (e : PointerEvent)
    (inside : List (Instant × Input))
    (hon : ∀ before, before <+: inside →
      ((w.handle now (.pointerDown e)).2.handleAll before).controller.dragTarget?.isSome = true)
    (halone : ∀ before time input, before ++ [(time, input)] <+: inside →
      input.isPointerMove = false →
        ((w.handle now (.pointerDown e)).2.handleAll before).count .recorded [(time, input)] = 0)
    (later : Instant) (ending : Input) (hmove : ending.isPointerMove = false)
    (hedit : ending.isEdit = false) :
    w.count .recorded ((now, .pointerDown e) :: inside ++ [(later, ending)]) =
      if (w.handle now (.pointerDown e)).2.drags inside then 1 else 0 := by
  obtain ⟨target, htarget⟩ := Option.isSome_iff_exists.mp (hon [] List.nil_prefix)
  obtain ⟨final, hfinal⟩ := Option.isSome_iff_exists.mp (hon inside (List.prefix_refl inside))
  change (w.handle now (.pointerDown e)).2.controller.dragTarget? = some target at htarget
  rw [handle_controller] at htarget
  obtain ⟨hpress, last, hgesture⟩ := pointerDown_begins _ _ e hrest target htarget
  change w.store.count .recorded (inputRequests w.controller w.store (.pointerDown e)) = 0 at hpress
  rw [List.cons_append, count_cons, count_append, count_singleton, hpress,
    count_recorded_of_not_edit _ _ ending final hfinal hmove hedit, Nat.zero_add, Nat.add_zero]
  apply recorded_of_dragging _ (hw.handle now (.pointerDown e)) target last false ?_ inside hon
    halone
  rw [handle_controller]
  exact hgesture

/-- From any moment of any run at which no drag has moved something, pressing undo as often as more
changes were recorded than undone since brings the annotations of that moment back. A drag counts
once as soon as something was moved, however often it moves. -/
theorem undo_balances (w : Workbench) (hw : w.Reachable) :
    (w.controller.hasDragged = false → ∀ inputs : List (Instant × Input),
      (∀ before, before <+: inputs → w.depth before ≤ w.store.history.limit) →
      (∀ before now shift, before ++ [(now, .keyDown .undo shift)] <+: inputs →
        w.depth before ≠ 0) →
      0 ≤ w.depth inputs ∧
        ∀ undos : List (Instant × Bool), undos.length = w.depth inputs →
          ((w.handleAll inputs).handleAll
            (undos.map fun (now, shift) ↦ (now, .keyDown .undo shift))).store.annotations =
              w.store.annotations) ∧
    (w.controller.dragTarget? = none → ∀ now e inside,
      let begun := (w.handle now (.pointerDown e)).2
      (∀ before, before <+: inside →
        (begun.handleAll before).controller.dragTarget?.isSome = true) →
      (∀ before time input, before ++ [(time, input)] <+: inside →
        input.isPointerMove = false →
          (begun.handleAll before).count .recorded [(time, input)] = 0) →
      ∀ later ending, ending.isPointerMove = false → ending.isEdit = false →
        w.count .recorded ((now, .pointerDown e) :: inside ++ [(later, ending)]) =
          if begun.drags inside then 1 else 0) := by
  refine ⟨?_, ?_⟩
  · intro hdragged inputs hroom hundo
    have hstart : Balanced w.store.annotations 0 w.controller w.store := by
      refine ⟨rfl, ?_⟩
      intro hnow
      rw [hdragged] at hnow
      cases hnow
    obtain ⟨after, hafter, hbalanced⟩ := hstart.handleAll inputs
      (fun before hbefore ↦ by
        rw [Int.natCast_zero, Int.zero_add]
        exact hroom before hbefore)
      (fun before now shift hbefore ↦ by
        rw [Int.natCast_zero, Int.zero_add]
        exact hundo before now shift hbefore)
    rw [Int.natCast_zero, Int.zero_add] at hafter
    refine ⟨?_, ?_⟩
    · rw [← hafter]
      exact Int.natCast_nonneg after
    · intro undos hundos
      rw [← hafter] at hundos
      apply annotations_undoAll
      rw [Int.natCast_inj.mp hundos]
      exact hbalanced.stack
  · intro hrest now e inside begun hon halone later ending hmove hedit
    exact recorded_of_drag w hw.coherent hrest now e inside hon halone later ending hmove hedit

/-- The patch is drawn and then dragged by two moves, which are two changes. Pressing undo twice
takes both back, and the moves count as one of them. -/
theorem undo_balances_drawing :
    let moves : List (Instant × Input) :=
      [.pointerMove (pointerAt 25 20), .pointerMove (pointerAt 30 20)].map
        fun input ↦ (⟨1, 0⟩, input)
    let dragging := (⟨1, 0⟩, Input.pointerDown (pointerAt 20 20)) :: moves ++
      [(⟨1, 0⟩, .pointerUp (pointerAt 30 20))]
    onePage.depth (drawing ++ dragging) = 2 ∧
      ((onePage.handleAll (drawing ++ dragging)).handleAll
        ([(⟨2, 0⟩, false), (⟨3, 0⟩, true)].map
          fun (now, shift) ↦ (now, .keyDown .undo shift))).store.annotations =
        onePage.store.annotations ∧
      (onePage.handleAll drawing).count .recorded dragging = 1 := by
  intro moves dragging
  have hdepth : onePage.depth (drawing ++ dragging) = 2 := by decide +kernel
  have hroom : ∀ before ∈ (drawing ++ dragging).inits,
      onePage.depth before ≤ onePage.store.history.limit := by decide +kernel
  obtain ⟨_, hundo⟩ := (undo_balances onePage onePage_reachable).1 rfl (drawing ++ dragging)
    (fun before hbefore ↦ hroom before ((List.mem_inits _ _).mpr hbefore))
    (fun before now shift hbefore ↦
      absurd (hbefore.subset (List.mem_append_right _ (List.mem_singleton.mpr rfl)))
        (by simp [drawing, dragging, moves]))
  have hon : ∀ before ∈ moves.inits,
      ((((onePage.handleAll drawing).handle ⟨1, 0⟩ (.pointerDown (pointerAt 20 20))).2.handleAll
        before).controller.dragTarget?.isSome = true) := by decide +kernel
  have honce := (undo_balances (onePage.handleAll drawing) (onePage_reachable.run _)).2
    (by decide +kernel) ⟨1, 0⟩ (pointerAt 20 20) moves
    (fun before hbefore ↦ hon before ((List.mem_inits _ _).mpr hbefore))
    (fun before time input hbefore hmove ↦ by
      have hmem := hbefore.subset (List.mem_append_right _ (List.mem_singleton.mpr rfl))
      simp only [moves, List.map_cons, List.map_nil, List.mem_cons, Prod.mk.injEq] at hmem
      rcases hmem with ⟨_, rfl⟩ | ⟨_, rfl⟩ | hnone
      · cases hmove
      · cases hmove
      · exact absurd hnone List.not_mem_nil)
    ⟨1, 0⟩ (.pointerUp (pointerAt 30 20)) rfl rfl
  refine ⟨hdepth, hundo _ hdepth.symm, honce.trans ?_⟩
  decide +kernel

end Workbench

end Marginalia
