import Marginalia.Proofs.Geometry.Rounding
import Marginalia.Proofs.Workbench.Effects
import Marginalia.Proofs.Workbench.Gestures

/-!
# Zooming with two fingers

Two fingers zoom by their distance, compared with the one that was measured when the latest finger
was put down. Which fingers are measured is not noted: they are those with the least numbers among
the ones on the screen. A finger that is put down has the distance measured anew, one that is lifted
has not; so the two fingers that are compared are the same until one of them is lifted while two
others stay.
-/

namespace Marginalia

open Ascending (IsAscending isAscending_insert)

/-! ## Fingers -/

/-- The finger that an input puts down. -/
def Input.presses? : Input → Option Nat
  | .pointerDown e => e.finger
  | _ => none

/-- The finger that an input lifts. -/
def Input.lifts? : Input → Option Nat
  | .pointerUp e => e.finger
  | _ => none

/-- The first elements are kept exactly if they are the first ones again. -/
theorem take_filter_eq_iff {α : Type} (p : α → Bool) (n : Nat) (l : List α) :
    (l.filter p).take n = l.take n ↔ ∀ a ∈ l.take n, p a = true := by
  refine ⟨fun h a ha ↦ ?_, fun h ↦ ?_⟩
  · rw [← h] at ha
    exact List.of_mem_filter (List.mem_of_mem_take ha)
  · induction l generalizing n with
    | nil => rfl
    | cons a rest ih =>
      cases n with
      | zero => rfl
      | succ n =>
        rw [List.take_succ_cons] at h
        rw [List.filter_cons_of_pos (h a List.mem_cons_self), List.take_succ_cons,
          List.take_succ_cons, ih n fun other hother ↦ h other (List.mem_cons_of_mem _ hother)]

namespace Touches

/-- The fingers whose distance is measured. -/
def measured (t : Touches) : List Nat := (t.map Prod.fst).take 2

/-- The fingers on the screen after an input. -/
def after (t : Touches) : Input → Touches
  | .pointerDown e => e.finger.elim t fun finger ↦ t.press finger e.place
  | .pointerMove e => e.finger.elim t fun finger ↦ t.move finger e.place
  | .pointerUp e => e.finger.elim t t.lift
  | _ => t

theorem fingers_move (t : Touches) (finger : Nat) (place : Point Scalar) :
    (t.move finger place).map Prod.fst = t.map Prod.fst := by
  unfold move
  rw [List.map_map]
  refine List.map_congr_left fun entry _ ↦ ?_
  obtain ⟨other, position⟩ := entry
  by_cases h : other = finger <;> simp [h]

theorem fingers_after_move (t : Touches) (e : PointerEvent) :
    (t.after (.pointerMove e)).map Prod.fst = t.map Prod.fst := by
  rw [after]
  cases e.finger with
  | none => rfl
  | some finger => exact t.fingers_move finger e.place

theorem length_after_move (t : Touches) (e : PointerEvent) :
    (t.after (.pointerMove e)).length = t.length := by
  rw [← List.length_map Prod.fst, fingers_after_move, List.length_map]

theorem fingers_lift (t : Touches) (finger : Nat) :
    (t.lift finger).map Prod.fst = (t.map Prod.fst).filter (· != finger) := by
  unfold lift
  rw [List.filter_map]
  rfl

theorem isAscending_iff (t : Touches) :
    IsAscending Prod.fst t ↔ (t.map Prod.fst).Pairwise (· < ·) :=
  List.pairwise_map.symm

theorem isAscending_after {t : Touches} (h : IsAscending Prod.fst t) (input : Input) :
    IsAscending Prod.fst (t.after input) := by
  cases input with
  | pointerDown e =>
    simp only [after]
    cases e.finger with
    | none => exact h
    | some finger => exact isAscending_insert _ h
  | pointerMove e =>
    simp only [after]
    cases e.finger with
    | none => exact h
    | some finger =>
      simp only [Option.elim_some]
      rwa [isAscending_iff, fingers_move, ← isAscending_iff]
  | pointerUp e =>
    simp only [after]
    cases e.finger with
    | none => exact h
    | some finger => exact h.filter _
  | _ => exact h

/-- A finger that is reported where it is does not move. -/
theorem move_of_mem {t : Touches} (h : IsAscending Prod.fst t) {finger : Nat} {place : Point Scalar}
    (hmem : (finger, place) ∈ t) : t.move finger place = t := by
  have hnodup : (t.map Prod.fst).Nodup :=
    ((isAscending_iff t).mp h).imp fun hlt ↦ Nat.ne_of_lt hlt
  refine (List.map_congr_left fun entry hentry ↦ ?_).trans (List.map_id t)
  dsimp only
  split
  · next heq =>
    obtain rfl := List.inj_on_of_nodup_map hnodup hmem hentry heq.symm
    rfl
  · rfl

/-- Fingers whose distance is measured are two. -/
theorem exists_of_distance? {t : Touches} {distance : Scalar} (h : t.distance? = some distance) :
    ∃ a p b q rest, t = (a, p) :: (b, q) :: rest ∧ distance = between p q := by
  unfold distance? at h
  split at h
  · next a p b q rest => exact ⟨a, p, b, q, rest, rfl, (Option.some.inj h).symm⟩
  · cases h

/-- The distance of two fingers that is above zero and finite. -/
theorem isLength_of_distance? {t : Touches} {distance : Scalar} (h : t.distance? = some distance)
    (hfinite : distance.isFinite = true) (hpos : 0 < distance) : distance.IsLength := by
  obtain ⟨_, p, _, q, _, _, rfl⟩ := exists_of_distance? h
  exact Scalar.isLength_of_pos hfinite hpos

/-- Lifting another finger leaves those whose distance is measured where they are. -/
theorem distance?_lift {t : Touches} {finger : Nat} (h : finger ∉ t.measured) :
    (t.lift finger).distance? = t.distance? := by
  match t with
  | [] => rfl
  | [(a, p)] => by_cases ha : a = finger <;> simp [lift, distance?, ha]
  | (a, p) :: (b, q) :: rest =>
    have ha : a ≠ finger := by rintro rfl; exact h List.mem_cons_self
    have hb : b ≠ finger := by rintro rfl; exact h (List.mem_cons_of_mem _ List.mem_cons_self)
    unfold lift
    rw [List.filter_cons_of_pos (by simpa using ha), List.filter_cons_of_pos (by simpa using hb)]
    rfl

theorem exists_distance? {t : Touches} (h : 2 ≤ t.length) :
    ∃ distance, t.distance? = some distance :=
  match t, h with
  | (_, p) :: (_, q) :: _, _ => ⟨between p q, rfl⟩

/-- What neither puts down nor moves fingers, nor lifts one that is measured, leaves the distance
alone. -/
theorem distance?_after {t : Touches} {input : Input} (hpress : input.presses? = none)
    (hmove : input.isPointerMove = false)
    (hlift : ∀ finger ∈ t.measured, input.lifts? ≠ some finger) :
    (t.after input).distance? = t.distance? := by
  cases input with
  | pointerDown e =>
    have hfinger : e.finger = none := hpress
    rw [after, hfinger, Option.elim_none]
  | pointerMove e => cases hmove
  | pointerUp e =>
    rw [after]
    cases hfinger : e.finger with
    | none => rfl
    | some finger => exact distance?_lift fun hmem ↦ hlift finger hmem hfinger
  | _ => rfl

/-- Without a press, an input takes away the finger that it lifts and no other one. -/
theorem fingers_after (t : Touches) {input : Input} (h : input.presses? = none) :
    (t.after input).map Prod.fst =
      (t.map Prod.fst).filter fun finger ↦ input.lifts? ≠ some finger := by
  cases input with
  | pointerDown e =>
    have hfinger : e.finger = none := h
    simp [after, hfinger, Input.lifts?]
  | pointerMove e =>
    cases hfinger : e.finger <;> simp [after, hfinger, Input.lifts?, fingers_move]
  | pointerUp e =>
    cases hfinger : e.finger with
    | none => simp [after, hfinger, Input.lifts?]
    | some finger =>
      simp only [after, hfinger, Option.elim_some, fingers_lift]
      refine List.filter_congr fun other _ ↦ ?_
      rw [Bool.eq_iff_iff]
      simpa [Input.lifts?, hfinger] using not_congr eq_comm
  | _ => simp [after, Input.lifts?]

/-- Without presses, those are left that no input lifts. -/
theorem fingers_foldl_after (t : Touches) {inputs : List Input}
    (h : ∀ input ∈ inputs, input.presses? = none) :
    (inputs.foldl after t).map Prod.fst =
      (t.map Prod.fst).filter fun finger ↦ inputs.all fun input ↦ input.lifts? ≠ some finger := by
  induction inputs generalizing t with
  | nil => simp
  | cons input rest ih =>
    rw [List.foldl_cons, ih _ fun other hother ↦ h other (List.mem_cons_of_mem _ hother),
      fingers_after t (h input List.mem_cons_self), List.filter_filter]
    refine List.filter_congr fun finger _ ↦ ?_
    rw [List.all_cons, Bool.and_comm]

/-- Without presses, the same fingers are measured exactly as long as neither is lifted. -/
theorem measured_foldl_after_iff (t : Touches) {inputs : List Input}
    (h : ∀ input ∈ inputs, input.presses? = none) :
    (inputs.foldl after t).measured = t.measured ↔
      ∀ finger ∈ t.measured, ∀ input ∈ inputs, input.lifts? ≠ some finger := by
  unfold measured
  rw [fingers_foldl_after t h, take_filter_eq_iff]
  simp only [List.all_eq_true, decide_eq_true_eq]

end Touches

/-! ## One input -/

/-- A finger that goes down begins to zoom: the distance is measured, and the zoom is that of the
moment. -/
structure Controller.BeginsPinch (c : Controller) (s : Store) (e : PointerEvent)
    (distance zoom : Scalar) : Prop where
  finger : e.finger.isSome = true
  gesture : (c.pointerDown s e).controller.gesture = .pinching distance zoom
  distance : (c.pointerDown s e).controller.touches.distance? = some distance
  zoom : zoom = s.state.zoom
  store : (c.pointerDown s e).store = s

namespace Controller

variable (c : Controller) (s : Store)

theorem track_touches (e : PointerEvent) (change : Touches → Nat → Touches) :
    (c.track e change).touches = e.finger.elim c.touches (change c.touches) := by
  unfold track
  cases e.finger <;> rfl

theorem press_touches (place : Point Scalar) :
    (c.press s place).controller.touches = c.touches := by
  unfold press placeText pressSelect
  cases s.state.mode with
  | addText => dsimp only; split <;> rfl
  | addRect => rfl
  | select =>
    dsimp only
    split
    · rfl
    · split
      · split <;> rfl
      · rfl

theorem pointerDown_touches (e : PointerEvent) :
    (c.pointerDown s e).controller.touches = c.touches.after (.pointerDown e) := by
  rw [Touches.after, ← c.track_touches e fun touches finger ↦ touches.press finger e.place]
  unfold pointerDown
  dsimp only
  split
  · rfl
  · split
    · rfl
    · split
      · exact press_touches _ s e.place
      · rfl

theorem pointerMove_touches (e : PointerEvent) :
    (c.pointerMove s e).controller.touches = c.touches.after (.pointerMove e) := by
  rw [Touches.after, ← c.track_touches e fun touches finger ↦ touches.move finger e.place]
  unfold pointerMove
  dsimp only
  generalize c.track e (fun touches finger ↦ touches.move finger e.place) = tracked
  cases tracked.gesture with
  | idle => dsimp only; split <;> rfl
  | drawing origin current => rfl
  | dragging target last moved => simp only [moveDrag]; split <;> rfl
  | panning origin initialScroll => simp only [movePan]; split <;> rfl
  | pinching initialDistance initialZoom => simp only [movePinch]; split <;> rfl

theorem release_touches (point : Point Scalar) :
    (c.release s point).controller.touches = c.touches := by
  unfold release
  dsimp only
  split <;> rfl

theorem pointerUp_touches (e : PointerEvent) :
    (c.pointerUp s e).controller.touches = c.touches.after (.pointerUp e) := by
  rw [Touches.after, ← c.track_touches e Touches.lift]
  unfold pointerUp
  dsimp only
  split
  · split <;> rfl
  · exact release_touches _ s _

/-- A press by itself begins other gestures only. -/
theorem press_not_pinching (place : Point Scalar) (hidle : c.gesture = .idle)
    (distance zoom : Scalar) : (c.press s place).controller.gesture ≠ .pinching distance zoom := by
  have hrest : c.gesture ≠ .pinching distance zoom := by simp [hidle]
  unfold press placeText pressSelect
  cases s.state.mode with
  | addText => dsimp only; split <;> exact hrest
  | addRect => simp
  | select =>
    dsimp only
    split
    · simp
    · split
      · split <;> exact hrest
      · exact hrest

theorem startPinch_pinching {distance zoom : Scalar}
    (h : (c.startPinch s).controller.gesture = .pinching distance zoom) :
    c.touches.distance? = some distance ∧ zoom = s.state.zoom := by
  unfold startPinch cancel at h
  dsimp only at h
  cases hdistance : c.touches.distance? with
  | none =>
    rw [hdistance] at h
    cases h
  | some measured =>
    rw [hdistance] at h
    dsimp only at h
    split at h
    · cases h
      exact ⟨rfl, rfl⟩
    · cases h

/-- Where fingers zoom after a press, the press began it, or it was no finger that was pressed. -/
theorem pointerDown_pinching {mode : EditMode} (hfits : c.Fits mode) (e : PointerEvent)
    {distance zoom : Scalar}
    (h : (c.pointerDown s e).controller.gesture = .pinching distance zoom) :
    c.BeginsPinch s e distance zoom ∨ e.finger = none ∧ c.gesture = .pinching distance zoom := by
  let tracked := c.track e fun touches finger ↦ touches.press finger e.place
  by_cases hstart : (e.finger.isSome && 2 ≤ tracked.touches.length) = true
  · have heq : c.pointerDown s e = tracked.startPinch s := if_pos hstart
    rw [heq] at h
    obtain ⟨hdistance, hzoom⟩ := tracked.startPinch_pinching s h
    refine .inl ⟨(Bool.and_eq_true_iff.mp hstart).1, heq ▸ h, ?_, hzoom, ?_⟩
    · rw [heq]
      exact hdistance
    · rw [heq]
      rfl
  · have hgesture : tracked.gesture = c.gesture := c.track_gesture e _
    have hdown : c.pointerDown s e =
        if e.button = .secondary then tracked.startPan s e.place
        else if tracked.gesture = .idle then tracked.press s e.place
        else ⟨tracked, s, .none⟩ := if_neg hstart
    rw [hdown] at h
    split at h
    · cases h
    · split at h
      · next hidle => exact absurd h (tracked.press_not_pinching s e.place hidle distance zoom)
      · have hpinching : c.gesture = .pinching distance zoom := hgesture ▸ h
        refine .inr ⟨?_, hpinching⟩
        cases hfinger : e.finger with
        | none => rfl
        | some finger =>
          -- two fingers have been zooming, so this one would have begun it anew
          have htracked : tracked.Fits mode := hfits.track e _ fun touches finger ↦
            touches.length_le_press finger e.place
          have htwo := (htracked.pinch distance zoom (hgesture.trans hpinching)).1
          exact absurd (by simp [hfinger, htwo]) hstart

theorem pointerMove_pinching (e : PointerEvent) {distance zoom : Scalar}
    (h : (c.pointerMove s e).controller.gesture = .pinching distance zoom) :
    c.gesture = .pinching distance zoom := by
  have hgesture := c.track_gesture e fun touches finger ↦ touches.move finger e.place
  rw [← hgesture]
  unfold pointerMove at h
  dsimp only at h
  generalize c.track e (fun touches finger ↦ touches.move finger e.place) = tracked at h ⊢
  cases hcase : tracked.gesture with
  | idle => simp [hcase] at h; split at h <;> simp [hcase] at h
  | drawing origin current => simp [hcase] at h
  | dragging target last moved => simp only [hcase, moveDrag] at h; split at h <;> cases h
  | panning origin initialScroll =>
    simp only [hcase, movePan] at h
    split at h
    · exact hcase.symm.trans h
    · cases h
  | pinching initialDistance initialZoom =>
    simp only [hcase, movePinch] at h; split at h <;> exact hcase.symm.trans h

/-- A finger that is lifted ends zooming, or leaves it as it is. -/
theorem pointerUp_pinching (e : PointerEvent) {distance zoom : Scalar}
    (h : (c.pointerUp s e).controller.gesture = .pinching distance zoom) :
    c.gesture = .pinching distance zoom := by
  have hgesture := c.track_gesture e Touches.lift
  rw [← hgesture]
  unfold pointerUp at h
  dsimp only at h
  generalize c.track e Touches.lift = tracked at h ⊢
  split at h
  · split at h
    · cases h
    · exact h
  · unfold release at h
    dsimp only at h
    split at h
    · cases h
    · cases h
    · exact h
    · cases h

end Controller

namespace Workbench

theorem react_touches (c : Controller) (s : Store) (input : Input) :
    (react c s input).controller.touches = c.touches.after input := by
  cases input with
  | pointerDown e => exact c.pointerDown_touches s e
  | pointerMove e => exact c.pointerMove_touches s e
  | pointerUp e => exact c.pointerUp_touches s e
  | keyDown key shift => cases key <;> rfl
  | _ => rfl

/-- Where fingers zoom after an input, a press began it, or they have been zooming before and no
finger was put down. -/
theorem react_pinching {c : Controller} {s : Store} {mode : EditMode} (hfits : c.Fits mode)
    (input : Input) {distance zoom : Scalar}
    (h : (react c s input).controller.gesture = .pinching distance zoom) :
    (∃ e, input = .pointerDown e ∧ c.BeginsPinch s e distance zoom) ∨
      input.presses? = none ∧ c.gesture = .pinching distance zoom := by
  cases input with
  | pointerDown e =>
    rcases c.pointerDown_pinching s hfits e h with hbegins | hstays
    · exact .inl ⟨e, rfl, hbegins⟩
    · exact .inr hstays
  | pointerMove e => exact .inr ⟨rfl, c.pointerMove_pinching s e h⟩
  | pointerUp e => exact .inr ⟨rfl, c.pointerUp_pinching s e h⟩
  | keyDown key shift => cases key <;> first | exact .inr ⟨rfl, h⟩ | cases h
  | setMode mode => cases h
  | setPage page => cases h
  | _ => exact .inr ⟨rfl, h⟩

/-- Where fingers zoom after an input that puts no finger down, they have been zooming before. -/
theorem react_stays {c : Controller} {s : Store} {mode : EditMode} (hfits : c.Fits mode)
    {input : Input} (hpress : input.presses? = none) {distance zoom : Scalar}
    (h : (react c s input).controller.gesture = .pinching distance zoom) :
    c.gesture = .pinching distance zoom := by
  rcases react_pinching hfits input h with ⟨press, rfl, hbegins⟩ | ⟨-, hstays⟩
  · have hfinger := hbegins.finger
    rw [show press.finger = none from hpress] at hfinger
    cases hfinger
  · exact hstays

end Workbench

/-! ## The zoom -/

namespace Store

theorem setZoom_zoom (s : Store) (zoom : Scalar) :
    (s.setZoom zoom).2.state.zoom = clampZoom zoom := by
  unfold setZoom
  dsimp only
  split
  · next heq => exact ((isZoom_clampZoom zoom).eq_of_beq heq).symm
  · rfl

theorem zoom_apply (s : Store) (operation : Operation) (h : operation.editKind ≠ .zoom) :
    (s.apply operation).2.state.zoom = s.state.zoom := by
  rcases (s.answered_apply operation).same_or_done with hsame | ⟨_, hedit⟩
  · exact congrArg (fun s ↦ s.state.zoom) hsame
  · change Edit s operation.editKind (s.apply operation).2 at hedit
    generalize operation.editKind = kind at h hedit
    generalize (s.apply operation).2 = s' at hedit ⊢
    cases hedit <;> first | rfl | exact absurd rfl h

theorem zoom_run (s : Store) (operations : List Operation)
    (h : ∀ operation ∈ operations, operation.editKind ≠ .zoom) :
    (s.run operations).state.zoom = s.state.zoom := by
  induction operations generalizing s with
  | nil => rfl
  | cons operation rest ih =>
    have hfirst := s.zoom_apply operation (h operation List.mem_cons_self)
    have hrest := ih (s.apply operation).2 fun other hmem ↦ h other (List.mem_cons_of_mem _ hmem)
    exact hrest.trans hfirst

theorem isZoom_run {s : Store} (h : IsZoom s.state.zoom) (operations : List Operation) :
    IsZoom (s.run operations).state.zoom := by
  induction operations generalizing s with
  | nil => exact h
  | cons operation rest ih =>
    refine ih (s := (s.apply operation).2) ?_
    cases operation with
    | setZoom zoom =>
      change IsZoom (s.setZoom zoom).2.state.zoom
      rw [setZoom_zoom]
      exact isZoom_clampZoom zoom
    | _ =>
      rw [zoom_apply s _ (by simp [Operation.editKind])]
      exact h

theorem Operation.editKind_ne_zoom {operation : Operation} (h : operation.keepsView = true) :
    operation.editKind ≠ .zoom := by
  intro hkind
  rw [keepsView, hkind] at h
  cases h

end Store

namespace Workbench

/-- An input that neither moves a pointer nor sets the zoom leaves it alone. -/
theorem react_zoom (c : Controller) (s : Store) (input : Input)
    (hmove : input.isPointerMove = false) (hset : ∀ zoom, input ≠ .setZoom zoom) :
    (react c s input).store.state.zoom = s.state.zoom := by
  rw [react_store]
  refine s.zoom_run _ fun operation hmem ↦ ?_
  cases input with
  | pointerDown e =>
    exact Store.Operation.editKind_ne_zoom (c.keepsView_of_pointerDownRequests s e operation hmem)
  | pointerMove e => cases hmove
  | pointerUp e =>
    exact Store.Operation.editKind_ne_zoom (c.keepsView_of_pointerUpRequests s e operation hmem)
  | keyDown key shift =>
    exact Store.Operation.editKind_ne_zoom
      (Controller.keepsView_of_keyRequests key shift operation hmem)
  | setZoom zoom => exact absurd rfl (hset zoom)
  | _ =>
    obtain rfl := List.mem_singleton.mp hmem
    simp [Store.Operation.editKind]

/-- A pointer that moves while fingers zoom sets the zoom by their distance. -/
theorem pointerMove_zoom (c : Controller) (s : Store) (e : PointerEvent)
    {distance zoom current : Scalar} (hgesture : c.gesture = .pinching distance zoom)
    (hcurrent : (c.touches.after (.pointerMove e)).distance? = some current) :
    (c.pointerMove s e).store.state.zoom = clampZoom (zoom * current / distance) := by
  have htracked := c.track_gesture e fun touches finger ↦ touches.move finger e.place
  rw [Touches.after, ← c.track_touches e fun touches finger ↦ touches.move finger e.place]
    at hcurrent
  unfold Controller.pointerMove
  dsimp only
  generalize c.track e (fun touches finger ↦ touches.move finger e.place) = tracked
    at htracked hcurrent ⊢
  simp only [htracked, hgesture, Controller.movePinch, hcurrent, Store.setZoom_zoom]

/-! ## Runs -/

/-- What some inputs do to the controller and the store, one after the other. -/
def reactAll (c : Controller) (s : Store) (inputs : List Input) : Controller × Store :=
  inputs.foldl (fun (c, s) input ↦ ((react c s input).controller, (react c s input).store)) (c, s)

theorem reactAll_append (c : Controller) (s : Store) (first second : List Input) :
    reactAll c s (first ++ second) =
      reactAll (reactAll c s first).1 (reactAll c s first).2 second :=
  List.foldl_append

theorem reactAll_touches (c : Controller) (s : Store) (inputs : List Input) :
    (reactAll c s inputs).1.touches = inputs.foldl Touches.after c.touches := by
  induction inputs generalizing c s with
  | nil => rfl
  | cons input rest ih =>
    rw [List.foldl_cons, ← react_touches c s input]
    exact ih (react c s input).controller (react c s input).store

/-- What zooming with fingers relies on: they are by ascending number, there are two of them, and
the zoom is one that there can be. -/
structure Poised (c : Controller) (s : Store) : Prop where
  fits : c.Fits s.state.mode
  ascending : IsAscending Prod.fst c.touches
  zoom : IsZoom s.state.zoom

theorem poised_new (textStyle : TextStyle) (rectColor : Color) {s : Store}
    (h : IsZoom s.state.zoom) : Poised (.new textStyle rectColor) s :=
  ⟨Controller.fits_new _ _ _, .nil, h⟩

theorem Poised.react {c : Controller} {s : Store} (h : Poised c s) (input : Input) :
    Poised (react c s input).controller (react c s input).store where
  fits := react_fits h.fits input
  ascending := by
    rw [react_touches]
    exact Touches.isAscending_after h.ascending input
  zoom := by
    rw [react_store]
    exact Store.isZoom_run h.zoom _

theorem Poised.reactAll {c : Controller} {s : Store} (h : Poised c s) (inputs : List Input) :
    Poised (reactAll c s inputs).1 (reactAll c s inputs).2 := by
  induction inputs generalizing c s with
  | nil => exact h
  | cons input rest ih => exact ih (h.react input)

/-- Fingers that zoom were put down: a press began it, and no finger has been put down since. -/
theorem exists_beginsPinch {c : Controller} {s : Store} (h : Poised c s)
    (hstill : c.isPinching = false) (inputs : List Input) {distance zoom : Scalar}
    (hpinch : (reactAll c s inputs).1.gesture = .pinching distance zoom) :
    ∃ before press later, inputs = before ++ .pointerDown press :: later ∧
      (reactAll c s before).1.BeginsPinch (reactAll c s before).2 press distance zoom ∧
      ∀ input ∈ later, input.presses? = none := by
  induction inputs using List.reverseRecOn with
  | nil =>
    have hgesture : c.gesture = .pinching distance zoom := hpinch
    rw [Controller.isPinching, hgesture] at hstill
    cases hstill
  | append_singleton inputs input ih =>
    rw [reactAll_append] at hpinch
    rcases react_pinching (h.reactAll inputs).fits input hpinch with
      ⟨press, rfl, hbegins⟩ | ⟨hpress, hstays⟩
    · exact ⟨inputs, press, [], rfl, hbegins, by simp⟩
    · obtain ⟨before, press, later, rfl, hbegins, hlater⟩ := ih hstays
      refine ⟨before, press, later ++ [input], by simp, hbegins, fun other hother ↦ ?_⟩
      rcases List.mem_append.mp hother with hmem | hmem
      · exact hlater other hmem
      · rwa [List.mem_singleton.mp hmem]

/-- An input that neither puts a finger down, nor lifts one of some fingers, nor sets the zoom. -/
structure Spares (fingers : List Nat) (input : Input) : Prop where
  presses : input.presses? = none
  lifts : ∀ finger ∈ fingers, input.lifts? ≠ some finger
  sets : ∀ zoom, input ≠ .setZoom zoom

/-- The zoom is set by the distance of the fingers, or it is as it was when the distance was first
measured, since nothing has moved from then on. -/
structure FollowsFingers (distance zoom : Scalar) (inputs : List Input) (current : Scalar)
    (c : Controller) (s : Store) : Prop where
  measured : c.touches.distance? = some current
  zoom : s.state.zoom = clampZoom (zoom * current / distance) ∨
    (∀ input ∈ inputs, input.isPointerMove = false) ∧ current = distance ∧ s.state.zoom = zoom

/-- Another input goes on with it. -/
theorem FollowsFingers.step {distance zoom current : Scalar} {inputs : List Input}
    {c : Controller} {s : Store} (h : FollowsFingers distance zoom inputs current c s)
    (hfits : c.Fits s.state.mode) (hpinch : c.gesture = .pinching distance zoom) (input : Input)
    (hspares : Spares c.touches.measured input) :
    ∃ next, FollowsFingers distance zoom (inputs ++ [input]) next (react c s input).controller
      (react c s input).store := by
  have htouches := react_touches c s input
  cases hmove : input.isPointerMove with
  | true =>
    -- a move sets the zoom anew, whatever it was before
    obtain ⟨e, rfl⟩ := input.exists_of_isPointerMove hmove
    have htwo : 2 ≤ (c.touches.after (.pointerMove e)).length := by
      rw [Touches.length_after_move]
      exact (hfits.pinch distance zoom hpinch).1
    obtain ⟨next, hnext⟩ := Touches.exists_distance? htwo
    exact ⟨next, htouches ▸ hnext, .inl (pointerMove_zoom c s e hpinch hnext)⟩
  | false =>
    -- anything else keeps both the distance and the zoom
    have hmeasured : (react c s input).controller.touches.distance? = some current := by
      rw [htouches, Touches.distance?_after hspares.presses hmove hspares.lifts]
      exact h.measured
    have hzoom := react_zoom c s input hmove hspares.sets
    refine ⟨current, hmeasured, h.zoom.imp hzoom.trans ?_⟩
    rintro ⟨hstill, hsame, hunchanged⟩
    refine ⟨fun other hother ↦ ?_, hsame, hzoom.trans hunchanged⟩
    rcases List.mem_append.mp hother with hmem | hmem
    · exact hstill other hmem
    · rwa [List.mem_singleton.mp hmem]

theorem exists_followsFingers {c : Controller} {s : Store} (h : Poised c s)
    {distance zoom : Scalar} (hdistance : c.touches.distance? = some distance)
    (hzoom : s.state.zoom = zoom) (inputs : List Input)
    (hspares : ∀ input ∈ inputs, Spares c.touches.measured input)
    (hpinch : (reactAll c s inputs).1.gesture = .pinching distance zoom) :
    ∃ current, FollowsFingers distance zoom inputs current (reactAll c s inputs).1
      (reactAll c s inputs).2 := by
  induction inputs using List.reverseRecOn with
  | nil => exact ⟨distance, hdistance, .inr ⟨by simp, rfl, hzoom⟩⟩
  | append_singleton inputs input ih =>
    have hinit : ∀ other ∈ inputs, Spares c.touches.measured other :=
      fun other hother ↦ hspares other (List.mem_append_left _ hother)
    have hlast : Spares c.touches.measured input := hspares input (by simp)
    have hfits := (h.reactAll inputs).fits
    rw [reactAll_append] at hpinch ⊢
    have hstays := react_stays hfits hlast.presses hpinch
    obtain ⟨current, hfollows⟩ := ih hinit hstays
    have hsame : (reactAll c s inputs).1.touches.measured = c.touches.measured := by
      rw [reactAll_touches]
      exact (Touches.measured_foldl_after_iff _ fun other hother ↦ (hinit other hother).presses).mpr
        fun finger hfinger other hother ↦ (hinit other hother).lifts finger hfinger
    exact hfollows.step hfits hstays input (hsame ▸ hlast)

/-! ## The fingers that are measured -/

/-- A pinch goes back to the press of a finger, which measured the distance of two fingers and noted
the zoom; no finger has been put down since. A pointer that moves sets the zoom by the distance of
two fingers again, and these are the same two exactly if neither has been lifted. Then a finger that
is reported where it is leaves the zoom as it is: exactly, if a pointer has moved since the press,
and otherwise up to rounding, as long as the distance is finite. -/
structure PinchedSince (c : Controller) (s : Store) (press : PointerEvent) (later : List Input)
    (distance zoom : Scalar) : Prop where
  begins : c.BeginsPinch s press distance zoom
  presses : ∀ input ∈ later, input.presses? = none
  moves : ∀ e,
    let pressed := c.pointerDown s press
    let reached := reactAll pressed.controller pressed.store later
    let moved := reached.1.pointerMove reached.2 e
    (moved.controller.touches.measured = pressed.controller.touches.measured ↔
        ∀ finger ∈ pressed.controller.touches.measured, ∀ input ∈ later,
          input.lifts? ≠ some finger) ∧
      ∃ current, moved.controller.touches.distance? = some current ∧
        moved.store.state.zoom = clampZoom (zoom * current / distance)
  rests : ∀ finger place button,
    let pressed := c.pointerDown s press
    let reached := reactAll pressed.controller pressed.store later
    let moved := reached.1.pointerMove reached.2 ⟨place, button, some finger⟩
    (∀ input ∈ later, Spares pressed.controller.touches.measured input) →
      (finger, place) ∈ reached.1.touches →
        ((∃ input ∈ later, input.isPointerMove = true) →
            moved.store.state.zoom = reached.2.state.zoom) ∧
          (distance.isFinite = true →
            |moved.store.state.zoom.value - reached.2.state.zoom.value| ≤
              reached.2.state.zoom.value / 2 ^ 21)

/-- A finger that is reported where it is leaves the zoom as it is, or nearly so. -/
theorem FollowsFingers.rests {distance zoom current : Scalar} {later : List Input}
    {c : Controller} {s : Store} (h : FollowsFingers distance zoom later current c s)
    (hpoised : Poised c s) (hpinch : c.gesture = .pinching distance zoom) {finger : Nat}
    {place : Point Scalar} (button : PointerButton) (hmem : (finger, place) ∈ c.touches) :
    let moved := c.pointerMove s ⟨place, button, some finger⟩
    ((∃ input ∈ later, input.isPointerMove = true) →
        moved.store.state.zoom = s.state.zoom) ∧
      (distance.isFinite = true →
        |moved.store.state.zoom.value - s.state.zoom.value| ≤ s.state.zoom.value / 2 ^ 21) := by
  intro moved
  have hsame : c.touches.after (.pointerMove ⟨place, button, some finger⟩) = c.touches :=
    Touches.move_of_mem hpoised.ascending hmem
  have hzoom : moved.store.state.zoom = clampZoom (zoom * current / distance) :=
    pointerMove_zoom c s _ hpinch (by rw [hsame]; exact h.measured)
  rw [hzoom]
  rcases h.zoom with hset | ⟨hstill, rfl, hunchanged⟩
  · refine ⟨fun _ ↦ hset.symm, fun _ ↦ ?_⟩
    obtain ⟨m, e, hnormal, -, -⟩ := hpoised.zoom.isNormal
    have hpos := hnormal.value_pos
    rw [hset] at hpos ⊢
    rw [sub_self, abs_zero]
    positivity
  · refine ⟨?_, fun hfinite ↦ ?_⟩
    · rintro ⟨input, hinput, hmove⟩
      rw [hstill input hinput] at hmove
      cases hmove
    · have hpos := (hpoised.fits.pinch _ zoom hpinch).2
      rw [← hunchanged]
      exact hpoised.zoom.abs_clampZoom_mul_div_sub_le
        (Touches.isLength_of_distance? h.measured hfinite hpos)

/-- Whatever has been input since, the press is told of by the fingers that zoom. -/
theorem pinchedSince {c : Controller} {s : Store} (h : Poised c s) {press : PointerEvent}
    {distance zoom : Scalar} (hbegins : c.BeginsPinch s press distance zoom) (later : List Input)
    (hpresses : ∀ input ∈ later, input.presses? = none)
    (hpinch : (reactAll c s (.pointerDown press :: later)).1.gesture = .pinching distance zoom) :
    PinchedSince c s press later distance zoom := by
  have hpressed := h.react (.pointerDown press)
  have hreached := hpressed.reactAll later
  refine ⟨hbegins, hpresses, fun e ↦ ?_, fun finger place button ↦ ?_⟩
  · intro pressed reached moved
    have htouches : moved.controller.touches = reached.1.touches.after (.pointerMove e) :=
      reached.1.pointerMove_touches reached.2 e
    have htwo : 2 ≤ moved.controller.touches.length := by
      rw [htouches, Touches.length_after_move]
      exact (hreached.fits.pinch distance zoom hpinch).1
    obtain ⟨current, hcurrent⟩ := Touches.exists_distance? htwo
    refine ⟨?_, current, hcurrent, pointerMove_zoom _ _ e hpinch (htouches ▸ hcurrent)⟩
    have hmeasured : moved.controller.touches.measured = reached.1.touches.measured := by
      rw [htouches, Touches.measured, Touches.fingers_after_move]
      rfl
    have hrun : reached.1.touches = later.foldl Touches.after pressed.controller.touches :=
      reactAll_touches _ _ later
    rw [hmeasured, hrun]
    exact Touches.measured_foldl_after_iff _ hpresses
  · intro pressed reached moved hspares hmem
    have hunchanged : pressed.store.state.zoom = zoom := by
      rw [hbegins.zoom, hbegins.store]
    obtain ⟨current, hfollows⟩ := exists_followsFingers hpressed hbegins.distance hunchanged later
      hspares hpinch
    exact hfollows.rests hreached hpinch button hmem

/-- However fingers are put down, moved and lifted, and whatever else is input: if two fingers zoom,
they have done so since the press of a finger. -/
theorem pinch_holds_unless_lifted (textStyle : TextStyle) (rectColor : Color) {s : Store}
    (hzoom : IsZoom s.state.zoom) (inputs : List Input) {distance zoom : Scalar}
    (hpinch : (reactAll (.new textStyle rectColor) s inputs).1.gesture =
      .pinching distance zoom) :
    ∃ before press later, inputs = before ++ .pointerDown press :: later ∧
      let pressed := reactAll (.new textStyle rectColor) s before
      PinchedSince pressed.1 pressed.2 press later distance zoom := by
  have hnew := poised_new textStyle rectColor hzoom
  obtain ⟨before, press, later, rfl, hbegins, hpresses⟩ := exists_beginsPinch hnew rfl inputs hpinch
  rw [reactAll_append] at hpinch
  exact ⟨before, press, later, rfl,
    pinchedSince (hnew.reactAll before) hbegins later hpresses hpinch⟩

/-- A finger at a point. -/
def fingerAt (finger : Nat) (x y : Scalar) : PointerEvent := ⟨⟨x, y⟩, .primary, some finger⟩

/-- Three fingers in a row. -/
def threeFingers : List Input :=
  [.pointerDown (fingerAt 1 0 0), .pointerDown (fingerAt 2 100 0), .pointerDown (fingerAt 3 300 0)]

/-- The second of three fingers moves away from the first, and the third is lifted. -/
theorem pinch_holds_unless_lifted_third :
    let inputs := threeFingers ++ [.pointerMove (fingerAt 2 200 0), .pointerUp (fingerAt 3 300 0)]
    IsZoom onePage.store.state.zoom ∧
      (reactAll (.new .standard .black) onePage.store inputs).1.gesture = .pinching 100 1 ∧
      ∃ before press later, inputs = before ++ .pointerDown press :: later ∧
        let pressed := reactAll (.new .standard .black) onePage.store before
        PinchedSince pressed.1 pressed.2 press later 100 1 := by
  intro inputs
  have hzoom : IsZoom onePage.store.state.zoom := onePage_reachable.coherent.store.view.zoom
  have hpinch : (reactAll (.new .standard .black) onePage.store inputs).1.gesture =
      .pinching 100 1 := by
    decide +kernel
  exact ⟨hzoom, hpinch, pinch_holds_unless_lifted .standard .black hzoom inputs hpinch⟩

/-- The first of three fingers is lifted: the other two are measured against the distance of the
first two, and one of them that is reported where it is doubles the zoom. -/
theorem pinch_jumps_lifted_first :
    let inputs := threeFingers ++ [.pointerUp (fingerAt 1 0 0)]
    let reached := reactAll (.new .standard .black) onePage.store inputs
    reached.1.gesture = .pinching 100 1 ∧ reached.1.touches = [(2, ⟨100, 0⟩), (3, ⟨300, 0⟩)] ∧
      reached.2.state.zoom = 1 ∧
      (reached.1.pointerMove reached.2 (fingerAt 2 100 0)).store.state.zoom = 2 := by
  decide +kernel

/-- Two fingers so far apart that their distance is infinite have the zoom reset when one of them is
reported where it is. -/
theorem pinch_jumps_infinite :
    let inputs : List Input :=
      [.setZoom 2, .pointerDown (fingerAt 1 0 0), .pointerDown (fingerAt 2 1e20 0)]
    let reached := reactAll (.new .standard .black) onePage.store inputs
    reached.1.isPinching = true ∧ reached.2.state.zoom = 2 ∧
      (reached.1.pointerMove reached.2 (fingerAt 2 1e20 0)).store.state.zoom = 1 := by
  decide +kernel

end Workbench

end Marginalia
