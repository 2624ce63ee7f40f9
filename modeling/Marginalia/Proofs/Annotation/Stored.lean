import Mathlib.Logic.Basic
import Marginalia.Annotation.Stored
import Marginalia.Proofs.Color
import Marginalia.Proofs.Json.Decoding

/-!
# Stored annotations read back

An annotation is decoded from what is stored of it if its number and its page fit the stored fields
and its coordinates and sizes are finite. One that is not finite is stored as `null`, and then
nothing of the whole set is decoded. That the text of a finite number reads back as that number is a
property of the number, which the statements ask for.
-/

namespace Marginalia

open Json (Value Record Readable)

/-- The stored text of a finite number is read as that number. -/
def Scalar.ReadsBack (x : Scalar) : Prop :=
  x.isFinite = true → (Json.ofSingle x).single? = some x

instance (x : Scalar) : Decidable x.ReadsBack := inferInstanceAs (Decidable (_ → _))

/-- The coordinates and sizes of a label. -/
def Label.scalars (l : Label) : List Scalar := [l.x, l.y, l.style.fontSize, l.width, l.height]

/-- The coordinates and sizes of a patch. -/
def Patch.scalars (p : Patch) : List Scalar := [p.x, p.y, p.width, p.height]

/-- The coordinates and sizes of all annotations. -/
def AnnotationSet.scalars (s : AnnotationSet) : List Scalar :=
  s.labels.flatMap Label.scalars ++ s.patches.flatMap Patch.scalars

/-- Whether all numbers are finite. -/
def areFinite (xs : List Scalar) : Bool := xs.all Float32.isFinite

/-- A number and a page that fit the stored fields of 64 and 32 bits. -/
def FitsFields (id page : Nat) : Prop := id < 0x10000000000000000 ∧ page < 0x100000000

instance (id page : Nat) : Decidable (FitsFields id page) := inferInstanceAs (Decidable (_ ∧ _))

/-- The numbers and pages of all annotations fit the stored fields. -/
structure AnnotationSet.FitsFields (s : AnnotationSet) : Prop where
  labels : ∀ l ∈ s.labels, Marginalia.FitsFields l.id l.page
  patches : ∀ p ∈ s.patches, Marginalia.FitsFields p.id p.page

namespace Stored

/-- What is read of the stored text of a number. -/
theorem single?_ofSingle {x : Scalar} (h : x.ReadsBack) :
    (Json.ofSingle x).single? = if x.isFinite then some x else none := by
  cases hfinite : x.isFinite with
  | true => rw [h hfinite]; rfl
  | false => rw [Json.ofSingle_of_not_isFinite hfinite]; rfl

theorem color?_hex (c : Color) : color? (.string c.hex) = some c := by
  simp [color?, Value.string?]

theorem family?_name (family : FontFamily) : family? (.string family.name) = some family := by
  cases family <;> decide

theorem ite_bind {α β : Type} {c : Prop} [Decidable c] (a : α) (f : α → Option β) :
    (if c then some a else none).bind f = if c then f a else none := by
  split <;> rfl

theorem style?_ofStyle (standard s : TextStyle) (h : s.fontSize.ReadsBack) :
    style? standard (ofStyle s) = if s.fontSize.isFinite then some s else none := by
  simp [style?, ofStyle, Record.ofValue?, Record.withDefault?, Record.value?, single?_ofSingle h,
    color?_hex, family?_name, ite_bind]

theorem label?_ofLabel (l : Label) (hfits : FitsFields l.id l.page)
    (h : ∀ x ∈ l.scalars, x.ReadsBack) :
    label? (ofLabel l) = if areFinite l.scalars then some l else none := by
  simp only [Label.scalars, List.forall_mem_cons] at h
  obtain ⟨hx, hy, hsize, hwidth, hheight, -⟩ := h
  simp [label?, ofLabel, Record.ofValue?, Record.withDefault?, Record.value?, Record.required?,
    Json.nat64?_ofNat hfits.1, Json.nat32?_ofNat hfits.2, single?_ofSingle hx, single?_ofSingle hy,
    style?_ofStyle _ _ hsize, single?_ofSingle hwidth, single?_ofSingle hheight, ite_bind,
    areFinite, Label.scalars, Value.string?, ite_and]

theorem patch?_ofPatch (p : Patch) (hfits : FitsFields p.id p.page)
    (h : ∀ x ∈ p.scalars, x.ReadsBack) :
    patch? (ofPatch p) = if areFinite p.scalars then some p else none := by
  simp only [Patch.scalars, List.forall_mem_cons] at h
  obtain ⟨hx, hy, hwidth, hheight, -⟩ := h
  simp [patch?, ofPatch, Record.ofValue?, Record.value?, Record.required?,
    Json.nat64?_ofNat hfits.1, Json.nat32?_ofNat hfits.2, single?_ofSingle hx, single?_ofSingle hy,
    single?_ofSingle hwidth, single?_ofSingle hheight, ite_bind, areFinite, Patch.scalars,
    color?_hex, ite_and]

/-- A list is read if each of its elements is. -/
theorem mapM_ite {α β : Type} (read : β → Option α) (write : α → β) (good : α → Bool)
    (items : List α)
    (h : ∀ a ∈ items, read (write a) = if good a then some a else none) :
    (items.map write).mapM read = if items.all good then some items else none := by
  induction items with
  | nil => rfl
  | cons a rest ih =>
    have hrest := ih fun b hb ↦ h b (List.mem_cons_of_mem _ hb)
    simp [List.mapM_cons, h a List.mem_cons_self, hrest, ite_bind, ite_and]

/-- An annotation set is read from what is stored of it exactly if all its coordinates and sizes are
finite. -/
theorem set?_ofSet (s : AnnotationSet) (hfits : s.FitsFields)
    (h : ∀ x ∈ s.scalars, x.ReadsBack) :
    set? (ofSet s) = if areFinite s.scalars then some s else none := by
  have hlabels := mapM_ite label? ofLabel (fun l ↦ areFinite l.scalars) s.labels fun l hl ↦
    label?_ofLabel l (hfits.labels l hl) fun x hx ↦
      h x (List.mem_append_left _ (List.mem_flatMap.mpr ⟨l, hl, hx⟩))
  have hpatches := mapM_ite patch? ofPatch (fun p ↦ areFinite p.scalars) s.patches fun p hp ↦
    patch?_ofPatch p (hfits.patches p hp) fun x hx ↦
      h x (List.mem_append_right _ (List.mem_flatMap.mpr ⟨p, hp, hx⟩))
  have hall : areFinite s.scalars = (s.labels.all (fun l ↦ areFinite l.scalars) &&
      s.patches.all fun p ↦ areFinite p.scalars) := by
    simp [areFinite, AnnotationSet.scalars, List.all_append, List.all_flatMap]
  rw [hall]
  simp [set?, ofSet, Record.ofValue?, Record.withDefault?, Record.value?, Value.list?,
    Value.array?, hlabels, hpatches, ite_bind, ite_and]

/-! ## The stored form can be read -/

theorem readable_ofStyle (depth : Nat) (s : TextStyle) : Readable (depth + 1) (ofStyle s) :=
  .object (by simp [Json.readable_ofSingle, Readable.string])

theorem readable_ofLabel (depth : Nat) (l : Label) : Readable (depth + 2) (ofLabel l) :=
  .object (by simp [Json.readable_ofSingle, Json.readable_ofNat, readable_ofStyle, Readable.string])

theorem readable_ofPatch (depth : Nat) (p : Patch) : Readable (depth + 2) (ofPatch p) :=
  .object (by simp [Json.readable_ofSingle, Json.readable_ofNat, Readable.string])

theorem readable_ofSet (depth : Nat) (s : AnnotationSet) : Readable (depth + 4) (ofSet s) := by
  have hlabels : Readable (depth + 3) (.array (s.labels.map ofLabel)) := by
    refine .array fun item hitem ↦ ?_
    obtain ⟨l, -, rfl⟩ := List.mem_map.mp hitem
    exact readable_ofLabel depth l
  have hpatches : Readable (depth + 3) (.array (s.patches.map ofPatch)) := by
    refine .array fun item hitem ↦ ?_
    obtain ⟨p, -, rfl⟩ := List.mem_map.mp hitem
    exact readable_ofPatch depth p
  exact .object (by simp [hlabels, hpatches])

end Stored

end Marginalia
