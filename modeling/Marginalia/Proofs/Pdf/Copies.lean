import Marginalia.Pdf.Writer
import Marginalia.Proofs.Pdf.Pages

/-!
# Documents read again

A document that is written to a file and read again starts at the same object and has the objects
that were written, in which whole numbers may have become integers. Those that belonged to the
layout of an earlier file are not written, and what belongs to the layout of the new one is read
with the rest. So, numbers aside, the two documents extend what they have in common, from which all
pages are read.
-/

namespace Marginalia.Pdf

/-! ## Equality of objects -/

namespace Object

mutual

/-- Whether two objects are the same. -/
def agrees : Object → Object → Bool
  | .null, .null => true
  | .boolean a, .boolean b => a = b
  | .integer a, .integer b => a = b
  | .real a, .real b => a = b
  | .name a, .name b => a = b
  | .string a form, .string b form' => a = b && form = form'
  | .array a, .array b => agreesItems a b
  | .dictionary a, .dictionary b => agreesEntries a b
  | .stream a content, .stream b content' => agreesEntries a b && content = content'
  | .reference a, .reference b => a = b
  | _, _ => false

/-- Whether two lists have the same items. -/
def agreesItems : List Object → List Object → Bool
  | [], [] => true
  | a :: as, b :: bs => agrees a b && agreesItems as bs
  | _, _ => false

/-- Whether two lists have the same entries. -/
def agreesEntries : List (String × Object) → List (String × Object) → Bool
  | [], [] => true
  | (key, a) :: as, (key', b) :: bs => key = key' && agrees a b && agreesEntries as bs
  | _, _ => false

end

mutual

theorem agrees_iff (a b : Object) : agrees a b = true ↔ a = b := by
  cases a <;> cases b <;> simp [agrees, agreesItems_iff, agreesEntries_iff]

theorem agreesItems_iff (as bs : List Object) : agreesItems as bs = true ↔ as = bs := by
  cases as <;> cases bs <;> simp [agreesItems, agrees_iff, agreesItems_iff]

theorem agreesEntries_iff (as bs : List (String × Object)) :
    agreesEntries as bs = true ↔ as = bs := by
  cases as <;> cases bs <;>
    simp [agreesEntries, agrees_iff, agreesEntries_iff, Prod.ext_iff]

end

instance : DecidableEq Object := fun a b ↦ decidable_of_iff _ (agrees_iff a b)

end Object

/-! ## Whole numbers -/

namespace Object

/-- A number as it is read again. The text of a whole one has no point, and is that of an
integer. -/
def numberAsRead (x : Float32) : Object :=
  match Syntax.integer? (Bytes.ofText (Decimal.singleText x)) with
  | some (n, []) => .integer n
  | _ => .real x

mutual

/-- An object with its numbers as they are read again. -/
def asRead : Object → Object
  | .real x => numberAsRead x
  | .array items => .array (itemsAsRead items)
  | .dictionary entries => .dictionary (entriesAsRead entries)
  | .stream entries content => .stream (entriesAsRead entries) content
  | object => object

def itemsAsRead : List Object → List Object
  | [] => []
  | item :: items => asRead item :: itemsAsRead items

def entriesAsRead : List (String × Object) → List (String × Object)
  | [] => []
  | (key, value) :: entries => (key, asRead value) :: entriesAsRead entries

end

theorem itemsAsRead_eq (items : List Object) : itemsAsRead items = items.map asRead := by
  induction items with
  | nil => rfl
  | cons item items ih => rw [itemsAsRead, ih, List.map_cons]

theorem numberAsRead_cases (x : Float32) :
    numberAsRead x = .real x ∨ ∃ n, numberAsRead x = .integer n := by
  unfold numberAsRead
  split
  · exact Or.inr ⟨_, rfl⟩
  · exact Or.inl rfl

/-- What does not tell numbers apart takes a number as it is for what is read again. -/
theorem apply_numberAsRead {α : Type} (f : Object → α) (x : Float32)
    (h : ∀ n, f (.integer n) = f (.real x)) : f (numberAsRead x) = f (.real x) := by
  rcases numberAsRead_cases x with hsame | ⟨n, hwhole⟩
  · rw [hsame]
  · rw [hwhole, h]

mutual

/-- Nothing changes when an object is read once more. -/
theorem asRead_asRead (object : Object) : object.asRead.asRead = object.asRead := by
  cases object with
  | real x =>
    rw [asRead]
    rcases numberAsRead_cases x with hsame | ⟨n, hwhole⟩
    · rw [hsame, asRead, hsame]
    · rw [hwhole]
      rfl
  | array items => rw [asRead, asRead, itemsAsRead_itemsAsRead items]
  | dictionary entries => rw [asRead, asRead, entriesAsRead_entriesAsRead entries]
  | stream entries content => rw [asRead, asRead, entriesAsRead_entriesAsRead entries]
  | _ => rfl

theorem itemsAsRead_itemsAsRead (items : List Object) :
    itemsAsRead (itemsAsRead items) = itemsAsRead items := by
  cases items with
  | nil => rfl
  | cons item items =>
    rw [itemsAsRead, itemsAsRead, asRead_asRead item, itemsAsRead_itemsAsRead items]

theorem entriesAsRead_entriesAsRead (entries : List (String × Object)) :
    entriesAsRead (entriesAsRead entries) = entriesAsRead entries := by
  match entries with
  | [] => rfl
  | (key, value) :: entries =>
    rw [entriesAsRead, entriesAsRead, asRead_asRead value, entriesAsRead_entriesAsRead entries]

end

theorem reference?_asRead (object : Object) : object.asRead.reference? = object.reference? := by
  cases object with
  | real x => exact apply_numberAsRead reference? x fun _ ↦ rfl
  | _ => rfl

theorem name?_asRead (object : Object) : object.asRead.name? = object.name? := by
  cases object with
  | real x => exact apply_numberAsRead name? x fun _ ↦ rfl
  | _ => rfl

theorem array?_asRead (object : Object) :
    object.asRead.array? = object.array?.map (List.map asRead) := by
  cases object with
  | real x => exact apply_numberAsRead array? x fun _ ↦ rfl
  | array items => exact congrArg some (itemsAsRead_eq items)
  | _ => rfl

theorem dictionary?_asRead (object : Object) :
    object.asRead.dictionary? = object.dictionary?.map entriesAsRead := by
  cases object with
  | real x => exact apply_numberAsRead dictionary? x fun _ ↦ rfl
  | _ => rfl

theorem asRead_eq_reference_iff {object : Object} {id : ObjectId} :
    object.asRead = .reference id ↔ object = .reference id := by
  have hiff (o : Object) : o = .reference id ↔ o.reference? = some id := by
    cases o <;> simp [reference?]
  rw [hiff, hiff, reference?_asRead]

theorem asRead_eq_dictionary_iff {object : Object} {d : Dictionary} :
    object.asRead = .dictionary d ↔
      ∃ entries, object = .dictionary entries ∧ entriesAsRead entries = d := by
  have hiff (o : Object) (e : Dictionary) : o = .dictionary e ↔ o.dictionary? = some e := by
    cases o <;> simp [dictionary?]
  simp only [hiff, dictionary?_asRead, Option.map_eq_some_iff]

end Object

namespace Dictionary

open Object (entriesAsRead)

theorem get?_entriesAsRead (d : Dictionary) (key : String) :
    get? (entriesAsRead d) key = (d.get? key).map Object.asRead := by
  induction d with
  | nil => rfl
  | cons entry rest ih =>
    obtain ⟨k, v⟩ := entry
    by_cases h : k = key
    · simp [entriesAsRead, get?, h]
    · simpa [entriesAsRead, get?, h] using ih

theorem get?_asRead_eq_dictionary_iff {d e : Dictionary} {key : String} :
    get? (entriesAsRead d) key = some (.dictionary e) ↔
      ∃ entries, d.get? key = some (.dictionary entries) ∧ entriesAsRead entries = e := by
  rw [get?_entriesAsRead, Option.map_eq_some_iff]
  simp only [Object.asRead_eq_dictionary_iff]
  constructor
  · rintro ⟨_, hget, entries, rfl, heq⟩
    exact ⟨entries, hget, heq⟩
  · rintro ⟨entries, hget, heq⟩
    exact ⟨_, hget, entries, rfl, heq⟩

theorem get?_asRead_eq_reference_iff {d : Dictionary} {key : String} {id : ObjectId} :
    get? (entriesAsRead d) key = some (.reference id) ↔ d.get? key = some (.reference id) := by
  rw [get?_entriesAsRead, Option.map_eq_some_iff]
  simp [Object.asRead_eq_reference_iff]

theorem typeName?_entriesAsRead (d : Dictionary) :
    Document.typeName? (entriesAsRead d) = Document.typeName? d := by
  unfold Document.typeName? has
  rw [get?_entriesAsRead, get?_entriesAsRead, Option.isSome_map, Option.bind_map]
  simp only [Function.comp_def, Object.name?_asRead]

theorem AgreesAside.asRead {d d' : Dictionary} (h : d.AgreesAside d') :
    AgreesAside (entriesAsRead d) (entriesAsRead d') := by
  intro key hcontents hresources
  rw [get?_entriesAsRead, get?_entriesAsRead, h key hcontents hresources]

theorem IsInert.asRead {d : Dictionary} (h : d.IsInert) : IsInert (entriesAsRead d) where
  get?_eq_none := by
    intro key hkey
    rw [get?_entriesAsRead, h.get?_eq_none key hkey]
    rfl
  typeName?_ne_page := by
    rw [typeName?_entriesAsRead]
    exact h.typeName?_ne_page
  typeName?_ne_pages := by
    rw [typeName?_entriesAsRead]
    exact h.typeName?_ne_pages

end Dictionary

namespace Object

theorem Resembles.asRead {object object' : Object} (h : object.Resembles object') :
    object.asRead.Resembles object'.asRead := by
  rcases h with rfl | ⟨d, d', rfl, rfl, hagree⟩
  · exact .refl _
  · exact Or.inr ⟨_, _, rfl, rfl, hagree.asRead⟩

theorem IsInert.asRead {object : Object} (h : object.IsInert) : object.asRead.IsInert := by
  cases object with
  | dictionary d => exact Dictionary.IsInert.asRead h
  | stream entries content => exact trivial
  | _ => exact h.elim

end Object

/-! ## Documents with their numbers as they are read -/

theorem ObjectTable.get?_map (t : ObjectTable) (f : Object → Object) (id : ObjectId) :
    ObjectTable.get? (t.map fun entry ↦ (entry.1, f entry.2)) id = (t.get? id).map f := by
  induction t with
  | nil => rfl
  | cons entry rest ih =>
    obtain ⟨other, object⟩ := entry
    by_cases hid : other = id
    · simp [get?, hid]
    · simpa [get?, hid] using ih

namespace Document

/-- A document with the numbers in its objects as they are read again. -/
def asRead (doc : Document) : Document :=
  { doc with objects := doc.objects.map fun entry ↦ (entry.1, entry.2.asRead) }

variable (doc : Document)

theorem get?_asRead (id : ObjectId) :
    doc.asRead.objects.get? id = (doc.objects.get? id).map Object.asRead :=
  doc.objects.get?_map Object.asRead id

theorem follow?_asRead (limit : Nat) (last : Option ObjectId) (object : Object) :
    doc.asRead.follow? limit last object.asRead =
      (doc.follow? limit last object).map fun found ↦ (found.1, found.2.asRead) := by
  by_cases hreference : ∃ id, object = .reference id
  · obtain ⟨id, rfl⟩ := hreference
    induction limit generalizing last id with
    | zero => rfl
    | succ limit ih =>
      rw [show (Object.reference id).asRead = .reference id from rfl, follow?_reference,
        follow?_reference, get?_asRead]
      cases doc.objects.get? id with
      | none => rfl
      | some next =>
        simp only [Option.map_some, Option.bind_some]
        by_cases hnext : ∃ other, next = .reference other
        · obtain ⟨other, rfl⟩ := hnext
          exact ih (some id) other
        · have hread : ∀ other, next.asRead ≠ .reference other :=
            fun other h ↦ hnext ⟨other, Object.asRead_eq_reference_iff.mp h⟩
          rw [follow?_of_not_reference _ _ _ hread,
            follow?_of_not_reference _ _ _ (not_exists.mp hnext)]
          rfl
  · have hread : ∀ id, object.asRead ≠ .reference id :=
      fun id h ↦ hreference ⟨id, Object.asRead_eq_reference_iff.mp h⟩
    rw [follow?_of_not_reference _ _ _ hread,
      follow?_of_not_reference _ _ _ (not_exists.mp hreference)]
    rfl

theorem object?_asRead (id : ObjectId) :
    doc.asRead.object? id = (doc.object? id).map Object.asRead := by
  rw [object?_eq, object?_eq, get?_asRead, Option.bind_map]
  simp only [Function.comp_def, follow?_asRead, Option.map_bind, Option.map_map]

theorem storedId?_asRead (id : ObjectId) : doc.asRead.storedId? id = doc.storedId? id := by
  rw [storedId?_eq, storedId?_eq, get?_asRead, Option.bind_map]
  simp only [Function.comp_def, follow?_asRead, Option.map_bind, Option.map_map]

theorem dictionary?_asRead (id : ObjectId) :
    doc.asRead.dictionary? id = (doc.dictionary? id).map Object.entriesAsRead := by
  unfold dictionary?
  rw [object?_asRead]
  cases doc.object? id with
  | none => rfl
  | some object => exact object.dictionary?_asRead

theorem nodeType?_asRead (id : ObjectId) : doc.asRead.nodeType? id = doc.nodeType? id := by
  unfold nodeType?
  rw [dictionary?_asRead]
  cases doc.dictionary? id with
  | none => rfl
  | some d => exact d.typeName?_entriesAsRead

theorem kids_asRead (node : ObjectId) :
    doc.asRead.kids node = (doc.kids node).map Object.asRead := by
  unfold kids
  rw [dictionary?_asRead]
  cases doc.dictionary? node with
  | none => rfl
  | some d =>
    simp only [Option.map_some, Option.bind_some, Dictionary.get?_entriesAsRead]
    cases d.get? "Kids" with
    | none => rfl
    | some object =>
      simp only [Option.map_some, Option.bind_some, Object.array?_asRead]
      cases object.array? <;> rfl

theorem pagesRoot_asRead :
    (doc.asRead.catalog?.bind fun d ↦ (d.get? "Pages").bind Object.reference?) =
      doc.catalog?.bind fun d ↦ (d.get? "Pages").bind Object.reference? := by
  unfold catalog?
  rw [show doc.asRead.trailer = doc.trailer from rfl]
  cases doc.trailer.get? "Root" with
  | none => rfl
  | some object =>
    cases hid : object.reference? with
    | none => simp [hid]
    | some id =>
      simp only [Option.bind_eq_bind, Option.bind_some, hid, dictionary?_asRead]
      cases doc.dictionary? id with
      | none => rfl
      | some d =>
        simp only [Option.map_some, Option.bind_some, Dictionary.get?_entriesAsRead]
        cases d.get? "Pages" with
        | none => rfl
        | some pages => exact pages.reference?_asRead

theorem nextKid_asRead (siblings : List Object) (waiting : List (List Object)) :
    nextKid (siblings.map Object.asRead) (waiting.map (List.map Object.asRead)) =
      (nextKid siblings waiting).map fun next ↦
        (next.1.asRead, next.2.1.map Object.asRead, next.2.2.map (List.map Object.asRead)) := by
  cases siblings with
  | cons kid siblings => simp [nextKid]
  | nil =>
    induction waiting with
    | nil => simp [nextKid]
    | cons first rest ih =>
      cases first with
      | nil => simpa [nextKid] using ih
      | cons kid siblings => simp [nextKid]

theorem pageAt?_asRead (kid : Object) : doc.asRead.pageAt? kid.asRead = doc.pageAt? kid := by
  unfold pageAt?
  simp only [Object.reference?_asRead, nodeType?_asRead]

theorem remaining_asRead (kid : Object) (siblings : List Object) (waiting : List (List Object)) :
    doc.asRead.remaining kid.asRead (siblings.map Object.asRead)
        (waiting.map (List.map Object.asRead)) =
      ((doc.remaining kid siblings waiting).1.map Object.asRead,
        (doc.remaining kid siblings waiting).2.map (List.map Object.asRead)) := by
  unfold remaining
  simp only [Object.reference?_asRead, nodeType?_asRead, kids_asRead, List.length_map,
    List.isEmpty_map]
  cases kid.reference? with
  | none => rfl
  | some id =>
    dsimp only
    split
    · cases hempty : siblings.isEmpty <;> simp
    · rfl

theorem pagesAmong_asRead (steps : Nat) (siblings : List Object) (waiting : List (List Object)) :
    doc.asRead.pagesAmong steps (siblings.map Object.asRead)
        (waiting.map (List.map Object.asRead)) = doc.pagesAmong steps siblings waiting := by
  induction steps generalizing siblings waiting with
  | zero => rfl
  | succ steps ih =>
    have hnext := nextKid_asRead siblings waiting
    cases h : nextKid siblings waiting with
    | none =>
      rw [h] at hnext
      rw [doc.pagesAmong_of_none _ h, doc.asRead.pagesAmong_of_none _ hnext]
    | some next =>
      rw [h] at hnext
      rw [doc.pagesAmong_succ _ h, doc.asRead.pagesAmong_succ _ hnext, pageAt?_asRead,
        remaining_asRead, ih]

/-- The page tree is read alike. -/
theorem pagesWithin_asRead (steps : Nat) :
    doc.asRead.pagesWithin steps = doc.pagesWithin steps := by
  rw [pagesWithin, pagesWithin, pagesRoot_asRead]
  cases doc.catalog?.bind fun d ↦ (d.get? "Pages").bind Object.reference? with
  | none => rfl
  | some root =>
    dsimp only
    rw [kids_asRead]
    exact doc.pagesAmong_asRead steps (doc.kids root) []

theorem hasPage_asRead_iff {page : Nat} {id : ObjectId} :
    doc.asRead.HasPage page id ↔ doc.HasPage page id := by
  unfold HasPage
  simp only [pagesWithin_asRead]

theorem pageContents_asRead (page : ObjectId) :
    doc.asRead.pageContents page = (doc.pageContents page).map Object.asRead := by
  unfold pageContents
  rw [dictionary?_asRead]
  cases doc.dictionary? page with
  | none => rfl
  | some d =>
    simp only [Option.map_some, Option.bind_some, Dictionary.get?_entriesAsRead]
    cases d.get? "Contents" with
    | none => rfl
    | some contents =>
      cases contents with
      | reference id =>
        simp only [Option.map_some, Object.asRead, object?_asRead]
        cases doc.object? id with
        | none => rfl
        | some object =>
          cases object with
          | real x =>
            rcases Object.numberAsRead_cases x with h | ⟨n, h⟩ <;>
              simp [Object.asRead, h]
          | array items => simp [Object.asRead, Object.itemsAsRead_eq]
          | _ => rfl
      | real x =>
        rcases Object.numberAsRead_cases x with h | ⟨n, h⟩ <;> simp [Object.asRead, h]
      | array items => simp [Object.asRead, Object.itemsAsRead_eq]
      | _ => rfl

end Document

/-! ## Some of the objects -/

/-- A property of all objects of a table is one of its entries. -/
theorem ObjectTable.forall_get?_iff {t : ObjectTable} {p : ObjectId → Object → Prop} :
    (∀ id object, t.get? id = some object → p id object) ↔
      ∀ entry ∈ t, ∀ object ∈ t.get? entry.1, p entry.1 object :=
  ⟨fun h entry _ object hobject ↦ h entry.1 object hobject,
    fun h _ object hid ↦ h _ (mem_of_get? hid) object hid⟩

namespace Document

/-- A document with only those of its objects whose ids are selected. -/
def only (doc : Document) (p : ObjectId → Bool) : Document :=
  { doc with objects := doc.objects.filter fun entry ↦ p entry.1 }

theorem get?_only {doc : Document} {p : ObjectId → Bool} {id : ObjectId} {object : Object} :
    (doc.only p).objects.get? id = some object ↔ p id ∧ doc.objects.get? id = some object := by
  rw [only, ObjectTable.get?_filter]
  cases p id <;> simp

theorem get?_only_eq_none {doc : Document} {p : ObjectId → Bool} {id : ObjectId} {object : Object}
    (h : (doc.only p).objects.get? id = none) (hid : doc.objects.get? id = some object) :
    p id = false := by
  refine Bool.eq_false_iff.mpr fun hp ↦ ?_
  rw [get?_only.mpr ⟨hp, hid⟩] at h
  cases h

/-! ## Reading again -/

/-- A document is read from the file of another. The objects are there, with their numbers as they
are read, except for some that belonged to the layout of a file, and those that are new are no part
of a page tree. -/
structure IsReread (doc next : Document) : Prop where
  root_eq : next.trailer.get? "Root" = doc.trailer.get? "Root"
  isNumbered : next.IsNumbered
  kept : ∀ id object, doc.objects.get? id = some object →
    next.objects.get? id = some object ∨ next.objects.get? id = some object.asRead ∨
      object.isLayout ∧ object.IsInert
  fresh : ∀ id object, next.objects.get? id = some object →
    doc.objects.get? id = some object ∨
      (doc.objects.get? id).map Object.asRead = some object ∨ object.IsInert

instance (doc next : Document) : Decidable (doc.IsReread next) :=
  decidable_of_iff (next.trailer.get? "Root" = doc.trailer.get? "Root" ∧ next.IsNumbered ∧
      (∀ entry ∈ doc.objects, ∀ object ∈ doc.objects.get? entry.1,
        next.objects.get? entry.1 = some object ∨ next.objects.get? entry.1 = some object.asRead ∨
          object.isLayout ∧ object.IsInert) ∧
      ∀ entry ∈ next.objects, ∀ object ∈ next.objects.get? entry.1,
        doc.objects.get? entry.1 = some object ∨
          (doc.objects.get? entry.1).map Object.asRead = some object ∨ object.IsInert)
    ⟨fun ⟨hroot, hnumbered, hkept, hfresh⟩ ↦ ⟨hroot, hnumbered,
        ObjectTable.forall_get?_iff.mpr hkept, ObjectTable.forall_get?_iff.mpr hfresh⟩,
      fun h ↦ ⟨h.root_eq, h.isNumbered, ObjectTable.forall_get?_iff.mp h.kept,
        ObjectTable.forall_get?_iff.mp h.fresh⟩⟩

/-- A box of whole numbers is read as one of integers, and a stream with cross-references on top. -/
example :
    let box (number : Object) : Document := ⟨"1.5", [], [(⟨1, 0⟩, .array [number])], 1, .stream⟩
    (box (.real 612)).IsReread (((box (.integer 612)).add (.stream [] [])).2) := by
  decide +kernel

theorem IsReread.refl {doc : Document} (h : doc.IsNumbered) : doc.IsReread doc where
  root_eq := rfl
  isNumbered := h
  kept := fun _ _ hid ↦ Or.inl hid
  fresh := fun _ _ hid ↦ Or.inl hid

section
variable {touched : ObjectId → Prop} {base doc next : Document} (hreread : doc.IsReread next)
include hreread

theorem IsReread.get?_eq_some {id : ObjectId} {object : Object}
    (hid : doc.objects.get? id = some object) (hlayout : object.isLayout = false)
    (hread : object.asRead = object) : next.objects.get? id = some object := by
  rcases hreread.kept id object hid with hkept | hkept | ⟨hdropped, -⟩
  · exact hkept
  · rw [hkept, hread]
  · simp [hlayout] at hdropped

/-- Numbers aside, an object is read as it was written, or is none of a page tree. -/
theorem IsReread.kept_asRead {id : ObjectId} {object : Object}
    (hid : doc.asRead.objects.get? id = some object) :
    next.asRead.objects.get? id = some object ∨ object.IsInert := by
  rw [get?_asRead] at hid
  obtain ⟨old, hold, rfl⟩ := Option.map_eq_some_iff.mp hid
  rw [get?_asRead]
  rcases hreread.kept id old hold with hkept | hkept | ⟨-, hinert⟩
  · left
    rw [hkept, Option.map_some]
  · left
    rw [hkept, Option.map_some, Object.asRead_asRead]
  · exact Or.inr hinert.asRead

theorem IsReread.fresh_asRead {id : ObjectId} {object : Object}
    (hid : next.asRead.objects.get? id = some object) :
    doc.asRead.objects.get? id = some object ∨ object.IsInert := by
  rw [get?_asRead] at hid
  obtain ⟨new, hnew, rfl⟩ := Option.map_eq_some_iff.mp hid
  rw [get?_asRead]
  rcases hreread.fresh id new hnew with hold | hold | hinert
  · left
    rw [hold, Option.map_some]
  · obtain ⟨old, -, rfl⟩ := Option.map_eq_some_iff.mp hold
    left
    rw [hold, Object.asRead_asRead]
  · exact Or.inr hinert.asRead

/-- Whether a document has, numbers aside, the same object under an id as it had before it was read
again. -/
def isRetained (doc next : Document) (id : ObjectId) : Bool :=
  next.asRead.objects.get? id = doc.asRead.objects.get? id

/-- What is retained of a part of a document is extended by what is read. -/
theorem Extends.only_of_isReread (h : Extends touched base doc.asRead) :
    Extends touched (base.only (doc.isRetained next)) next.asRead where
  root_eq := hreread.root_eq.trans h.root_eq
  kept := by
    intro id object hid
    obtain ⟨hsame, hid⟩ := get?_only.mp hid
    obtain ⟨object', hid', hrest⟩ := h.kept id object hid
    exact ⟨object', (of_decide_eq_true hsame).trans hid', hrest⟩
  fresh := by
    intro id object hnone hsome
    rcases hreread.fresh_asRead hsome with hid | hinert
    · cases hbase : base.objects.get? id with
      | none => exact h.fresh id object hbase hid
      | some old =>
        have hdiffer := get?_only_eq_none hnone hbase
        exact absurd (hsome.trans hid.symm) (of_decide_eq_false hdiffer)
    · exact hinert

/-- A document extends what is retained of it. -/
theorem Extends.only_of_not_touched {start : Document} (h : Extends touched base doc.asRead)
    (hstart : Extends (fun _ ↦ False) base start) :
    Extends (fun _ ↦ False) (base.only (doc.isRetained next)) start where
  root_eq := hstart.root_eq
  kept := fun id object hid ↦ hstart.kept id object (get?_only.mp hid).2
  fresh := by
    intro id object hnone hsome
    cases hbase : base.objects.get? id with
    | none => exact hstart.fresh id object hbase hsome
    | some old =>
      -- The object has been dropped, so it is none of a page tree.
      have hdiffer := of_decide_eq_false (get?_only_eq_none hnone hbase)
      obtain rfl := Option.some.inj
        ((hstart.get?_of_not_touched hbase not_false).symm.trans hsome)
      obtain ⟨object', hid', hres, -⟩ := h.kept id _ hbase
      rcases hreread.kept_asRead hid' with hkept | hinert
      · exact absurd (hkept.trans hid'.symm) hdiffer
      · exact hinert.of_resembles hres.symm

end

/-! ## Growing and reading again -/

theorem Extends.asRead {touched : ObjectId → Prop} {doc doc' : Document}
    (h : Extends touched doc doc') : Extends touched doc.asRead doc'.asRead where
  root_eq := h.root_eq
  kept := by
    intro id object hid
    rw [get?_asRead] at hid
    obtain ⟨old, hold, rfl⟩ := Option.map_eq_some_iff.mp hid
    obtain ⟨new, hnew, hres, hsame⟩ := h.kept id old hold
    refine ⟨new.asRead, ?_, hres.asRead, fun htouched ↦ congrArg _ (hsame htouched)⟩
    rw [get?_asRead, hnew, Option.map_some]
  fresh := by
    intro id object hnone hsome
    rw [get?_asRead] at hnone hsome
    obtain ⟨new, hnew, rfl⟩ := Option.map_eq_some_iff.mp hsome
    exact (h.fresh id new (Option.map_eq_none_iff.mp hnone) hnew).asRead

/-- A document comes of another one by growing and being read again, as often as it may be: numbers
aside, both extend what has been kept all the time. -/
def Descends (doc last : Document) : Prop :=
  ∃ base, Extends (fun _ ↦ False) base doc.asRead ∧ Extends (fun _ ↦ True) base last.asRead

namespace Descends

theorem refl (doc : Document) : Descends doc doc := ⟨doc.asRead, .refl _, .refl _⟩

variable {doc last : Document} (h : Descends doc last)
include h

theorem of_extends {touched : ObjectId → Prop} {out : Document}
    (hextends : Extends touched last out) : Descends doc out := by
  obtain ⟨base, hdoc, hlast⟩ := h
  exact ⟨base, hdoc, hlast.trans (hextends.asRead.mono fun _ _ ↦ trivial)⟩

theorem of_isReread {next : Document} (hreread : last.IsReread next) : Descends doc next := by
  obtain ⟨base, hdoc, hlast⟩ := h
  exact ⟨_, hlast.only_of_not_touched hreread hdoc, hlast.only_of_isReread hreread⟩

theorem pagesWithin_eq (steps : Nat) : last.pagesWithin steps = doc.pagesWithin steps := by
  obtain ⟨base, hdoc, hlast⟩ := h
  rw [← last.pagesWithin_asRead, ← doc.pagesWithin_asRead, hlast.pagesWithin_eq,
    hdoc.pagesWithin_eq]

/-- The pages are those that a search of the first document shows, in so many steps. -/
theorem pages_eq : last.pages = doc.pagesWithin last.objects.length := by
  rw [pages_eq_pagesWithin, h.pagesWithin_eq]

theorem hasPage_iff {page : Nat} {id : ObjectId} : last.HasPage page id ↔ doc.HasPage page id := by
  unfold HasPage
  simp only [h.pagesWithin_eq]

/-- Every page is stored where it was in the first document. -/
theorem exists_storedId? {page : Nat} {id : ObjectId} (hid : doc.HasPage page id) :
    ∃ stored, doc.storedId? id = some stored ∧ last.storedId? id = some stored := by
  obtain ⟨base, hdoc, hlast⟩ := h
  have hread := doc.hasPage_asRead_iff.mpr hid
  obtain ⟨stored, hstored, hstored'⟩ := hdoc.exists_storedId?_of_page hread.nodeType?_eq
  refine ⟨stored, ?_, ?_⟩
  · rw [← doc.storedId?_asRead, hstored']
  · rw [← last.storedId?_asRead, hlast.storedId?_eq_some hstored]

end Descends

/-! ## Pages that are read again -/

namespace IsReread

variable {doc next : Document} (h : doc.IsReread next)
include h

theorem exists_common : ∃ base, Extends (fun _ ↦ False) base doc.asRead ∧
    Extends (fun _ ↦ False) base next.asRead :=
  have hdoc : Extends (fun _ ↦ False) doc.asRead doc.asRead := .refl _
  ⟨_, hdoc.only_of_not_touched h hdoc, hdoc.only_of_isReread h⟩

variable {page : Nat} {id : ObjectId} (hid : doc.HasPage page id)
include hid

theorem pageContents_eq :
    (next.pageContents id).map Object.asRead = (doc.pageContents id).map Object.asRead := by
  obtain ⟨base, hdoc, hnext⟩ := h.exists_common
  have hread := doc.hasPage_asRead_iff.mpr hid
  obtain ⟨stored, hstored, -⟩ := hdoc.exists_storedId?_of_page hread.nodeType?_eq
  rw [← pageContents_asRead, ← pageContents_asRead, hnext.pageContents_eq hstored not_false,
    hdoc.pageContents_eq hstored not_false]

theorem dictionary?_eq : next.asRead.dictionary? id = doc.asRead.dictionary? id := by
  obtain ⟨base, hdoc, hnext⟩ := h.exists_common
  have hread := doc.hasPage_asRead_iff.mpr hid
  obtain ⟨stored, hstored, -⟩ := hdoc.exists_storedId?_of_page hread.nodeType?_eq
  rw [hnext.dictionary?_eq_of_not_touched hstored not_false,
    hdoc.dictionary?_eq_of_not_touched hstored not_false]

end IsReread

end Document

end Marginalia.Pdf
