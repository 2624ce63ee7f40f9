import Marginalia.Pdf.Page

/-!
# Documents that grow

A document extends another if it has the objects of that, where some dictionaries may have other
contents and resources, and besides them only objects that are no part of a page tree. Whatever is
read by other keys is the same in both, although a reference that leads nowhere in the smaller one
may lead to an object of the larger one. A document that grows by objects with new numbers extends
what it was.
-/

namespace Marginalia.Pdf

/-! ## Objects -/

/-- Dictionaries that agree except on the contents and the resources of a page. -/
def Dictionary.AgreesAside (d d' : Dictionary) : Prop :=
  ∀ key, key ≠ "Contents" → key ≠ "Resources" → d'.get? key = d.get? key

/-- The keys from which the page tree and the geometry of pages are read, besides the type. -/
def treeKeys : List String := ["Pages", "Kids", "Parent", "MediaBox", "Rotate"]

/-- A dictionary that is no part of a page tree. -/
structure Dictionary.IsInert (d : Dictionary) : Prop where
  get?_eq_none : ∀ key ∈ treeKeys, d.get? key = none
  typeName?_ne_page : Document.typeName? d ≠ some "Page"
  typeName?_ne_pages : Document.typeName? d ≠ some "Pages"

instance (d : Dictionary) : Decidable (Dictionary.IsInert d) :=
  decidable_of_iff ((∀ key ∈ treeKeys, (d.get? key).isNone) ∧
      Document.typeName? d ≠ some "Page" ∧ Document.typeName? d ≠ some "Pages")
    ⟨fun ⟨hkeys, hpage, hpages⟩ ↦
      ⟨fun key hkey ↦ Option.isNone_iff_eq_none.mp (hkeys key hkey), hpage, hpages⟩,
      fun h ↦ ⟨fun key hkey ↦ Option.isNone_iff_eq_none.mpr (h.get?_eq_none key hkey),
        h.typeName?_ne_page, h.typeName?_ne_pages⟩⟩

namespace Object

/-- An object is the same as another, or differs from it as a page from its painted copy. -/
def Resembles (object object' : Object) : Prop :=
  object' = object ∨
    ∃ d d', object = .dictionary d ∧ object' = .dictionary d' ∧ Dictionary.AgreesAside d d'

/-- A stream, or a dictionary that is no part of a page tree. -/
def IsInert : Object → Prop
  | .stream _ _ => True
  | .dictionary d => Dictionary.IsInert d
  | _ => False

instance (object : Object) : Decidable object.IsInert :=
  match object with
  | .stream _ _ => .isTrue trivial
  | .dictionary d => inferInstanceAs (Decidable (Dictionary.IsInert d))
  | .null | .boolean _ | .integer _ | .real _ | .name _ | .string _ _ | .array _ | .reference _ =>
    .isFalse id

theorem Resembles.refl (object : Object) : object.Resembles object := Or.inl rfl

theorem Resembles.symm {a b : Object} (h : a.Resembles b) : b.Resembles a := by
  rcases h with rfl | ⟨d, d', rfl, rfl, hagree⟩
  · exact .refl b
  · exact Or.inr ⟨d', d, rfl, rfl, fun key hcontents hresources ↦
      (hagree key hcontents hresources).symm⟩

theorem Resembles.trans {a b c : Object} (h : a.Resembles b) (h' : b.Resembles c) :
    a.Resembles c := by
  rcases h with rfl | ⟨d, d', rfl, rfl, hagree⟩
  · exact h'
  · rcases h' with rfl | ⟨e, e', he, rfl, hagree'⟩
    · exact Or.inr ⟨d, d', rfl, rfl, hagree⟩
    · cases he
      refine Or.inr ⟨d, e', rfl, rfl, ?_⟩
      intro key hcontents hresources
      exact (hagree' key hcontents hresources).trans (hagree key hcontents hresources)

theorem Resembles.eq_of_reference {id : ObjectId} {object' : Object}
    (h : (reference id).Resembles object') : object' = reference id := by
  rcases h with rfl | ⟨d, d', hd, -⟩
  · rfl
  · cases hd

theorem Resembles.ne_reference {object object' : Object} (h : object.Resembles object')
    (hne : ∀ id, object ≠ .reference id) (id : ObjectId) : object' ≠ .reference id := by
  rcases h with rfl | ⟨d, d', -, rfl, -⟩
  · exact hne id
  · simp

theorem IsInert.ne_reference {object : Object} (h : object.IsInert) (id : ObjectId) :
    object ≠ .reference id := by
  rintro rfl
  exact h

end Object

theorem Dictionary.AgreesAside.typeName?_eq {d d' : Dictionary} (h : d.AgreesAside d') :
    Document.typeName? d' = Document.typeName? d := by
  unfold Document.typeName? Dictionary.has
  rw [h "Type" (by decide) (by decide), h "Linearized" (by decide) (by decide)]

theorem Dictionary.AgreesAside.get?_tree {d d' : Dictionary} (h : d.AgreesAside d') {key : String}
    (hkey : key ∈ treeKeys) : d'.get? key = d.get? key := by
  apply h key
  · rintro rfl
    simp [treeKeys] at hkey
  · rintro rfl
    simp [treeKeys] at hkey

theorem Object.IsInert.of_resembles {object object' : Object} (h : object.IsInert)
    (hres : object.Resembles object') : object'.IsInert := by
  rcases hres with rfl | ⟨d, d', rfl, rfl, hagree⟩
  · exact h
  · refine ⟨?_, ?_, ?_⟩
    · intro key hkey
      rw [hagree.get?_tree hkey]
      exact h.get?_eq_none key hkey
    · rw [hagree.typeName?_eq]
      exact h.typeName?_ne_page
    · rw [hagree.typeName?_eq]
      exact h.typeName?_ne_pages

/-! ## Tables -/

theorem Dictionary.get?_eq_none_iff {d : Dictionary} {key : String} :
    d.get? key = none ↔ key ∉ d.map Prod.fst := by
  induction d with
  | nil => simp [Dictionary.get?]
  | cons entry rest ih =>
    obtain ⟨k, v⟩ := entry
    by_cases h : k = key
    · simp [Dictionary.get?, h]
    · simpa [Dictionary.get?, h, Ne.symm h] using ih

theorem ObjectTable.mem_of_get? {t : ObjectTable} {id : ObjectId} {object : Object}
    (h : t.get? id = some object) : (id, object) ∈ t := by
  induction t with
  | nil => cases h
  | cons entry rest ih =>
    obtain ⟨other, o⟩ := entry
    rw [ObjectTable.get?] at h
    split at h
    · rename_i hid
      cases h
      rw [hid]
      exact List.mem_cons_self
    · exact List.mem_cons_of_mem _ (ih h)

theorem ObjectTable.mem_insert {t : ObjectTable} {id : ObjectId} {object : Object}
    {entry : ObjectId × Object} (h : entry ∈ t.insert id object) :
    entry = (id, object) ∨ entry ∈ t := by
  induction t with
  | nil => exact Or.inl (List.mem_singleton.mp h)
  | cons first rest ih =>
    obtain ⟨other, o⟩ := first
    rw [ObjectTable.insert] at h
    split at h
    · exact (List.mem_cons.mp h).imp_right (List.mem_cons_of_mem _)
    · split at h
      · exact List.mem_cons.mp h
      · rcases List.mem_cons.mp h with hfirst | hrest
        · exact Or.inr (hfirst ▸ List.mem_cons_self)
        · exact (ih hrest).imp_right (List.mem_cons_of_mem _)

theorem ObjectTable.length_le_insert (t : ObjectTable) (id : ObjectId) (object : Object) :
    t.length ≤ (t.insert id object).length := by
  induction t with
  | nil => simp
  | cons first rest ih =>
    obtain ⟨other, o⟩ := first
    rw [ObjectTable.insert]
    split
    · simp
    · split
      · simp
      · simpa using ih

theorem ObjectTable.get?_filter (t : ObjectTable) (p : ObjectId → Bool) (id : ObjectId) :
    ObjectTable.get? (t.filter fun entry ↦ p entry.1) id = if p id then t.get? id else none := by
  induction t with
  | nil => simp [get?]
  | cons entry rest ih =>
    obtain ⟨other, object⟩ := entry
    by_cases hid : other = id
    · subst hid
      cases hp : p other <;> simp_all [get?]
    · cases hp : p other <;> simp_all [get?]

namespace Document

/-! ## Growth -/

/-- No object has a number above the highest one. -/
def IsNumbered (doc : Document) : Prop :=
  ∀ entry ∈ doc.objects, entry.1.number ≤ doc.maxNumber

instance (doc : Document) : Decidable doc.IsNumbered :=
  inferInstanceAs (Decidable (∀ entry ∈ doc.objects, entry.1.number ≤ doc.maxNumber))

theorem IsNumbered.le {doc : Document} (h : doc.IsNumbered) {id : ObjectId} {object : Object}
    (hid : doc.objects.get? id = some object) : id.number ≤ doc.maxNumber :=
  h _ (ObjectTable.mem_of_get? hid)

/-- A document has the objects of another, only some dictionaries of which are `touched`, and starts
at the same one. The others that it has are no part of a page tree. -/
structure Extends (touched : ObjectId → Prop) (doc doc' : Document) : Prop where
  root_eq : doc'.trailer.get? "Root" = doc.trailer.get? "Root"
  kept : ∀ id object, doc.objects.get? id = some object →
    ∃ object', doc'.objects.get? id = some object' ∧ object.Resembles object' ∧
      (¬touched id → object' = object)
  fresh : ∀ id object, doc.objects.get? id = none → doc'.objects.get? id = some object →
    object.IsInert

namespace Extends

variable {touched : ObjectId → Prop} {doc doc' doc'' : Document}

theorem refl (doc : Document) : Extends touched doc doc where
  root_eq := rfl
  kept := fun _ object hid ↦ ⟨object, hid, .refl object, fun _ ↦ rfl⟩
  fresh := fun _ _ hnone hsome ↦ absurd (hnone.symm.trans hsome) (by simp)

theorem trans (h : Extends touched doc doc') (h' : Extends touched doc' doc'') :
    Extends touched doc doc'' where
  root_eq := h'.root_eq.trans h.root_eq
  kept := by
    intro id object hid
    obtain ⟨object', hid', hres, hsame⟩ := h.kept id object hid
    obtain ⟨object'', hid'', hres', hsame'⟩ := h'.kept id object' hid'
    exact ⟨object'', hid'', hres.trans hres',
      fun htouched ↦ (hsame' htouched).trans (hsame htouched)⟩
  fresh := by
    intro id object hnone hsome
    cases hmiddle : doc'.objects.get? id with
    | none => exact h'.fresh id object hmiddle hsome
    | some object' =>
      obtain ⟨object'', hid'', hres, -⟩ := h'.kept id object' hmiddle
      obtain rfl := Option.some.inj (hid''.symm.trans hsome)
      exact (h.fresh id object' hnone hmiddle).of_resembles hres

theorem mono {touched' : ObjectId → Prop} (h : Extends touched doc doc')
    (hmono : ∀ id, touched id → touched' id) : Extends touched' doc doc' where
  root_eq := h.root_eq
  kept := by
    intro id object hid
    obtain ⟨object', hid', hres, hsame⟩ := h.kept id object hid
    exact ⟨object', hid', hres, fun hnot ↦ hsame fun htouched ↦ hnot (hmono id htouched)⟩
  fresh := h.fresh

end Extends

/-- One document grows out of another: it extends that by objects with new numbers. -/
structure Grows (touched : ObjectId → Prop) (doc doc' : Document) : Prop
    extends Extends touched doc doc' where
  version_eq : doc'.version = doc.version
  trailer_eq : doc'.trailer = doc.trailer
  isNumbered : doc'.IsNumbered
  maxNumber_le : doc.maxNumber ≤ doc'.maxNumber
  length_le : doc.objects.length ≤ doc'.objects.length
  above : ∀ id object, doc.objects.get? id = none → doc'.objects.get? id = some object →
    doc.maxNumber < id.number

namespace Grows

variable {touched : ObjectId → Prop} {doc doc' doc'' : Document}

theorem refl (h : doc.IsNumbered) : Grows touched doc doc where
  toExtends := .refl doc
  version_eq := rfl
  trailer_eq := rfl
  isNumbered := h
  maxNumber_le := Nat.le_refl _
  length_le := Nat.le_refl _
  above := fun _ _ hnone hsome ↦ absurd (hnone.symm.trans hsome) (by simp)

theorem trans (h : Grows touched doc doc') (h' : Grows touched doc' doc'') :
    Grows touched doc doc'' where
  toExtends := h.toExtends.trans h'.toExtends
  version_eq := h'.version_eq.trans h.version_eq
  trailer_eq := h'.trailer_eq.trans h.trailer_eq
  isNumbered := h'.isNumbered
  maxNumber_le := Nat.le_trans h.maxNumber_le h'.maxNumber_le
  length_le := Nat.le_trans h.length_le h'.length_le
  above := by
    intro id object hnone hsome
    cases hmiddle : doc'.objects.get? id with
    | none => exact Nat.lt_of_le_of_lt h.maxNumber_le (h'.above id object hmiddle hsome)
    | some object' => exact h.above id object' hnone hmiddle

theorem id_of_get?_add {object new : Object} {id : ObjectId} (hnone : doc.objects.get? id = none)
    (hsome : (doc.add object).2.objects.get? id = some new) : id = ⟨doc.maxNumber + 1, 0⟩ := by
  refine Decidable.byContradiction fun hid ↦ ?_
  rw [show (doc.add object).2.objects.get? id = doc.objects.get? id from
    ObjectTable.get?_insert_of_ne hid, hnone] at hsome
  cases hsome

/-- A document grows when an object is added that is no part of a page tree. -/
theorem add (h : doc.IsNumbered) {object : Object} (hinert : object.IsInert) :
    Grows touched doc (doc.add object).2 where
  root_eq := rfl
  version_eq := rfl
  trailer_eq := rfl
  isNumbered := by
    intro entry hentry
    rcases ObjectTable.mem_insert hentry with rfl | hold
    · exact Nat.le_refl _
    · exact Nat.le_succ_of_le (h entry hold)
  maxNumber_le := Nat.le_succ _
  length_le := ObjectTable.length_le_insert _ _ _
  kept := by
    intro id old hid
    have hne : id ≠ ⟨doc.maxNumber + 1, 0⟩ := by
      rintro rfl
      exact Nat.not_succ_le_self _ (h.le hid)
    exact ⟨old, (ObjectTable.get?_insert_of_ne hne).trans hid, .refl old, fun _ ↦ rfl⟩
  fresh := by
    intro id new hnone hsome
    obtain rfl := id_of_get?_add hnone hsome
    obtain rfl := Option.some.inj ((ObjectTable.get?_insert_self _ _ _).symm.trans hsome)
    exact hinert
  above := by
    intro id new hnone hsome
    obtain rfl := id_of_get?_add hnone hsome
    exact Nat.lt_succ_self _

theorem then_add (h : Grows touched doc doc') {object : Object} (hinert : object.IsInert) :
    Grows touched doc (doc'.add object).2 :=
  h.trans (.add h.isNumbered hinert)

theorem get?_put_ne_some {id other : ObjectId} {old new object : Object}
    (hid : doc.objects.get? id = some old) (hnone : doc.objects.get? other = none) :
    (doc.put id new).objects.get? other ≠ some object := by
  have hne : other ≠ id := by
    rintro rfl
    rw [hid] at hnone
    cases hnone
  rw [show (doc.put id new).objects.get? other = doc.objects.get? other from
    ObjectTable.get?_insert_of_ne hne, hnone]
  simp

/-- A document grows when a touched dictionary is replaced by one that agrees with it. -/
theorem put (h : doc.IsNumbered) {id : ObjectId} {d d' : Dictionary}
    (hid : doc.objects.get? id = some (.dictionary d)) (hagree : d.AgreesAside d')
    (htouched : touched id) : Grows touched doc (doc.put id (.dictionary d')) where
  root_eq := rfl
  version_eq := rfl
  trailer_eq := rfl
  isNumbered := by
    intro entry hentry
    rcases ObjectTable.mem_insert hentry with rfl | hold
    · exact h.le hid
    · exact h entry hold
  maxNumber_le := Nat.le_refl _
  length_le := ObjectTable.length_le_insert _ _ _
  kept := by
    intro other object hother
    by_cases hsame : other = id
    · subst hsame
      obtain rfl := Option.some.inj (hid.symm.trans hother)
      exact ⟨_, ObjectTable.get?_insert_self _ _ _, Or.inr ⟨d, d', rfl, rfl, hagree⟩,
        fun hnot ↦ absurd htouched hnot⟩
    · exact ⟨object, (ObjectTable.get?_insert_of_ne hsame).trans hother, .refl object,
        fun _ ↦ rfl⟩
  fresh := fun _ _ hnone hsome ↦ (get?_put_ne_some hid hnone hsome).elim
  above := fun _ _ hnone hsome ↦ (get?_put_ne_some hid hnone hsome).elim

end Grows

/-! ## Following references -/

theorem follow?_reference (doc : Document) (limit : Nat) (last : Option ObjectId)
    (id : ObjectId) :
    doc.follow? (limit + 1) last (.reference id) =
      (doc.objects.get? id).bind fun object ↦ doc.follow? limit (some id) object := by
  cases hid : doc.objects.get? id <;> simp [Document.follow?, hid]

theorem follow?_reference_zero (doc : Document) (last : Option ObjectId) (id : ObjectId) :
    doc.follow? 0 last (.reference id) = none := by
  simp [Document.follow?]

theorem follow?_of_not_reference (doc : Document) (limit : Nat) (last : Option ObjectId)
    {object : Object} (h : ∀ id, object ≠ .reference id) :
    doc.follow? limit last object = some (last, object) := by
  cases object <;> simp_all [Document.follow?]

/-- What references lead to is where they started, or is stored under the last of them. -/
theorem follow?_stored {doc : Document} {limit : Nat} {last last' : Option ObjectId}
    {object object' : Object} (h : doc.follow? limit last object = some (last', object')) :
    last' = last ∧ object' = object ∨
      ∃ id, last' = some id ∧ doc.objects.get? id = some object' := by
  by_cases hreference : ∃ id, object = .reference id
  · obtain ⟨id, rfl⟩ := hreference
    right
    induction limit generalizing last id with
    | zero =>
      rw [follow?_reference_zero] at h
      cases h
    | succ limit ih =>
      rw [follow?_reference] at h
      obtain ⟨next, hnext, hfollow⟩ := Option.bind_eq_some_iff.mp h
      by_cases hreference : ∃ other, next = .reference other
      · obtain ⟨other, rfl⟩ := hreference
        exact ih other hfollow
      · rw [follow?_of_not_reference _ _ _ (not_exists.mp hreference)] at hfollow
        cases hfollow
        exact ⟨id, rfl, hnext⟩
  · rw [follow?_of_not_reference _ _ _ (not_exists.mp hreference)] at h
    cases h
    exact Or.inl ⟨rfl, rfl⟩

theorem object?_eq (doc : Document) (id : ObjectId) :
    doc.object? id = ((doc.objects.get? id).bind fun object ↦
      doc.follow? referenceLimit none object).map Prod.snd := by
  unfold Document.object?
  cases doc.objects.get? id with
  | none => rfl
  | some object => cases h : doc.follow? referenceLimit none object <;> simp [h]

theorem storedId?_eq (doc : Document) (id : ObjectId) :
    doc.storedId? id = ((doc.objects.get? id).bind fun object ↦
      doc.follow? referenceLimit none object).map fun found ↦ found.1.getD id := by
  unfold Document.storedId?
  cases doc.objects.get? id with
  | none => rfl
  | some object => cases h : doc.follow? referenceLimit none object <;> simp [h]

/-- The object that an id leads to is stored under the last id on the way. -/
theorem object?_of_storedId? {doc : Document} {id stored : ObjectId}
    (h : doc.storedId? id = some stored) : doc.object? id = doc.objects.get? stored := by
  rw [storedId?_eq] at h
  obtain ⟨⟨last, found⟩, hfollow, hstored⟩ := Option.map_eq_some_iff.mp h
  rw [object?_eq, hfollow]
  obtain ⟨object, hobject, hfollow⟩ := Option.bind_eq_some_iff.mp hfollow
  rcases follow?_stored hfollow with ⟨rfl, rfl⟩ | ⟨other, rfl, hother⟩
  · cases hstored
    exact hobject.symm
  · cases hstored
    exact hother.symm

/-- Ids that lead to one stored object lead to one dictionary. -/
theorem dictionary?_eq_of_storedId? {doc : Document} {id id' stored : ObjectId}
    (h : doc.storedId? id = some stored) (h' : doc.storedId? id' = some stored) :
    doc.dictionary? id = doc.dictionary? id' := by
  unfold Document.dictionary?
  rw [object?_of_storedId? h, object?_of_storedId? h']

theorem exists_get?_of_storedId? {doc : Document} {id stored : ObjectId}
    (h : doc.storedId? id = some stored) : ∃ object, doc.objects.get? stored = some object := by
  rw [← object?_of_storedId? h]
  rw [storedId?_eq] at h
  obtain ⟨found, hfollow, -⟩ := Option.map_eq_some_iff.mp h
  exact ⟨found.2, by rw [object?_eq, hfollow]; rfl⟩

theorem exists_storedId? {doc : Document} {id : ObjectId} {object : Object}
    (h : doc.object? id = some object) : ∃ stored, doc.storedId? id = some stored := by
  rw [object?_eq] at h
  obtain ⟨found, hfollow, -⟩ := Option.map_eq_some_iff.mp h
  exact ⟨found.1.getD id, by rw [storedId?_eq, hfollow]; rfl⟩

theorem exists_storedId?_of_dictionary? {doc : Document} {id : ObjectId} {d : Dictionary}
    (h : doc.dictionary? id = some d) : ∃ stored, doc.storedId? id = some stored := by
  obtain ⟨object, hobject, -⟩ := Option.bind_eq_some_iff.mp h
  exact exists_storedId? hobject

namespace Extends

variable {touched : ObjectId → Prop} {doc doc' : Document}

theorem get?_of_not_touched (h : Extends touched doc doc') {id : ObjectId} {object : Object}
    (hid : doc.objects.get? id = some object) (hnot : ¬touched id) :
    doc'.objects.get? id = some object := by
  obtain ⟨object', hid', -, hsame⟩ := h.kept id object hid
  rw [hid', hsame hnot]

theorem get?_stream (h : Extends touched doc doc') {id : ObjectId} {entries : Dictionary}
    {content : Bytes} (hid : doc.objects.get? id = some (.stream entries content)) :
    doc'.objects.get? id = some (.stream entries content) := by
  obtain ⟨object', hid', hres, -⟩ := h.kept id _ hid
  rcases hres with rfl | ⟨d, d', hd, -⟩
  · exact hid'
  · cases hd

/-- References lead to where they led before. Those that led nowhere may lead to a new object. -/
theorem follow?_cases (h : Extends touched doc doc') (limit : Nat) (last : Option ObjectId)
    {object object' : Object} (hres : object.Resembles object') :
    (∃ last' found found', doc.follow? limit last object = some (last', found) ∧
        doc'.follow? limit last object' = some (last', found') ∧ found.Resembles found') ∨
      doc.follow? limit last object = none ∧
        ∀ last' found', doc'.follow? limit last object' = some (last', found') →
          found'.IsInert := by
  by_cases hreference : ∃ id, object = .reference id
  · obtain ⟨id, rfl⟩ := hreference
    obtain rfl := hres.eq_of_reference
    induction limit generalizing last id with
    | zero =>
      refine Or.inr ⟨follow?_reference_zero _ _ _, ?_⟩
      intro last' found' hfollow
      rw [follow?_reference_zero] at hfollow
      cases hfollow
    | succ limit ih =>
      rw [follow?_reference, follow?_reference]
      cases hid : doc.objects.get? id with
      | some next =>
        obtain ⟨next', hid', hres', -⟩ := h.kept id next hid
        rw [hid', Option.bind_some, Option.bind_some]
        by_cases hreference : ∃ other, next = .reference other
        · obtain ⟨other, rfl⟩ := hreference
          obtain rfl := hres'.eq_of_reference
          exact ih (some id) other hres'
        · have hne := not_exists.mp hreference
          exact Or.inl ⟨some id, next, next', follow?_of_not_reference _ _ _ hne,
            follow?_of_not_reference _ _ _ (hres'.ne_reference hne), hres'⟩
      | none =>
        -- a new object is no reference, so the way ends there
        refine Or.inr ⟨rfl, ?_⟩
        intro last' found' hfollow
        obtain ⟨next, hnext, hfollow⟩ := Option.bind_eq_some_iff.mp hfollow
        have hinert := h.fresh id next hid hnext
        rw [follow?_of_not_reference _ _ _ hinert.ne_reference] at hfollow
        cases hfollow
        exact hinert
  · have hne := not_exists.mp hreference
    exact Or.inl ⟨last, object, object', follow?_of_not_reference _ _ _ hne,
      follow?_of_not_reference _ _ _ (hres.ne_reference hne), hres⟩

theorem bind_follow?_cases (h : Extends touched doc doc') (id : ObjectId) :
    (∃ last found found',
        ((doc.objects.get? id).bind fun object ↦ doc.follow? referenceLimit none object) =
          some (last, found) ∧
        ((doc'.objects.get? id).bind fun object ↦ doc'.follow? referenceLimit none object) =
          some (last, found') ∧ found.Resembles found') ∨
      ((doc.objects.get? id).bind fun object ↦ doc.follow? referenceLimit none object) = none ∧
        ∀ last found',
          ((doc'.objects.get? id).bind fun object ↦ doc'.follow? referenceLimit none object) =
            some (last, found') → found'.IsInert := by
  cases hid : doc.objects.get? id with
  | some object =>
    obtain ⟨object', hid', hres, -⟩ := h.kept id object hid
    rw [hid']
    exact h.follow?_cases referenceLimit none hres
  | none =>
    refine Or.inr ⟨rfl, ?_⟩
    intro last found' hfollow
    obtain ⟨next, hnext, hfollow⟩ := Option.bind_eq_some_iff.mp hfollow
    have hinert := h.fresh id next hid hnext
    rw [follow?_of_not_reference _ _ _ hinert.ne_reference] at hfollow
    cases hfollow
    exact hinert

/-- An id leads to where it led before. One that led nowhere may lead to a new object. -/
theorem object?_cases (h : Extends touched doc doc') (id : ObjectId) :
    (∃ found found', doc.object? id = some found ∧ doc'.object? id = some found' ∧
        found.Resembles found') ∨
      doc.object? id = none ∧ ∀ found', doc'.object? id = some found' → found'.IsInert := by
  rw [object?_eq, object?_eq]
  rcases h.bind_follow?_cases id with ⟨last, found, found', hdoc, hdoc', hres⟩ | ⟨hnone, hinert⟩
  · exact Or.inl ⟨found, found', by rw [hdoc]; rfl, by rw [hdoc']; rfl, hres⟩
  · refine Or.inr ⟨by rw [hnone]; rfl, ?_⟩
    intro found' hfound
    obtain ⟨⟨last, other⟩, hfollow, rfl⟩ := Option.map_eq_some_iff.mp hfound
    exact hinert last other hfollow

/-- The id under which an object is stored stays the same. -/
theorem storedId?_eq_some (h : Extends touched doc doc') {id stored : ObjectId}
    (hstored : doc.storedId? id = some stored) : doc'.storedId? id = some stored := by
  rw [storedId?_eq] at hstored ⊢
  rcases h.bind_follow?_cases id with ⟨last, found, found', hdoc, hdoc', -⟩ | ⟨hnone, -⟩
  · rw [hdoc] at hstored
    rw [hdoc']
    exact hstored
  · rw [hnone] at hstored
    cases hstored

/-- What is stored under an untouched id is read as before. -/
theorem object?_eq_of_not_touched (h : Extends touched doc doc') {id stored : ObjectId}
    (hstored : doc.storedId? id = some stored) (htouched : ¬touched stored) :
    doc'.object? id = doc.object? id := by
  obtain ⟨object, hobject⟩ := exists_get?_of_storedId? hstored
  rw [object?_of_storedId? hstored, object?_of_storedId? (h.storedId?_eq_some hstored), hobject,
    h.get?_of_not_touched hobject htouched]

theorem exists_storedId? (h : Extends touched doc doc') {id : ObjectId}
    (hid : ∃ stored, doc.storedId? id = some stored) :
    ∃ stored, doc'.storedId? id = some stored :=
  hid.imp fun _ hstored ↦ h.storedId?_eq_some hstored

theorem dictionary?_eq_of_not_touched (h : Extends touched doc doc') {id stored : ObjectId}
    (hstored : doc.storedId? id = some stored) (htouched : ¬touched stored) :
    doc'.dictionary? id = doc.dictionary? id := by
  unfold Document.dictionary?
  rw [h.object?_eq_of_not_touched hstored htouched]

/-- A dictionary is read as before, aside from contents and resources. -/
theorem dictionary?_cases (h : Extends touched doc doc') (id : ObjectId) :
    (∃ d d', doc.dictionary? id = some d ∧ doc'.dictionary? id = some d' ∧ d.AgreesAside d') ∨
      doc.dictionary? id = none ∧ ∀ d', doc'.dictionary? id = some d' → d'.IsInert := by
  unfold Document.dictionary?
  rcases h.object?_cases id with ⟨found, found', hdoc, hdoc', hres⟩ | ⟨hnone, hinert⟩
  · rw [hdoc, hdoc']
    rcases hres with rfl | ⟨d, d', rfl, rfl, hagree⟩
    · cases hd : found'.dictionary? with
      | none => exact Or.inr ⟨hd, fun d' hd' ↦ absurd (hd.symm.trans hd') (by simp)⟩
      | some d => exact Or.inl ⟨d, d, hd, hd, fun _ _ _ ↦ rfl⟩
    · exact Or.inl ⟨d, d', rfl, rfl, hagree⟩
  · rw [hnone]
    refine Or.inr ⟨rfl, ?_⟩
    intro d' hd'
    obtain ⟨found', hfound', hd'⟩ := Option.bind_eq_some_iff.mp hd'
    have hfresh := hinert found' hfound'
    cases found' with
    | dictionary entries =>
      cases hd'
      exact hfresh
    | _ => cases hd'

/-- An entry of the page tree is read as before. -/
theorem dictionary?_bind_get? (h : Extends touched doc doc') (id : ObjectId) {key : String}
    (hkey : key ∈ treeKeys) :
    ((doc'.dictionary? id).bind fun d ↦ d.get? key) =
      (doc.dictionary? id).bind fun d ↦ d.get? key := by
  rcases h.dictionary?_cases id with ⟨d, d', hdoc, hdoc', hagree⟩ | ⟨hnone, hinert⟩
  · rw [hdoc, hdoc']
    exact hagree.get?_tree hkey
  · rw [hnone]
    cases hdoc' : doc'.dictionary? id with
    | none => rfl
    | some d' => exact (hinert d' hdoc').get?_eq_none key hkey

end Extends

end Document

end Marginalia.Pdf
