import Mathlib.Data.List.Infix
import Marginalia.Proofs.Pdf.Growth

/-!
# Pages of documents that grow

The pages of a document and their geometry stay the same when it is extended. The search for pages
visits no more nodes than the document has objects; where that cuts it short, a document with more
objects shows more of its pages.
-/

namespace Marginalia.Pdf.Document

/-! ## The search for pages -/

/-- The pages among the first nodes that are visited. -/
def pagesWithin (doc : Document) (steps : Nat) : List ObjectId :=
  match doc.catalog?.bind fun d ↦ (d.get? "Pages").bind Object.reference? with
  | none => []
  | some root => doc.pagesAmong steps (doc.kids root) []

theorem pages_eq_pagesWithin (doc : Document) : doc.pages = doc.pagesWithin doc.objects.length :=
  rfl

/-- The page that a node is. -/
def pageAt? (doc : Document) (kid : Object) : Option ObjectId :=
  kid.reference?.filter fun id ↦ doc.nodeType? id == some "Page"

/-- What is left to visit after a node: its siblings and those waiting further up, or first the
nodes below it. -/
def remaining (doc : Document) (kid : Object) (siblings : List Object)
    (waiting : List (List Object)) : List Object × List (List Object) :=
  match kid.reference? with
  | none => (siblings, waiting)
  | some id =>
    if doc.nodeType? id = some "Pages" ∧ waiting.length < treeDepthLimit then
      (doc.kids id, if siblings.isEmpty then waiting else siblings :: waiting)
    else (siblings, waiting)

/-- One step of the search: a node is visited. -/
theorem pagesAmong_succ (doc : Document) (steps : Nat) {siblings siblings' : List Object}
    {waiting waiting' : List (List Object)} {kid : Object}
    (h : nextKid siblings waiting = some (kid, siblings', waiting')) :
    doc.pagesAmong (steps + 1) siblings waiting =
      (doc.pageAt? kid).toList ++ doc.pagesAmong steps (doc.remaining kid siblings' waiting').1
        (doc.remaining kid siblings' waiting').2 := by
  rw [pagesAmong, h]
  unfold pageAt? remaining
  dsimp only
  cases kid.reference? with
  | none => rfl
  | some id =>
    dsimp only
    split
    · rename_i hpage
      simp [hpage, Option.filter_some]
    · rename_i hpages
      by_cases hdepth : waiting'.length < treeDepthLimit <;>
        simp [hpages, hdepth, Option.filter_some]
    · rename_i hpage hpages
      rw [if_neg fun h ↦ hpages h.1]
      simp [show doc.nodeType? id ≠ some "Page" from hpage, Option.filter_some]

theorem pagesAmong_of_none (doc : Document) (steps : Nat) {siblings : List Object}
    {waiting : List (List Object)} (h : nextKid siblings waiting = none) :
    doc.pagesAmong steps siblings waiting = [] := by
  cases steps with
  | zero => rfl
  | succ steps => rw [pagesAmong, h]

/-- Visiting one more node shows no fewer pages. -/
theorem pagesAmong_prefix_succ (doc : Document) (steps : Nat) (siblings : List Object)
    (waiting : List (List Object)) :
    doc.pagesAmong steps siblings waiting <+: doc.pagesAmong (steps + 1) siblings waiting := by
  induction steps generalizing siblings waiting with
  | zero => exact List.nil_prefix
  | succ steps ih =>
    cases hnext : nextKid siblings waiting with
    | none => rw [doc.pagesAmong_of_none _ hnext, doc.pagesAmong_of_none _ hnext]
    | some next =>
      rw [doc.pagesAmong_succ _ hnext, doc.pagesAmong_succ _ hnext]
      exact (List.prefix_append_right_inj _).mpr (ih _ _)

/-- Whether a search comes to its end within a number of steps. -/
def endsWithin (doc : Document) : Nat → List Object → List (List Object) → Bool
  | 0, siblings, waiting => (nextKid siblings waiting).isNone
  | steps + 1, siblings, waiting =>
    match nextKid siblings waiting with
    | none => true
    | some (kid, siblings, waiting) =>
      let left := doc.remaining kid siblings waiting
      doc.endsWithin steps left.1 left.2

/-- A search that has come to its end shows no more pages. -/
theorem pagesAmong_of_endsWithin {doc : Document} {steps : Nat} {siblings : List Object}
    {waiting : List (List Object)} (h : doc.endsWithin steps siblings waiting) {steps' : Nat}
    (hle : steps ≤ steps') :
    doc.pagesAmong steps' siblings waiting = doc.pagesAmong steps siblings waiting := by
  induction steps generalizing siblings waiting steps' with
  | zero =>
    have hnext : nextKid siblings waiting = none := Option.isNone_iff_eq_none.mp h
    rw [doc.pagesAmong_of_none _ hnext, doc.pagesAmong_of_none _ hnext]
  | succ steps ih =>
    rw [endsWithin] at h
    cases hnext : nextKid siblings waiting with
    | none => rw [doc.pagesAmong_of_none _ hnext, doc.pagesAmong_of_none _ hnext]
    | some next =>
      rw [hnext] at h
      obtain ⟨steps', rfl⟩ := Nat.exists_eq_add_of_le' hle
      rw [← Nat.add_assoc, doc.pagesAmong_succ _ hnext, doc.pagesAmong_succ _ hnext,
        ih h (Nat.le_add_left _ _)]

/-- Whether the search for pages comes to its end. -/
def isSearched (doc : Document) : Bool :=
  match doc.catalog?.bind fun d ↦ (d.get? "Pages").bind Object.reference? with
  | none => true
  | some root => doc.endsWithin doc.objects.length (doc.kids root) []

theorem pagesWithin_of_isSearched {doc : Document} (h : doc.isSearched) {steps : Nat}
    (hle : doc.objects.length ≤ steps) : doc.pagesWithin steps = doc.pages := by
  rw [pages_eq_pagesWithin]
  unfold isSearched at h
  unfold pagesWithin
  cases hroot : doc.catalog?.bind fun d ↦ (d.get? "Pages").bind Object.reference? with
  | none => rfl
  | some root =>
    rw [hroot] at h
    exact pagesAmong_of_endsWithin h hle

theorem pagesWithin_prefix (doc : Document) {steps steps' : Nat} (h : steps ≤ steps') :
    doc.pagesWithin steps <+: doc.pagesWithin steps' := by
  unfold pagesWithin
  split
  · exact List.nil_prefix
  · rename_i root _
    induction h with
    | refl => exact List.prefix_rfl
    | step _ ih => exact ih.trans (doc.pagesAmong_prefix_succ _ _ _)

/-- Where the search for pages comes to its end, a longer one shows no other pages. -/
theorem nodup_storedId?_of_isSearched {doc : Document} (hsearched : doc.isSearched)
    (hdistinct : (doc.pages.map doc.storedId?).Nodup) (steps : Nat) :
    ((doc.pagesWithin steps).map doc.storedId?).Nodup := by
  rcases Nat.le_total steps doc.objects.length with hle | hle
  · exact hdistinct.sublist ((doc.pagesWithin_prefix hle).sublist.map _)
  · rw [pagesWithin_of_isSearched hsearched hle]
    exact hdistinct

theorem nodeType?_of_mem_pagesAmong {doc : Document} {steps : Nat} {siblings : List Object}
    {waiting : List (List Object)} {id : ObjectId}
    (h : id ∈ doc.pagesAmong steps siblings waiting) : doc.nodeType? id = some "Page" := by
  induction steps generalizing siblings waiting with
  | zero => cases h
  | succ steps ih =>
    cases hnext : nextKid siblings waiting with
    | none =>
      rw [doc.pagesAmong_of_none _ hnext] at h
      cases h
    | some next =>
      rw [doc.pagesAmong_succ _ hnext] at h
      rcases List.mem_append.mp h with hpage | hrest
      · have hpage := (Option.filter_eq_some_iff.mp (Option.mem_toList.mp hpage)).2
        exact beq_iff_eq.mp hpage
      · exact ih hrest

/-- Pages that are told apart by a property have different numbers. -/
theorem index_eq_of_nodup {α : Type} {f : ObjectId → α} {pages : List ObjectId}
    (hdistinct : (pages.map f).Nodup) {i j : Nat} {id id' : ObjectId} (h : pages[i]? = some id)
    (h' : pages[j]? = some id') (hsame : f id = f id') : i = j := by
  have hlt : i < (pages.map f).length := by
    rw [List.length_map]
    exact (List.getElem?_eq_some_iff.mp h).1
  refine (List.getElem?_inj hlt hdistinct).mp ?_
  rw [List.getElem?_map, List.getElem?_map, h, h', Option.map_some, Option.map_some, hsame]

/-- Pages that are stored apart have different numbers. -/
theorem page?_inj {doc : Document} {α : Type} {f : ObjectId → α}
    (hdistinct : (doc.pages.map f).Nodup) {page page' : Nat} {id id' : ObjectId}
    (h : doc.page? page = some id) (h' : doc.page? page' = some id') (hsame : f id = f id') :
    page = page' := by
  unfold page? at h h'
  split at h
  · cases h
  · split at h'
    · cases h'
    · have hindex := index_eq_of_nodup hdistinct h h' hsame
      omega

/-- The search shows a page under a number, counted from one, if it visits enough nodes. -/
def HasPage (doc : Document) (page : Nat) (id : ObjectId) : Prop :=
  0 < page ∧ ∃ steps, (doc.pagesWithin steps)[page - 1]? = some id

theorem hasPage_of_page? {doc : Document} {page : Nat} {id : ObjectId}
    (h : doc.page? page = some id) : doc.HasPage page id := by
  unfold page? at h
  split at h
  · cases h
  · next hpage => exact ⟨Nat.pos_of_ne_zero hpage, doc.objects.length, h⟩

namespace HasPage

variable {doc : Document} {page : Nat} {id : ObjectId} (h : doc.HasPage page id)
include h

theorem nodeType?_eq : doc.nodeType? id = some "Page" := by
  obtain ⟨-, steps, hid⟩ := h
  have hmem : id ∈ doc.pagesWithin steps := List.mem_of_getElem? hid
  unfold pagesWithin at hmem
  split at hmem
  · cases hmem
  · exact nodeType?_of_mem_pagesAmong hmem

theorem exists_dictionary? :
    ∃ d, doc.dictionary? id = some d ∧ typeName? d = some "Page" :=
  Option.bind_eq_some_iff.mp h.nodeType?_eq

/-- Two pages are shown by one search. -/
theorem exists_steps {page' : Nat} {id' : ObjectId} (h' : doc.HasPage page' id') :
    ∃ steps, (doc.pagesWithin steps)[page - 1]? = some id ∧
      (doc.pagesWithin steps)[page' - 1]? = some id' := by
  obtain ⟨-, steps, hid⟩ := h
  obtain ⟨-, steps', hid'⟩ := h'
  have hlonger {few many number : Nat} {id : ObjectId} (hle : few ≤ many)
      (hid : (doc.pagesWithin few)[number]? = some id) :
      (doc.pagesWithin many)[number]? = some id := by
    obtain ⟨more, hmore⟩ := doc.pagesWithin_prefix hle
    obtain ⟨hlt, -⟩ := List.getElem?_eq_some_iff.mp hid
    rw [← hmore, List.getElem?_append_left hlt, hid]
  exact ⟨max steps steps', hlonger (Nat.le_max_left _ _) hid, hlonger (Nat.le_max_right _ _) hid'⟩

theorem id_eq {id' : ObjectId} (h' : doc.HasPage page id') : id = id' := by
  obtain ⟨steps, hid, hid'⟩ := h.exists_steps h'
  exact Option.some.inj (hid.symm.trans hid')

theorem page_eq {α : Type} {f : ObjectId → α}
    (hdistinct : ∀ steps, ((doc.pagesWithin steps).map f).Nodup) {page' : Nat} {id' : ObjectId}
    (h' : doc.HasPage page' id') (hsame : f id = f id') : page = page' := by
  obtain ⟨steps, hid, hid'⟩ := h.exists_steps h'
  have hindex := index_eq_of_nodup (hdistinct steps) hid hid' hsame
  have hpage := h.1
  have hpage' := h'.1
  omega

end HasPage

theorem mem_pages_of_page? {doc : Document} {page : Nat} {id : ObjectId}
    (h : doc.page? page = some id) : id ∈ doc.pages := by
  unfold page? at h
  split at h
  · cases h
  · exact List.mem_of_getElem? h

namespace Extends

variable {touched : ObjectId → Prop} {doc doc' : Document}

theorem dictionary?_bind_get?_bind (h : Extends touched doc doc') (id : ObjectId) {key : String}
    (hkey : key ∈ treeKeys) {α : Type} (f : Object → Option α) :
    ((doc'.dictionary? id).bind fun d ↦ (d.get? key).bind f) =
      (doc.dictionary? id).bind fun d ↦ (d.get? key).bind f := by
  have hassoc (o : Option Dictionary) :
      (o.bind fun d ↦ (d.get? key).bind f) = (o.bind fun d ↦ d.get? key).bind f := by
    cases o <;> rfl
  rw [hassoc, hassoc, h.dictionary?_bind_get? id hkey]

theorem pagesRoot_eq (h : Extends touched doc doc') :
    (doc'.catalog?.bind fun d ↦ (d.get? "Pages").bind Object.reference?) =
      doc.catalog?.bind fun d ↦ (d.get? "Pages").bind Object.reference? := by
  unfold catalog?
  rw [h.root_eq]
  cases doc.trailer.get? "Root" with
  | none => rfl
  | some object =>
    cases hid : object.reference? with
    | none => simp [hid]
    | some id =>
      simp only [Option.bind_eq_bind, Option.bind_some, hid]
      exact h.dictionary?_bind_get?_bind id (by decide) Object.reference?

theorem kids_eq (h : Extends touched doc doc') (node : ObjectId) :
    doc'.kids node = doc.kids node := by
  unfold kids
  rw [h.dictionary?_bind_get?_bind node (by decide) Object.array?]

theorem nodeType?_cases (h : Extends touched doc doc') (id : ObjectId) :
    doc'.nodeType? id = doc.nodeType? id ∨
      doc.nodeType? id = none ∧ doc'.nodeType? id ≠ some "Page" ∧
        doc'.nodeType? id ≠ some "Pages" := by
  unfold nodeType?
  rcases h.dictionary?_cases id with ⟨d, d', hdoc, hdoc', hagree⟩ | ⟨hnone, hinert⟩
  · left
    rw [hdoc, hdoc']
    exact hagree.typeName?_eq
  · right
    rw [hnone]
    cases hdoc' : doc'.dictionary? id with
    | none => simp
    | some d' =>
      exact ⟨rfl, (hinert d' hdoc').typeName?_ne_page, (hinert d' hdoc').typeName?_ne_pages⟩

theorem pageAt?_eq (h : Extends touched doc doc') (kid : Object) :
    doc'.pageAt? kid = doc.pageAt? kid := by
  have htype : (fun id ↦ doc'.nodeType? id == some "Page") =
      fun id ↦ doc.nodeType? id == some "Page" := by
    funext id
    rcases h.nodeType?_cases id with hsame | ⟨hnone, hpage, -⟩
    · rw [hsame]
    · simpa [hnone] using hpage
  unfold pageAt?
  rw [htype]

theorem remaining_eq (h : Extends touched doc doc') (kid : Object) (siblings : List Object)
    (waiting : List (List Object)) :
    doc'.remaining kid siblings waiting = doc.remaining kid siblings waiting := by
  have htype (id : ObjectId) :
      doc'.nodeType? id = some "Pages" ↔ doc.nodeType? id = some "Pages" := by
    rcases h.nodeType?_cases id with hsame | ⟨hnone, -, hpages⟩
    · rw [hsame]
    · simp [hnone, hpages]
  unfold remaining
  simp only [htype, h.kids_eq]

/-- A search of as many steps finds the same pages. -/
theorem pagesAmong_eq (h : Extends touched doc doc') (steps : Nat) (siblings : List Object)
    (waiting : List (List Object)) :
    doc'.pagesAmong steps siblings waiting = doc.pagesAmong steps siblings waiting := by
  induction steps generalizing siblings waiting with
  | zero => rfl
  | succ steps ih =>
    cases hnext : nextKid siblings waiting with
    | none => rw [doc.pagesAmong_of_none _ hnext, doc'.pagesAmong_of_none _ hnext]
    | some next =>
      rw [doc.pagesAmong_succ _ hnext, doc'.pagesAmong_succ _ hnext, h.pageAt?_eq, h.remaining_eq,
        ih]

theorem pagesWithin_eq (h : Extends touched doc doc') (steps : Nat) :
    doc'.pagesWithin steps = doc.pagesWithin steps := by
  rw [pagesWithin, pagesWithin, h.pagesRoot_eq]
  cases doc.catalog?.bind fun d ↦ (d.get? "Pages").bind Object.reference? with
  | none => rfl
  | some root =>
    dsimp only
    rw [h.kids_eq, h.pagesAmong_eq]

theorem pages_eq (h : Extends touched doc doc') :
    doc'.pages = doc.pagesWithin doc'.objects.length := by
  rw [pages_eq_pagesWithin, h.pagesWithin_eq]

/-- A page is stored under the same id in both documents. -/
theorem exists_storedId?_of_page (h : Extends touched doc doc') {id : ObjectId}
    (hpage : doc'.nodeType? id = some "Page") :
    ∃ stored, doc.storedId? id = some stored ∧ doc'.storedId? id = some stored := by
  rcases h.nodeType?_cases id with hsame | ⟨-, hother, -⟩
  · obtain ⟨d, hd, -⟩ := Option.bind_eq_some_iff.mp (hsame ▸ hpage)
    obtain ⟨stored, hstored⟩ := exists_storedId?_of_dictionary? hd
    exact ⟨stored, hstored, h.storedId?_eq_some hstored⟩
  · exact absurd hpage hother

end Extends

/-- All pages are still there, and no others come before the last of them. -/
theorem Grows.pages_prefix {touched : ObjectId → Prop} {doc doc' : Document}
    (h : Grows touched doc doc') : doc.pages <+: doc'.pages := by
  rw [h.pages_eq, pages_eq_pagesWithin]
  exact doc.pagesWithin_prefix h.length_le

/-! ## Attributes -/

/-- The value of an attribute of a page as it is found. -/
def attribute? (doc : Document) (page : ObjectId) (key : String) : Option Object :=
  (doc.dictionary? page).bind (doc.attributeFrom? key ancestorLimit)

theorem inherited?_eq (doc : Document) (page : ObjectId) (key : String) :
    doc.inherited? page key = (doc.attribute? page key).map doc.resolve := by
  unfold inherited? attribute?
  cases doc.dictionary? page <;> rfl

/-- What references lead to is no reference. -/
theorem object?_ne_reference {doc : Document} {id : ObjectId} {object : Object}
    (h : doc.object? id = some object) (other : ObjectId) : object ≠ .reference other := by
  have hfollow : ∀ limit last start last' found,
      doc.follow? limit last start = some (last', found) → ∀ other, found ≠ .reference other := by
    intro limit
    induction limit with
    | zero =>
      intro last start last' found hfollow
      by_cases hreference : ∃ id, start = .reference id
      · obtain ⟨id, rfl⟩ := hreference
        rw [follow?_reference_zero] at hfollow
        cases hfollow
      · rw [follow?_of_not_reference _ _ _ (not_exists.mp hreference)] at hfollow
        cases hfollow
        exact not_exists.mp hreference
    | succ limit ih =>
      intro last start last' found hfollow
      by_cases hreference : ∃ id, start = .reference id
      · obtain ⟨id, rfl⟩ := hreference
        rw [follow?_reference] at hfollow
        obtain ⟨next, -, hfollow⟩ := Option.bind_eq_some_iff.mp hfollow
        exact ih _ _ _ _ hfollow
      · rw [follow?_of_not_reference _ _ _ (not_exists.mp hreference)] at hfollow
        cases hfollow
        exact not_exists.mp hreference
  rw [object?_eq] at h
  obtain ⟨⟨last, found⟩, hfound, rfl⟩ := Option.map_eq_some_iff.mp h
  obtain ⟨start, -, hstart⟩ := Option.bind_eq_some_iff.mp hfound
  exact hfollow _ _ _ _ _ hstart other

theorem resolve_reference (doc : Document) (id : ObjectId) :
    doc.resolve (.reference id) = (doc.object? id).getD (.reference id) := rfl

theorem resolve_of_not_reference (doc : Document) {object : Object}
    (h : ∀ id, object ≠ .reference id) : doc.resolve object = object := by
  cases object <;> simp_all [resolve]

theorem resolve_resolve (doc : Document) (object : Object) :
    doc.resolve (doc.resolve object) = doc.resolve object := by
  by_cases hreference : ∃ id, object = .reference id
  · obtain ⟨id, rfl⟩ := hreference
    cases hid : doc.object? id with
    | none => simp [resolve, hid]
    | some found =>
      have hresolve : doc.resolve (.reference id) = found := by simp [resolve, hid]
      rw [hresolve, resolve_of_not_reference _ (object?_ne_reference hid)]
  · rw [resolve_of_not_reference _ (not_exists.mp hreference),
      resolve_of_not_reference _ (not_exists.mp hreference)]

theorem number?_resolve (doc : Document) (object : Object) :
    doc.number? (doc.resolve object) = doc.number? object := by
  unfold number?
  rw [resolve_resolve]

theorem attributeFrom?_of_inert (doc : Document) {key : String} (hkey : key ∈ treeKeys)
    (limit : Nat) {node : Dictionary} (h : node.IsInert) :
    doc.attributeFrom? key limit node = none := by
  cases limit with
  | zero => rfl
  | succ limit =>
    rw [attributeFrom?, h.get?_eq_none key hkey, h.get?_eq_none "Parent" (by decide)]
    rfl

namespace Extends

variable {touched : ObjectId → Prop} {doc doc' : Document}

theorem attributeFrom?_eq (h : Extends touched doc doc') {key : String} (hkey : key ∈ treeKeys)
    (limit : Nat) {d d' : Dictionary} (hagree : d.AgreesAside d') :
    doc'.attributeFrom? key limit d' = doc.attributeFrom? key limit d := by
  induction limit generalizing d d' with
  | zero => rfl
  | succ limit ih =>
    rw [attributeFrom?, attributeFrom?, hagree.get?_tree hkey,
      hagree.get?_tree (show "Parent" ∈ treeKeys by decide)]
    cases d.get? key with
    | some value => rfl
    | none =>
      dsimp only
      cases d.get? "Parent" with
      | none => rfl
      | some parent =>
        cases hid : parent.reference? with
        | none => simp [hid]
        | some id =>
          simp only [Option.bind_eq_bind, Option.bind_some, hid]
          rcases h.dictionary?_cases id with ⟨e, e', hdoc, hdoc', hagree'⟩ | ⟨hnone, hinert⟩
          · rw [hdoc, hdoc']
            exact ih hagree'
          · rw [hnone]
            cases hdoc' : doc'.dictionary? id with
            | none => rfl
            | some e' => exact doc'.attributeFrom?_of_inert hkey limit (hinert e' hdoc')

theorem bind_attributeFrom?_eq (h : Extends touched doc doc') (page : ObjectId) {key : String}
    (hkey : key ∈ treeKeys) (limit : Nat) :
    (doc'.dictionary? page).bind (doc'.attributeFrom? key limit) =
      (doc.dictionary? page).bind (doc.attributeFrom? key limit) := by
  rcases h.dictionary?_cases page with ⟨d, d', hdoc, hdoc', hagree⟩ | ⟨hnone, hinert⟩
  · rw [hdoc, hdoc']
    exact h.attributeFrom?_eq hkey limit hagree
  · rw [hnone]
    cases hdoc' : doc'.dictionary? page with
    | none => rfl
    | some d' => exact doc'.attributeFrom?_of_inert hkey limit (hinert d' hdoc')

theorem attribute?_eq (h : Extends touched doc doc') (page : ObjectId) {key : String}
    (hkey : key ∈ treeKeys) : doc'.attribute? page key = doc.attribute? page key :=
  h.bind_attributeFrom?_eq page hkey ancestorLimit

/-- What an object stands for is what it stood for. A reference that led nowhere may lead to a new
object. -/
theorem resolve_cases (h : Extends touched doc doc') (object : Object) :
    (doc.resolve object).Resembles (doc'.resolve object) ∨
      (∃ id, doc.resolve object = .reference id) ∧ (doc'.resolve object).IsInert := by
  by_cases hreference : ∃ id, object = .reference id
  · obtain ⟨id, rfl⟩ := hreference
    rw [resolve_reference, resolve_reference]
    rcases h.object?_cases id with ⟨found, found', hdoc, hdoc', hres⟩ | ⟨hnone, hinert⟩
    · rw [hdoc, hdoc']
      exact Or.inl hres
    · rw [hnone]
      cases hdoc' : doc'.object? id with
      | none => exact Or.inl (.refl _)
      | some found' => exact Or.inr ⟨⟨id, rfl⟩, hinert found' hdoc'⟩
  · rw [resolve_of_not_reference _ (not_exists.mp hreference),
      resolve_of_not_reference _ (not_exists.mp hreference)]
    exact Or.inl (.refl _)

/-- An object stands for an array only where it did before. -/
theorem resolve_array? (h : Extends touched doc doc') (object : Object) :
    (doc'.resolve object).array? = (doc.resolve object).array? := by
  rcases h.resolve_cases object with (hsame | ⟨d, d', hd, hd', -⟩) | ⟨⟨id, hid⟩, hinert⟩
  · rw [hsame]
  · rw [hd, hd']
    rfl
  · rw [hid]
    cases hfresh : doc'.resolve object <;> first | rfl | exact (hfresh ▸ hinert).elim

/-- An object stands for a number only where it did before. -/
theorem number?_eq (h : Extends touched doc doc') (object : Object) :
    doc'.number? object = doc.number? object := by
  unfold number?
  rcases h.resolve_cases object with (hsame | ⟨d, d', hd, hd', -⟩) | ⟨⟨id, hid⟩, hinert⟩
  · rw [hsame]
  · rw [hd, hd']
  · rw [hid]
    cases hfresh : doc'.resolve object <;> first | rfl | exact (hfresh ▸ hinert).elim

theorem mediaBox?_eq (h : Extends touched doc doc') (page : ObjectId) :
    doc'.mediaBox? page = doc.mediaBox? page := by
  have hnumber : doc'.number? = doc.number? := funext h.number?_eq
  unfold mediaBox?
  rw [inherited?_eq, inherited?_eq, h.attribute?_eq page (by decide), hnumber]
  cases doc.attribute? page "MediaBox" with
  | none => rfl
  | some value =>
    simp only [Option.map_some, Option.bind_eq_bind, Option.bind_some]
    rw [h.resolve_array?]

/-- The contents of an untouched page stay the same. -/
theorem pageContents_eq (h : Extends touched doc doc') {id stored : ObjectId}
    (hstored : doc.storedId? id = some stored) (hnot : ¬touched stored) :
    doc'.pageContents id = doc.pageContents id := by
  unfold pageContents
  rw [h.dictionary?_eq_of_not_touched hstored hnot]
  cases (doc.dictionary? id).bind fun d ↦ d.get? "Contents" with
  | none => rfl
  | some contents =>
    cases contents with
    | reference other =>
      dsimp only
      rcases h.object?_cases other with ⟨found, found', hdoc, hdoc', hres⟩ | ⟨hnone, hinert⟩
      · rw [hdoc, hdoc']
        rcases hres with rfl | ⟨d, d', rfl, rfl, -⟩ <;> rfl
      · rw [hnone]
        cases hdoc' : doc'.object? other with
        | none => rfl
        | some found' =>
          have hfresh := hinert found' hdoc'
          cases found' <;> first | rfl | exact hfresh.elim
    | _ => rfl

/-- The geometry of every page stays the same. -/
theorem geometry_eq (h : Extends touched doc doc') (page : ObjectId) :
    doc'.geometry page = doc.geometry page := by
  have hrotate : (doc'.inherited? page "Rotate").bind doc'.number? =
      (doc.inherited? page "Rotate").bind doc.number? := by
    rw [inherited?_eq, inherited?_eq, h.attribute?_eq page (by decide)]
    cases doc.attribute? page "Rotate" with
    | none => rfl
    | some value =>
      simp only [Option.map_some, Option.bind_some, number?_resolve]
      exact h.number?_eq value
  unfold geometry
  rw [h.mediaBox?_eq, hrotate]

end Extends

end Marginalia.Pdf.Document
