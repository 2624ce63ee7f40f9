import Marginalia.Proofs.Export.Fonts

/-!
# The sheets of an export

Painting annotations into a document leaves one sheet for every annotated page: the streams around
its content and the names of its fonts. What holds of all sheets is stated relative to the document
as it was before anything was added to it.
-/

namespace Marginalia.Export

open Font (Payload)
open Pdf (Dictionary Document Object ObjectId)
open Pdf.Document (Grows)

/-! ## One page -/

/-- What painting a page does to the document: two streams are new, and the dictionary under
`stored` is the one for the page. -/
structure Painted (ops : List Operator) (fonts : Dictionary) (stored : ObjectId)
    (doc : Document) (t : Target) (out : Document) : Prop where
  stored_eq : doc.storedId? t.id = some stored
  grows : Grows (· = stored) doc out
  opening : out.objects.get? ⟨doc.maxNumber + 1, 0⟩ = some (operatorStream openingOperators)
  markup : out.objects.get? ⟨doc.maxNumber + 2, 0⟩ = some (operatorStream ops)
  maxNumber_eq : out.maxNumber = doc.maxNumber + 2
  dictionary : ∃ page, out.objects.get? stored =
    some (.dictionary (paintedDictionary doc t.id fonts page))

theorem painted_of_paintPage {annotations : AnnotationSet} {fonts : FamilyTable Payload}
    {embedded : List (FontFamily × ObjectId)} {doc out : Document} {t : Target}
    (hnumbered : doc.IsNumbered) {stored : ObjectId} (hstored : doc.storedId? t.id = some stored)
    (h : paintPage annotations fonts embedded doc t = .ok out) :
    Painted (markup annotations t.page t.frame fonts (namedFonts embedded doc t.id).2)
      (namedFonts embedded doc t.id).1 stored doc t out := by
  have hgrows : Grows (· = stored) doc out := grows_paintPage hnumbered hstored rfl h
  obtain ⟨id, page, hid, -, rfl⟩ := paintPage_eq_ok h
  have hstreamed : Grows (· = stored) doc (withStreams doc (markup annotations t.page t.frame fonts
      (namedFonts embedded doc t.id).2)) :=
    grows_withStreams hnumbered _
  obtain rfl := Option.some.inj ((hstreamed.storedId?_eq_some hstored).symm.trans hid)
  obtain ⟨object, hobject⟩ := Document.exists_get?_of_storedId? hstored
  have hle : stored.number ≤ doc.maxNumber := hnumbered.le hobject
  have hopening : (⟨doc.maxNumber + 1, 0⟩ : ObjectId) ≠ stored := by
    rintro rfl
    exact Nat.not_succ_le_self _ hle
  have hmarkup : (⟨doc.maxNumber + 2, 0⟩ : ObjectId) ≠ stored := by
    rintro rfl
    exact Nat.not_succ_le_self _ (Nat.le_of_succ_le hle)
  refine ⟨hstored, hgrows, ?_, ?_, rfl, page, Pdf.ObjectTable.get?_insert_self _ _ _⟩
  · refine (Pdf.ObjectTable.get?_insert_of_ne hopening).trans ?_
    refine (Pdf.ObjectTable.get?_insert_of_ne (by simp [Document.add])).trans ?_
    exact Pdf.ObjectTable.get?_insert_self _ _ _
  · refine (Pdf.ObjectTable.get?_insert_of_ne hmarkup).trans ?_
    exact Pdf.ObjectTable.get?_insert_self _ _ _

namespace Painted

variable {ops : List Operator} {fonts : Dictionary} {stored : ObjectId} {doc out : Document}
  {t : Target}

/-- The page is read from its new dictionary, by every id that leads there. -/
theorem dictionary?_eq (h : Painted ops fonts stored doc t out) {id : ObjectId}
    (hid : doc.storedId? id = some stored) :
    ∃ page, out.dictionary? id = some (paintedDictionary doc t.id fonts page) := by
  obtain ⟨page, hpage⟩ := h.dictionary
  refine ⟨page, ?_⟩
  unfold Document.dictionary?
  rw [Document.object?_of_storedId? (h.grows.storedId?_eq_some hid), hpage]
  rfl

/-- The content of the page comes between the two streams. -/
theorem pageContents_eq (h : Painted ops fonts stored doc t out) {id : ObjectId}
    (hid : doc.storedId? id = some stored) :
    out.pageContents id = .reference ⟨doc.maxNumber + 1, 0⟩ :: doc.pageContents id ++
      [.reference ⟨doc.maxNumber + 2, 0⟩] := by
  obtain ⟨page, hpage⟩ := h.dictionary?_eq hid
  have hsame : doc.pageContents id = doc.pageContents t.id := by
    unfold Document.pageContents
    rw [Document.dictionary?_eq_of_storedId? hid h.stored_eq]
  have hcontents : (paintedDictionary doc t.id fonts page).get? "Contents" = some (.array
      (.reference ⟨doc.maxNumber + 1, 0⟩ :: doc.pageContents t.id ++
        [.reference ⟨doc.maxNumber + 2, 0⟩])) := by
    rw [paintedDictionary, Dictionary.get?_set_of_ne (by decide), Dictionary.get?_set_self]
  rw [hsame, Document.pageContents, hpage, Option.bind_some, hcontents]

end Painted

/-! ## Fonts of a page -/

/-- A page has a font under a name, in resources of its own. -/
def HasFont (doc : Document) (id : ObjectId) (name : String) (font : ObjectId) : Prop :=
  ∃ d resources fonts : Dictionary, doc.dictionary? id = some d ∧
    d.get? "Resources" = some (.dictionary resources) ∧
    resources.get? "Font" = some (.dictionary fonts) ∧ fonts.get? name = some (.reference font)

theorem pageResources_of_get? {doc : Document} {id : ObjectId} {d resources : Dictionary}
    (hd : doc.dictionary? id = some d) (h : d.get? "Resources" = some (.dictionary resources)) :
    doc.pageResources id = resources := by
  have hown (limit : Nat) : doc.inheritedFrom? "Resources" (limit + 1) d =
      some (.dictionary resources) := by
    rw [Document.inheritedFrom?, Document.attributeFrom?, h]
    rfl
  unfold Document.pageResources Document.inherited?
  rw [hd, Option.bind_eq_bind, Option.bind_some]
  rw [show Document.ancestorLimit = 31 + 1 from rfl, hown]
  rfl

theorem pageResources_eq_of_storedId? {doc : Document} {id id' stored : ObjectId}
    (h : doc.storedId? id = some stored) (h' : doc.storedId? id' = some stored) :
    doc.pageResources id = doc.pageResources id' := by
  unfold Document.pageResources Document.inherited?
  rw [Document.dictionary?_eq_of_storedId? h h']

theorem fontsOf_of_get? {doc : Document} {resources fonts : Dictionary}
    (h : resources.get? "Font" = some (.dictionary fonts)) : fontsOf doc resources = fonts := by
  unfold fontsOf
  rw [h]
  rfl

theorem HasFont.get?_eq {doc : Document} {id : ObjectId} {name : String} {font : ObjectId}
    (h : HasFont doc id name font) :
    (fontsOf doc (doc.pageResources id)).get? name = some (.reference font) := by
  obtain ⟨d, resources, fonts, hd, hresources, hfonts, hname⟩ := h
  rw [pageResources_of_get? hd hresources, fontsOf_of_get? hfonts, hname]

/-- A page that has just been painted has all fonts it was given. -/
theorem Painted.hasFont {ops : List Operator} {fonts : Dictionary} {stored : ObjectId}
    {doc out : Document} {t : Target} (h : Painted ops fonts stored doc t out) {id : ObjectId}
    (hid : doc.storedId? id = some stored) {name : String} {font : ObjectId}
    (hname : fonts.get? name = some (.reference font)) : HasFont out id name font := by
  obtain ⟨page, hpage⟩ := h.dictionary?_eq hid
  exact ⟨_, _, fonts, hpage, Dictionary.get?_set_self _ _ _, Dictionary.get?_set_self _ _ _, hname⟩

/-- Painting a page takes no font from any page. -/
theorem HasFont.of_paintPage {annotations : AnnotationSet} {fonts : FamilyTable Payload}
    {embedded : List (FontFamily × ObjectId)} {doc out : Document} {t : Target}
    (hnumbered : doc.IsNumbered) {stored : ObjectId} (hstored : doc.storedId? t.id = some stored)
    (hpaint : paintPage annotations fonts embedded doc t = .ok out) {id : ObjectId} {name : String}
    {font : ObjectId} (h : HasFont doc id name font) : HasFont out id name font := by
  have hpainted := painted_of_paintPage hnumbered hstored hpaint
  have hfont := h.get?_eq
  obtain ⟨d, resources, own, hd, hresources, hown, hname⟩ := h
  obtain ⟨other, hother⟩ := Document.exists_storedId?_of_dictionary? hd
  by_cases hsame : other = stored
  · subst hsame
    have hresources : doc.pageResources t.id = doc.pageResources id :=
      pageResources_eq_of_storedId? hstored hother
    exact hpainted.hasFont hother (get?_nameFonts embedded (hresources ▸ hfont))
  · refine ⟨d, resources, own, ?_, hresources, hown, hname⟩
    rw [hpainted.grows.dictionary?_eq_of_not_touched hother hsame, hd]

/-! ## All pages -/

theorem HasFont.of_paintPages {annotations : AnnotationSet} {fonts : FamilyTable Payload}
    {embedded : List (FontFamily × ObjectId)} {doc out : Document} {targets : List Target}
    (hnumbered : doc.IsNumbered)
    (hstored : ∀ t ∈ targets, ∃ stored, doc.storedId? t.id = some stored)
    (hpaint : targets.foldlM (paintPage annotations fonts embedded) doc = .ok out) {id : ObjectId}
    {name : String} {font : ObjectId} (h : HasFont doc id name font) :
    HasFont out id name font := by
  induction targets generalizing doc with
  | nil =>
    cases hpaint
    exact h
  | cons t rest ih =>
    obtain ⟨⟨stored, hid⟩, hrest⟩ := List.forall_mem_cons.mp hstored
    obtain ⟨next, hfirst, hlater⟩ := foldlM_cons_eq_ok hpaint
    have hgrows := (painted_of_paintPage hnumbered hid hfirst).grows
    exact ih hgrows.isNumbered (fun t ht ↦ hgrows.exists_storedId? (hrest t ht)) hlater
      (h.of_paintPage hnumbered hid hfirst)

/-- What was painted on a page: the streams before and after its content, and the names of its
fonts. -/
structure Sheet where
  target : Target
  stored : ObjectId
  opening : ObjectId
  markup : ObjectId
  names : FamilyTable String

/-- What was painted on a page is found in the document afterwards. -/
structure Sheet.IsFound (annotations : AnnotationSet) (fonts : FamilyTable Payload)
    (embedded : List (FontFamily × ObjectId)) (doc out : Document) (s : Sheet) : Prop where
  stored_eq : doc.storedId? s.target.id = some s.stored
  opening_lt : doc.maxNumber < s.opening.number
  markup_lt : doc.maxNumber < s.markup.number
  opening_eq : out.objects.get? s.opening = some (operatorStream openingOperators)
  markup_eq : out.objects.get? s.markup =
    some (operatorStream (Export.markup annotations s.target.page s.target.frame fonts s.names))
  named : ∀ entry ∈ embedded, ∃ name, s.names.get? entry.1 = some name ∧
    HasFont out s.target.id name entry.2

/-- What is found of a page relative to a document is also found relative to an earlier one. -/
theorem Sheet.IsFound.of_le {annotations : AnnotationSet} {fonts : FamilyTable Payload}
    {embedded : List (FontFamily × ObjectId)} {doc next out : Document} {s : Sheet}
    (h : s.IsFound annotations fonts embedded next out) (hle : doc.maxNumber ≤ next.maxNumber)
    (hstored : doc.storedId? s.target.id = some s.stored) :
    s.IsFound annotations fonts embedded doc out :=
  { h with
    stored_eq := hstored
    opening_lt := Nat.lt_of_le_of_lt hle h.opening_lt
    markup_lt := Nat.lt_of_le_of_lt hle h.markup_lt }

/-- The contents of a page after everything painted on it. -/
def wrapped (sheets : List Sheet) (stored : ObjectId) (contents : List Object) : List Object :=
  let own := sheets.filter fun s ↦ s.stored = stored
  own.reverse.map (fun s ↦ .reference s.opening) ++ contents ++ own.map fun s ↦ .reference s.markup

theorem wrapped_of_forall_ne {sheets : List Sheet} {stored : ObjectId} {contents : List Object}
    (h : ∀ s ∈ sheets, s.stored ≠ stored) : wrapped sheets stored contents = contents := by
  have hnone : (sheets.filter fun s ↦ s.stored = stored) = [] :=
    List.filter_eq_nil_iff.mpr fun s hs ↦ by simpa using h s hs
  simp [wrapped, hnone]

/-- What was painted later stands around what was painted before. -/
theorem wrapped_append (earlier later : List Sheet) (stored : ObjectId) (contents : List Object) :
    wrapped (earlier ++ later) stored contents =
      wrapped later stored (wrapped earlier stored contents) := by
  simp [wrapped]

/-- What an export paints on a page of a document. -/
def sheetOn (embedded : List (FontFamily × ObjectId)) (doc : Document) (t : Target)
    (stored : ObjectId) : Sheet :=
  ⟨t, stored, ⟨doc.maxNumber + 1, 0⟩, ⟨doc.maxNumber + 2, 0⟩, (namedFonts embedded doc t.id).2⟩

section
variable {annotations : AnnotationSet} {fonts : FamilyTable Payload}
  {embedded : List (FontFamily × ObjectId)}

/-- What is painted on a page is found in the document after more pages have been painted. -/
theorem isFound_sheetOn (hnodup : (embedded.map Prod.fst).Nodup) {doc next out : Document}
    {t : Target} {rest : List Target} {stored : ObjectId} (hnumbered : doc.IsNumbered)
    (hid : doc.storedId? t.id = some stored)
    (hfirst : paintPage annotations fonts embedded doc t = .ok next)
    (hrest : ∀ t ∈ rest, ∃ stored, next.storedId? t.id = some stored)
    (hlater : rest.foldlM (paintPage annotations fonts embedded) next = .ok out) :
    (sheetOn embedded doc t stored).IsFound annotations fonts embedded doc out := by
  have hpainted := painted_of_paintPage hnumbered hid hfirst
  have hnext := hpainted.grows.isNumbered
  -- what was added for this page is no dictionary of a page, so it stays
  have hafter : Grows (fun _ ↦ True) next out := by
    refine grows_paintPages hnext ?_ hlater
    exact fun t ht ↦ (hrest t ht).imp fun _ hstored ↦ ⟨hstored, trivial⟩
  refine {
    stored_eq := hid
    opening_lt := Nat.lt_succ_self _
    markup_lt := Nat.lt_succ_of_lt (Nat.lt_succ_self _)
    opening_eq := hafter.get?_stream hpainted.opening
    markup_eq := hafter.get?_stream hpainted.markup
    named := ?_ }
  intro entry hentry
  obtain ⟨name, hname, hfont⟩ := exists_name (fontsOf doc (doc.pageResources t.id)) hnodup hentry
  exact ⟨name, hname, (hpainted.hasFont hid hfont).of_paintPages hnext hrest hlater⟩

/-- A page that is painted on is wrapped once more, and no other one. -/
theorem Painted.pageContents_eq_wrapped {ops : List Operator} {fonts : Dictionary}
    {stored other id : ObjectId} {doc next : Document} {t : Target}
    (h : Painted ops fonts stored doc t next) (hother : doc.storedId? id = some other) :
    next.pageContents id =
      wrapped [sheetOn embedded doc t stored] other (doc.pageContents id) := by
  by_cases hsame : stored = other
  · subst hsame
    rw [h.pageContents_eq hother]
    simp [wrapped, sheetOn]
  · rw [h.grows.pageContents_eq hother (Ne.symm hsame)]
    simp [wrapped, sheetOn, hsame]

theorem paintPages_spec (hnodup : (embedded.map Prod.fst).Nodup)
    {doc out : Document} {targets : List Target} (hnumbered : doc.IsNumbered)
    (hstored : ∀ t ∈ targets, ∃ stored, doc.storedId? t.id = some stored)
    (h : targets.foldlM (paintPage annotations fonts embedded) doc = .ok out) :
    ∃ sheets : List Sheet, sheets.map Sheet.target = targets ∧ (sheets.map Sheet.markup).Nodup ∧
      (∀ s ∈ sheets, s.IsFound annotations fonts embedded doc out) ∧
      ∀ id stored, doc.storedId? id = some stored →
        out.pageContents id = wrapped sheets stored (doc.pageContents id) := by
  induction targets generalizing doc with
  | nil =>
    cases h
    exact ⟨[], rfl, List.nodup_nil, by simp, by simp [wrapped]⟩
  | cons t rest ih =>
    obtain ⟨⟨stored, hid⟩, hrest⟩ := List.forall_mem_cons.mp hstored
    obtain ⟨next, hfirst, hlater⟩ := foldlM_cons_eq_ok h
    have hpainted := painted_of_paintPage hnumbered hid hfirst
    have hgrows := hpainted.grows
    have hrest' : ∀ t ∈ rest, ∃ stored, next.storedId? t.id = some stored :=
      fun t ht ↦ hgrows.exists_storedId? (hrest t ht)
    obtain ⟨sheets, htargets, hmarkups, hfound, hcontents⟩ := ih hgrows.isNumbered hrest' hlater
    refine ⟨sheetOn embedded doc t stored :: sheets, by rw [List.map_cons, htargets]; rfl,
      ?_, ?_, ?_⟩
    · refine List.nodup_cons.mpr ⟨?_, hmarkups⟩
      intro hmem
      obtain ⟨s, hs, hsame⟩ := List.mem_map.mp hmem
      have hlt := (hfound s hs).markup_lt
      rw [hsame, hpainted.maxNumber_eq] at hlt
      exact Nat.lt_irrefl _ hlt
    · refine List.forall_mem_cons.mpr
        ⟨isFound_sheetOn hnodup hnumbered hid hfirst hrest' hlater, fun s hs ↦ ?_⟩
      have ht : s.target ∈ rest := htargets ▸ List.mem_map.mpr ⟨s, hs, rfl⟩
      obtain ⟨other, hother⟩ := hrest s.target ht
      obtain rfl := Option.some.inj
        ((hgrows.storedId?_eq_some hother).symm.trans (hfound s hs).stored_eq)
      exact (hfound s hs).of_le hgrows.maxNumber_le hother
    · intro id other hother
      rw [hcontents id other (hgrows.storedId?_eq_some hother),
        hpainted.pageContents_eq_wrapped hother, ← wrapped_append, List.singleton_append]

end

/-! ## The whole document -/

/-- The fonts and the sheets that painting annotations into a document leaves in it. -/
structure Sheeted (annotations : AnnotationSet) (fonts : FamilyTable Payload)
    (embedded : List (FontFamily × ObjectId)) (sheets : List Sheet) (doc out : Document) :
    Prop where
  grows : Grows (IsAnnotated doc annotations) doc out
  families_eq : embedded.map Prod.fst = usedFamilies annotations
  isFontOf : ∀ entry ∈ embedded, IsFontOf fonts doc.maxNumber out entry
  pages_eq : sheets.map (fun s ↦ s.target.page) = annotations.pages
  page?_eq : ∀ s ∈ sheets, doc.page? s.target.page = some s.target.id
  nodup_markups : (sheets.map Sheet.markup).Nodup
  isFound : ∀ s ∈ sheets, s.IsFound annotations fonts embedded doc out
  contents_eq : ∀ id stored, doc.storedId? id = some stored →
    out.pageContents id = wrapped sheets stored (doc.pageContents id)

/-- Where no font is missing, painting leaves fonts and sheets. -/
theorem exists_sheeted {annotations : AnnotationSet} {fonts : FamilyTable Payload}
    {doc out : Document} (hnumbered : doc.IsNumbered)
    (hmissing : missingFamily? annotations fonts = none)
    (hpaint : paint doc annotations fonts = .ok out) :
    ∃ embedded sheets, Sheeted annotations fonts embedded sheets doc out ∧
      ∀ s ∈ sheets, target doc s.target.page = .ok s.target := by
  obtain ⟨targets, htargets, hpages⟩ := paint_eq_ok hpaint
  let embedding := (usedFamilies annotations).foldl (embedFamily fonts) ([], doc)
  have hembedded : Grows (IsAnnotated doc annotations) doc embedding.2 :=
    grows_embedFamilies hnumbered fonts (usedFamilies annotations) []
  have hgrows : Grows (fun _ ↦ False) doc embedding.2 :=
    grows_embedFamilies hnumbered fonts (usedFamilies annotations) []
  obtain ⟨hfamilies, hfonts⟩ : embedding.1.map Prod.fst = usedFamilies annotations ∧
      ∀ entry ∈ embedding.1, IsFontOf fonts doc.maxNumber embedding.2 entry :=
    embedFamilies_spec (isSome_of_mem_usedFamilies hmissing) hnumbered (Nat.le_refl _) (by simp)
  have hnodup : (embedding.1.map Prod.fst).Nodup := hfamilies ▸ nodup_usedFamilies annotations
  have hannotated := isAnnotated_of_targets hgrows htargets
  have hpainted : Grows (IsAnnotated doc annotations) embedding.2 out :=
    grows_paintPages hgrows.isNumbered hannotated hpages
  obtain ⟨sheets, hsheets, hmarkups, hfound, hcontents⟩ := paintPages_spec hnodup
    hgrows.isNumbered
    (fun t ht ↦ (hannotated t ht).imp fun _ h ↦ h.1) hpages
  have htarget : ∀ s ∈ sheets, target doc s.target.page = .ok s.target := by
    intro s hs
    have hmem : s.target ∈ targets := hsheets ▸ List.mem_map.mpr ⟨s, hs, rfl⟩
    obtain ⟨page, -, hpage⟩ := exists_target_eq_ok htargets hmem
    obtain ⟨rfl, -⟩ := target_eq_ok hpage
    exact hpage
  have hid : ∀ s ∈ sheets, doc.page? s.target.page = some s.target.id :=
    fun s hs ↦ (target_eq_ok (htarget s hs)).2.1
  refine ⟨embedding.1, sheets, ⟨hembedded.trans hpainted, hfamilies, ?_, ?_, hid, hmarkups, ?_, ?_⟩,
    htarget⟩
  · intro entry hentry
    exact (hfonts entry hentry).of_grows hpainted fun stored hpage ↦
      (isPageObject_of_isAnnotated hpage).of_grows hgrows
  · rw [← map_page_targets htargets, ← hsheets, List.map_map]
    rfl
  · intro s hs
    obtain ⟨stored, -, hstored, -⟩ := exists_storedId?_of_page? (hid s hs)
    have hlater := hgrows.storedId?_eq_some hstored
    obtain rfl := Option.some.inj (hlater.symm.trans (hfound s hs).stored_eq)
    exact (hfound s hs).of_le hgrows.maxNumber_le hstored
  · intro id stored hstored
    have hsame : embedding.2.pageContents id = doc.pageContents id :=
      hgrows.pageContents_eq hstored not_false
    rw [hcontents id stored (hgrows.storedId?_eq_some hstored), hsame]

/-- A document keeps the fonts of a page when only new objects are added. -/
theorem HasFont.of_grows {doc next : Document} {id : ObjectId} {name : String} {font : ObjectId}
    (h : HasFont doc id name font) (hgrows : Grows (fun _ ↦ False) doc next) :
    HasFont next id name font := by
  obtain ⟨d, resources, fonts, hd, hrest⟩ := h
  obtain ⟨stored, hstored⟩ := Document.exists_storedId?_of_dictionary? hd
  exact ⟨d, resources, fonts, (hgrows.dictionary?_eq_of_not_touched hstored not_false).trans hd,
    hrest⟩

/-- Painting takes no font from any page. -/
theorem HasFont.of_paint {annotations : AnnotationSet} {fonts : FamilyTable Payload}
    {doc out : Document} (hnumbered : doc.IsNumbered)
    (hpaint : paint doc annotations fonts = .ok out) {id : ObjectId} {name : String}
    {font : ObjectId} (h : HasFont doc id name font) : HasFont out id name font := by
  obtain ⟨targets, htargets, hpages⟩ := paint_eq_ok hpaint
  have hgrows : Grows (fun _ ↦ False) doc
      ((usedFamilies annotations).foldl (embedFamily fonts) ([], doc)).2 :=
    grows_embedFamilies hnumbered fonts (usedFamilies annotations) []
  have hstored := isAnnotated_of_targets hgrows htargets
  exact (h.of_grows hgrows).of_paintPages hgrows.isNumbered
    (fun t ht ↦ (hstored t ht).imp fun _ h ↦ h.1) hpages

/-! ## Files with content -/

/-- A file of one page with some content of seventeen characters. -/
def fileWith (content : String) : Bytes :=
  ["%PDF-1.4\n1 0 obj\n<</Type/Catalog/Pages 2 0 R>>\nendobj\n",
    "2 0 obj\n<</Type/Pages/Count 1/Kids[3 0 R]>>\nendobj\n",
    "3 0 obj\n<</Type/Page/Parent 2 0 R/Contents 4 0 R>>\nendobj\n",
    "4 0 obj\n<</Length 17>>\nstream\n" ++ content ++ "\nendstream\nendobj\n",
    "xref\n0 5\n0000000000 65535 f \n0000000009 00000 n \n0000000054 00000 n \n",
    "0000000105 00000 n \n0000000163 00000 n \n",
    "trailer\n<</Size 5/Root 1 0 R>>\nstartxref\n228\n%%EOF"].flatMap Bytes.ofText

/-- A page with content that saves, fills in red and goes back. -/
def reddened : Bytes := fileWith "q 1 0 0 rg f* Q \n"

end Marginalia.Export
