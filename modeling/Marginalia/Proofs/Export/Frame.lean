import Mathlib.Data.List.Forall2
import Marginalia.Export.Compose
import Marginalia.Pdf.Sample
import Marginalia.Proofs.Pdf.Pages

/-!
# What an export leaves as it is

Fonts and markup are added to a document as new objects. Of the objects that are there, only the
dictionaries of the annotated pages are replaced, by ones with other contents and resources. So all
pages keep their geometry.

New objects are numbered after the highest number in the table of a file. An object that claims a
higher number than its table says may have to make room for one of them.
-/

namespace Marginalia.Export

open Font (Payload)
open Pdf (Dictionary Document EngineError FileFormat Object ObjectId)
open Pdf.Document (Grows)

/-! ## Results -/

theorem exists_of_isOk {α ε : Type} {e : Except ε α} (h : e.isOk) : ∃ a, e = .ok a := by
  cases e with
  | error e => cases h
  | ok a => exact ⟨a, rfl⟩

theorem foldlM_cons_eq_ok {α β ε : Type} {f : β → α → Except ε β} {a : α} {as : List α} {b c : β}
    (h : (a :: as).foldlM f b = .ok c) : ∃ next, f b a = .ok next ∧ as.foldlM f next = .ok c := by
  rw [List.foldlM_cons] at h
  cases hfirst : f b a with
  | error e =>
    rw [hfirst] at h
    cases h
  | ok next =>
    rw [hfirst] at h
    exact ⟨next, rfl, h⟩

theorem forall₂_of_mapM_eq_ok {α β ε : Type} {f : α → Except ε β} {as : List α} {bs : List β}
    (h : as.mapM f = .ok bs) : List.Forall₂ (fun a b ↦ f a = .ok b) as bs := by
  induction as generalizing bs with
  | nil =>
    cases h
    exact .nil
  | cons a as ih =>
    rw [List.mapM_cons] at h
    cases hfirst : f a with
    | error e =>
      rw [hfirst] at h
      cases h
    | ok b =>
      cases hrest : as.mapM f with
      | error e =>
        rw [hfirst, hrest] at h
        cases h
      | ok bs' =>
        rw [hfirst, hrest] at h
        cases h
        exact .cons hfirst (ih hrest)

/-! ## New objects -/

theorem isInert_dictionary {d : Dictionary} {name : String} (keys : List String)
    (hkeys : d.map Prod.fst = keys) (htree : ∀ key ∈ Pdf.treeKeys, key ∉ keys)
    (htype : Document.typeName? d = some name) (hpage : name ≠ "Page")
    (hpages : name ≠ "Pages") : (Object.dictionary d).IsInert :=
  ⟨fun key hkey ↦ Dictionary.get?_eq_none_iff.mpr (hkeys ▸ htree key hkey),
    by simpa [htype] using hpage, by simpa [htype] using hpages⟩

theorem isInert_fontDescriptor (p : Payload) (file : ObjectId) : (fontDescriptor p file).IsInert :=
  isInert_dictionary ["Type", "FontName", "Flags", "FontBBox", "ItalicAngle", "Ascent", "Descent",
    "CapHeight", "StemV", "FontFile2"] rfl (by decide) rfl (by decide) (by decide)

theorem isInert_codedFont (p : Payload) (descriptor : ObjectId) :
    (codedFont p descriptor).IsInert :=
  isInert_dictionary ["Type", "Subtype", "BaseFont", "CIDSystemInfo", "FontDescriptor", "DW", "W",
    "CIDToGIDMap"] rfl (by decide) rfl (by decide) (by decide)

theorem isInert_compositeFont (p : Payload) (descendant toUnicode : ObjectId) :
    (compositeFont p descendant toUnicode).IsInert :=
  isInert_dictionary ["Type", "Subtype", "BaseFont", "Encoding", "DescendantFonts", "ToUnicode"]
    rfl (by decide) rfl (by decide) (by decide)

section
variable {touched : ObjectId → Prop} {doc : Document} (h : doc.IsNumbered)
include h

/-- A font is embedded by new objects. -/
theorem grows_embed (p : Payload) : Grows touched doc (embed doc p).2 := by
  let file := doc.add (fontFile p)
  let descriptor := file.2.add (fontDescriptor p file.1)
  let coded := descriptor.2.add (codedFont p descriptor.1)
  let unicode := coded.2.add (.contentStream (Bytes.ofText (UnicodeMap.text p.codes)))
  have hfile : Grows touched doc file.2 := .add h trivial
  have hdescriptor : Grows touched doc descriptor.2 := hfile.then_add (isInert_fontDescriptor p _)
  have hcoded : Grows touched doc coded.2 := hdescriptor.then_add (isInert_codedFont p _)
  have hunicode : Grows touched doc unicode.2 := hcoded.then_add trivial
  exact hunicode.then_add (isInert_compositeFont p _ _)

theorem grows_embedFamily (fonts : FamilyTable Payload) (known : List (FontFamily × ObjectId))
    (family : FontFamily) : Grows touched doc (embedFamily fonts (known, doc) family).2 := by
  unfold embedFamily
  split
  · exact .refl h
  · exact grows_embed h _

theorem grows_embedFamilies (fonts : FamilyTable Payload) (families : List FontFamily)
    (known : List (FontFamily × ObjectId)) :
    Grows touched doc (families.foldl (embedFamily fonts) (known, doc)).2 := by
  induction families generalizing doc known with
  | nil => exact .refl h
  | cons family families ih =>
    have hfirst : Grows touched doc (embedFamily fonts (known, doc) family).2 :=
      grows_embedFamily h fonts known family
    exact hfirst.trans (ih hfirst.isNumbered _)

end

/-! ## Painting a page -/

/-- A document with the streams that are put around the content of a page. -/
def withStreams (doc : Document) (operators : List Operator) : Document :=
  ((doc.add (operatorStream openingOperators)).2.add (operatorStream operators)).2

/-- The dictionary of a page with the streams around its content, and with fonts among its
resources. -/
def paintedDictionary (doc : Document) (id : ObjectId) (fonts page : Dictionary) : Dictionary :=
  (page.set "Contents" (.array (.reference ⟨doc.maxNumber + 1, 0⟩ :: doc.pageContents id ++
    [.reference ⟨doc.maxNumber + 2, 0⟩]))).set "Resources"
      (.dictionary ((doc.pageResources id).set "Font" (.dictionary fonts)))

theorem paintedDictionary_agreesAside (doc : Document) (id : ObjectId) (fonts page : Dictionary) :
    page.AgreesAside (paintedDictionary doc id fonts page) := by
  intro key hcontents hresources
  rw [paintedDictionary, Dictionary.get?_set_of_ne hresources, Dictionary.get?_set_of_ne hcontents]

theorem grows_withStreams {touched : ObjectId → Prop} {doc : Document} (h : doc.IsNumbered)
    (operators : List Operator) : Grows touched doc (withStreams doc operators) := by
  have hopening : Grows touched doc (doc.add (operatorStream openingOperators)).2 := .add h trivial
  exact hopening.then_add trivial

/-- The fonts of a page with the embedded ones among them, and the names of those. -/
def namedFonts (embedded : List (FontFamily × ObjectId)) (doc : Document) (id : ObjectId) :
    Dictionary × FamilyTable String :=
  nameFonts (fontsOf doc (doc.pageResources id)) embedded

/-- What painting a page does: its streams are added, and its dictionary is replaced. -/
theorem paintPage_eq_ok {annotations : AnnotationSet} {fonts : FamilyTable Payload}
    {embedded : List (FontFamily × ObjectId)} {doc out : Document} {t : Target}
    (h : paintPage annotations fonts embedded doc t = .ok out) :
    let named := namedFonts embedded doc t.id
    let streamed := withStreams doc (markup annotations t.page t.frame fonts named.2)
    ∃ id page, streamed.storedId? t.id = some id ∧ streamed.dictionary? t.id = some page ∧
      out = streamed.put id (.dictionary (paintedDictionary doc t.id named.1 page)) := by
  intro named streamed
  unfold paintPage at h
  dsimp only at h
  split at h
  · next id page hid hpage =>
    cases h
    exact ⟨id, page, hid, hpage, rfl⟩
  · cases h

/-- The object under which a dictionary is stored. -/
theorem get?_of_storedId? {doc : Document} {id stored : ObjectId} {d : Dictionary}
    (hstored : doc.storedId? id = some stored) (hd : doc.dictionary? id = some d) :
    doc.objects.get? stored = some (.dictionary d) := by
  obtain ⟨object, hobject, hentries⟩ := Option.bind_eq_some_iff.mp hd
  rw [← Document.object?_of_storedId? hstored, hobject]
  cases object <;> cases hentries
  rfl

theorem grows_paintPage {touched : ObjectId → Prop} {annotations : AnnotationSet}
    {fonts : FamilyTable Payload} {embedded : List (FontFamily × ObjectId)}
    {doc out : Document} {t : Target} (hnumbered : doc.IsNumbered) {stored : ObjectId}
    (hstored : doc.storedId? t.id = some stored) (htouched : touched stored)
    (h : paintPage annotations fonts embedded doc t = .ok out) : Grows touched doc out := by
  obtain ⟨id, page, hid, hpage, rfl⟩ := paintPage_eq_ok h
  have hstreamed : Grows touched doc (withStreams doc (markup annotations t.page t.frame fonts
      (namedFonts embedded doc t.id).2)) :=
    grows_withStreams hnumbered _
  obtain rfl := Option.some.inj ((hstreamed.storedId?_eq_some hstored).symm.trans hid)
  exact hstreamed.trans (.put hstreamed.isNumbered (get?_of_storedId? hid hpage)
    (paintedDictionary_agreesAside doc t.id _ page) htouched)

/-- Painting pages one after another changes their dictionaries only. -/
theorem grows_paintPages {touched : ObjectId → Prop} {annotations : AnnotationSet}
    {fonts : FamilyTable Payload} {embedded : List (FontFamily × ObjectId)}
    {doc out : Document} {targets : List Target} (hnumbered : doc.IsNumbered)
    (hstored : ∀ t ∈ targets, ∃ stored, doc.storedId? t.id = some stored ∧ touched stored)
    (h : targets.foldlM (paintPage annotations fonts embedded) doc = .ok out) :
    Grows touched doc out := by
  induction targets generalizing doc with
  | nil =>
    cases h
    exact .refl hnumbered
  | cons t rest ih =>
    obtain ⟨⟨stored, hid, htouched⟩, hrest⟩ := List.forall_mem_cons.mp hstored
    obtain ⟨next, hfirst, hlater⟩ := foldlM_cons_eq_ok h
    have hgrows := grows_paintPage hnumbered hid htouched hfirst
    refine hgrows.trans (ih hgrows.isNumbered ?_ hlater)
    intro other hother
    obtain ⟨stored, hid, htouched⟩ := hrest other hother
    exact ⟨stored, hgrows.storedId?_eq_some hid, htouched⟩

/-! ## Exporting -/

/-- A page that can be painted on: where it is, and how it is turned. -/
theorem target_eq_ok {doc : Document} {page : Nat} {t : Target} (h : target doc page = .ok t) :
    t.page = page ∧ doc.page? page = some t.id ∧
      ∃ rotation, (doc.geometry t.id).turn = .ok rotation ∧
        t.frame = .ofBox (doc.geometry t.id).origin (doc.geometry t.id).size rotation := by
  unfold target at h
  split at h
  · cases h
  · rename_i id hid
    dsimp only at h
    split at h
    · cases h
    · rename_i rotation hturn
      cases h
      exact ⟨rfl, hid, rotation, hturn, rfl⟩

/-- What painting does: the pages are found, the fonts are embedded, and the pages are painted. -/
theorem paint_eq_ok {doc out : Document} {annotations : AnnotationSet}
    {fonts : FamilyTable Payload} (h : paint doc annotations fonts = .ok out) :
    ∃ targets, List.Forall₂ (fun page t ↦ target doc page = .ok t) annotations.pages targets ∧
      let embedding := (usedFamilies annotations).foldl (embedFamily fonts) ([], doc)
      targets.foldlM (paintPage annotations fonts embedding.1) embedding.2 = .ok out := by
  unfold paint at h
  cases htargets : targets doc annotations with
  | error e =>
    rw [htargets] at h
    cases h
  | ok ts =>
    rw [htargets] at h
    exact ⟨ts, forall₂_of_mapM_eq_ok htargets, h⟩

/-- What an export does: no font is missing, and the painted document is written. -/
theorem exportDocument_eq_ok {format : FileFormat} {source bytes : Bytes}
    {annotations : AnnotationSet} {fonts : FamilyTable Payload} {doc : Document}
    (hread : format.read? source = some doc)
    (h : exportDocument format source annotations fonts = .ok bytes) :
    missingFamily? annotations fonts = none ∧
      ∃ out, paint doc annotations fonts = .ok out ∧ bytes = format.write out := by
  unfold exportDocument at h
  split at h
  · cases h
  · rename_i hmissing
    rw [hread] at h
    dsimp only at h
    cases hpaint : paint doc annotations fonts with
    | error e =>
      rw [hpaint] at h
      cases h
    | ok out =>
      rw [hpaint] at h
      cases h
      exact ⟨hmissing, out, rfl, rfl⟩

/-- Whether the dictionary of an annotated page is stored under an id. -/
def IsAnnotated (doc : Document) (annotations : AnnotationSet) (stored : ObjectId) : Prop :=
  ∃ page ∈ annotations.pages, ∃ id, doc.page? page = some id ∧ doc.storedId? id = some stored

theorem exists_storedId?_of_page? {doc : Document} {page : Nat} {id : ObjectId}
    (h : doc.page? page = some id) :
    ∃ stored d, doc.storedId? id = some stored ∧ doc.dictionary? id = some d ∧
      doc.objects.get? stored = some (.dictionary d) := by
  obtain ⟨d, hd, -⟩ := (Document.hasPage_of_page? h).exists_dictionary?
  obtain ⟨stored, hstored⟩ := Document.exists_storedId?_of_dictionary? hd
  exact ⟨stored, d, hstored, hd, get?_of_storedId? hstored hd⟩

/-- Whether the dictionary of a page is stored under an id. -/
def IsPageObject (doc : Document) (id : ObjectId) : Prop :=
  ∃ d, doc.objects.get? id = some (.dictionary d) ∧ Document.typeName? d = some "Page"

theorem isPageObject_of_isAnnotated {doc : Document} {annotations : AnnotationSet}
    {stored : ObjectId} (h : IsAnnotated doc annotations stored) : IsPageObject doc stored := by
  obtain ⟨page, -, id, hid, hstored⟩ := h
  obtain ⟨d, hd, htype⟩ := (Document.hasPage_of_page? hid).exists_dictionary?
  exact ⟨d, get?_of_storedId? hstored hd, htype⟩

theorem IsPageObject.of_grows {doc doc' : Document} {id : ObjectId} (h : IsPageObject doc id)
    (hgrows : Grows (fun _ ↦ False) doc doc') : IsPageObject doc' id := by
  obtain ⟨d, hd, htype⟩ := h
  exact ⟨d, hgrows.get?_of_not_touched hd not_false, htype⟩

section
variable {doc : Document} {pages : List Nat} {targets : List Target}
  (h : List.Forall₂ (fun page t ↦ target doc page = .ok t) pages targets)
include h

theorem exists_target_eq_ok {t : Target} (ht : t ∈ targets) :
    ∃ page ∈ pages, target doc page = .ok t := by
  obtain ⟨i, hi, rfl⟩ := List.getElem_of_mem ht
  have hi' : i < pages.length := h.length_eq ▸ hi
  exact ⟨pages[i], List.getElem_mem hi', h.get hi' hi⟩

theorem map_page_targets : targets.map Target.page = pages := by
  induction h with
  | nil => rfl
  | cons htarget _ ih => rw [List.map_cons, ih, (target_eq_ok htarget).1]

end

/-- Every page to paint on is stored under an id of an annotated page, also once the document has
grown. -/
theorem isAnnotated_of_targets {touched : ObjectId → Prop} {doc doc' : Document}
    {annotations : AnnotationSet} {targets : List Target} (hgrows : Grows touched doc doc')
    (h : List.Forall₂ (fun page t ↦ target doc page = .ok t) annotations.pages targets) :
    ∀ t ∈ targets, ∃ stored, doc'.storedId? t.id = some stored ∧
      IsAnnotated doc annotations stored := by
  intro t ht
  obtain ⟨page, hpage, htarget⟩ := exists_target_eq_ok h ht
  obtain ⟨-, hid, -⟩ := target_eq_ok htarget
  obtain ⟨stored, -, hstored, -⟩ := exists_storedId?_of_page? hid
  exact ⟨stored, hgrows.storedId?_eq_some hstored, page, hpage, t.id, hid, hstored⟩

/-- What a document has in common with another in which some `changed` dictionaries of pages got
other contents and resources. -/
structure Frame (changed : ObjectId → Prop) (doc out : Document) : Prop where
  version_eq : out.version = doc.version
  trailer_eq : out.trailer = doc.trailer
  unchanged : ∀ id object, doc.objects.get? id = some object → ¬changed id →
    out.objects.get? id = some object
  changed_aside : ∀ id, changed id → ∃ d d', doc.objects.get? id = some (.dictionary d) ∧
    out.objects.get? id = some (.dictionary d') ∧ Dictionary.AgreesAside d d'
  added : ∀ id object, doc.objects.get? id = none → out.objects.get? id = some object →
    doc.maxNumber < id.number
  dictionary?_eq : ∀ id stored, doc.storedId? id = some stored → ¬changed stored →
    out.dictionary? id = doc.dictionary? id
  geometry_eq : ∀ id, out.geometry id = doc.geometry id
  pages_prefix : doc.pages <+: out.pages
  pages_eq : doc.isSearched → out.pages = doc.pages

theorem Frame.of_grows {changed : ObjectId → Prop} {doc out : Document}
    (h : Grows changed doc out)
    (hchanged : ∀ id, changed id → ∃ d, doc.objects.get? id = some (.dictionary d)) :
    Frame changed doc out where
  version_eq := h.version_eq
  trailer_eq := h.trailer_eq
  unchanged := by
    intro id object hid hnot
    obtain ⟨object', hid', -, hsame⟩ := h.kept id object hid
    rw [hid', hsame hnot]
  changed_aside := by
    intro id hid
    obtain ⟨d, hd⟩ := hchanged id hid
    obtain ⟨object', hobject', hres, -⟩ := h.kept id _ hd
    rcases hres with rfl | ⟨e, e', he, rfl, hagree⟩
    · exact ⟨d, d, hd, hobject', fun _ _ _ ↦ rfl⟩
    · cases he
      exact ⟨d, e', hd, hobject', hagree⟩
  added := h.above
  dictionary?_eq := fun _ _ ↦ h.dictionary?_eq_of_not_touched
  geometry_eq := h.geometry_eq
  pages_prefix := h.pages_prefix
  pages_eq := fun hsearched ↦
    h.pages_eq.trans (Document.pagesWithin_of_isSearched hsearched h.length_le)

/-- An export changes nothing but the contents and the resources in the dictionaries of the
annotated pages, whatever the files look like. -/
theorem exportDocument_frame {format : FileFormat} {source bytes : Bytes}
    {annotations : AnnotationSet} {fonts : FamilyTable Payload} {doc : Document}
    (hread : format.read? source = some doc) (hnumbered : doc.IsNumbered)
    (hexport : exportDocument format source annotations fonts = .ok bytes) :
    ∃ out, paint doc annotations fonts = .ok out ∧ bytes = format.write out ∧
      Frame (IsAnnotated doc annotations) doc out := by
  obtain ⟨-, out, hpaint, hbytes⟩ := exportDocument_eq_ok hread hexport
  refine ⟨out, hpaint, hbytes, .of_grows ?_ ?_⟩
  · obtain ⟨targets, htargets, hpages⟩ := paint_eq_ok hpaint
    have hembedded : Grows (IsAnnotated doc annotations) doc
        ((usedFamilies annotations).foldl (embedFamily fonts) ([], doc)).2 :=
      grows_embedFamilies hnumbered fonts _ _
    exact hembedded.trans (grows_paintPages hembedded.isNumbered
      (isAnnotated_of_targets hembedded htargets) hpages)
  · rintro stored ⟨page, -, id, hid, hstored⟩
    obtain ⟨other, d, hother, -, hd⟩ := exists_storedId?_of_page? hid
    obtain rfl := Option.some.inj (hstored.symm.trans hother)
    exact ⟨d, hd⟩

/-- One upright page. -/
def onePage : Bytes := Pdf.Sample.document [⟨300, 400, 0, 0, 0⟩]

/-- The file of that page. -/
theorem onePage_eq : onePage = [
    "%PDF-1.5\n1 0 obj\n<</Type/Pages/Kids[4 0 R]/Count 1>>\nendobj\n",
    "2 0 obj\n<</Type/Font/Subtype/Type1/BaseFont/Helvetica>>\nendobj\n",
    "3 0 obj\n<</Length 34>>stream\nBT /F1 12 Tf 72 720 Td (Hi) Tj ET\n\nendstream \nendobj\n",
    "4 0 obj\n<</Type/Page/Parent 1 0 R/MediaBox[0 0 300 400]/Contents 3 0 R",
    "/Resources<</Font<</F1 2 0 R>>>>>>\nendobj\n",
    "5 0 obj\n<</Type/Catalog/Pages 1 0 R>>\nendobj\n",
    "6 0 obj\n<</Root 5 0 R/Type/XRef/Size 7/W[1 4 2]/Index[1 6]/Length 42>>stream\n"].flatMap
      Bytes.ofText ++
    [9, 60, 123, 205, 317, 362].flatMap (fun position ↦
      1 :: Pdf.Writer.bigEndian 4 position ++ [0, 0]) ++
    Bytes.ofText "\nendstream \nendobj\n\nstartxref\n362\n%%EOF" := by
  simp only [List.flatMap_cons, List.flatMap_nil]
  repeat rw [Bytes.ofText_ofList]
  decide +kernel

/-- A black square on each of some pages. -/
def squares (pages : List Nat) : AnnotationSet :=
  ⟨[], pages.map fun page ↦ ⟨page, page, 10, 10, 20, 20, .black⟩⟩

theorem read_onePage :
    ∃ doc, FileFormat.standard.read? onePage = some doc ∧ doc.IsNumbered ∧ doc.isSearched := by
  have hread : (FileFormat.standard.read? onePage).any fun doc ↦
      doc.IsNumbered ∧ doc.isSearched := by
    simp only [onePage_eq, List.flatMap_cons, List.flatMap_nil]
    repeat rw [Bytes.ofText_ofList]
    decide +kernel
  simpa [Option.any_eq_true] using hread

theorem exportDocument_frame_onePage :
    ∃ doc bytes out, FileFormat.standard.read? onePage = some doc ∧ doc.IsNumbered ∧
      exportDocument .standard onePage (squares [1]) .empty = .ok bytes ∧
      bytes = FileFormat.standard.write out ∧
      Frame (IsAnnotated doc (squares [1])) doc out ∧ out.pages = doc.pages := by
  obtain ⟨doc, hread, hnumbered, hsearched⟩ := read_onePage
  have hok : (exportDocument .standard onePage (squares [1]) .empty).isOk := by
    simp only [onePage_eq, List.flatMap_cons, List.flatMap_nil]
    repeat rw [Bytes.ofText_ofList]
    decide +kernel
  obtain ⟨bytes, hexport⟩ := exists_of_isOk hok
  obtain ⟨out, -, hbytes, hframe⟩ := exportDocument_frame hread hnumbered hexport
  exact ⟨doc, bytes, out, hread, hnumbered, hexport, hbytes, hframe, hframe.pages_eq hsearched⟩

/-! ## Unusual files -/

/-- Two pages among more entries of a page tree than there are objects in the file. -/
def crowded : Bytes :=
  ["%PDF-1.4\n1 0 obj\n<</Type/Catalog/Pages 2 0 R>>\nendobj\n",
    "2 0 obj\n<</Type/Pages/Count 2/Kids[3 0 R null null null 4 0 R]>>\nendobj\n",
    "3 0 obj\n<</Type/Page/Parent 2 0 R>>\nendobj\n",
    "4 0 obj\n<</Type/Page/Parent 2 0 R>>\nendobj\n",
    "xref\n0 5\n0000000000 65535 f \n0000000009 00000 n \n0000000054 00000 n \n",
    "0000000126 00000 n \n0000000169 00000 n \n",
    "trailer\n<</Size 5/Root 1 0 R>>\nstartxref\n212\n%%EOF"].flatMap Bytes.ofText

/-- Two pages. The first claims the number 7, where the table says 3. -/
def misnumbered : Bytes :=
  ["%PDF-1.4\n1 0 obj\n<</Type/Catalog/Pages 2 0 R>>\nendobj\n",
    "2 0 obj\n<</Type/Pages/Count 2/Kids[7 0 R 4 0 R]>>\nendobj\n",
    "7 0 obj\n<</Type/Page/Parent 2 0 R>>\nendobj\n",
    "4 0 obj\n<</Type/Page/Parent 2 0 R>>\nendobj\n",
    "xref\n0 5\n0000000000 65535 f \n0000000009 00000 n \n0000000054 00000 n \n",
    "0000000111 00000 n \n0000000154 00000 n \n",
    "trailer\n<</Size 5/Root 1 0 R>>\nstartxref\n197\n%%EOF"].flatMap Bytes.ofText

/-- With the new objects, the search for pages gets to the second page of the first file. The first
page of the second file makes room for what is put before the content of the second page. -/
theorem pages_paint_crowded_misnumbered :
    ((Pdf.File.read? crowded).map fun doc ↦
        (doc.isSearched, doc.pages,
          (paint doc (squares [1]) .empty).toOption.map Document.pages)) =
      some (false, [⟨3, 0⟩], some [⟨3, 0⟩, ⟨4, 0⟩]) ∧
    ((Pdf.File.read? misnumbered).map fun doc ↦
        (doc.isSearched, doc.pages,
          (paint doc (squares [1, 2]) .empty).toOption.map Document.pages)) =
      some (true, [⟨7, 0⟩, ⟨4, 0⟩], some [⟨4, 0⟩]) := by
  simp only [crowded, misnumbered, List.flatMap_cons, List.flatMap_nil]
  repeat rw [Bytes.ofText_ofList]
  decide +kernel

end Marginalia.Export
