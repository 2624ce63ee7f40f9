import Marginalia.Proofs.Export.Markup
import Marginalia.Proofs.Pdf.Copies

/-!
# Exports of exports

A document is saved again and again, each time with other annotations painted into the file of the
time before. Every save puts its streams around what is there and gives its fonts names that are not
in use yet. So the streams of all saves stay, in order, and the names in earlier markup keep their
fonts. None of these objects belongs to the layout of files, and their numbers are integers, so they
are still there when a file is read again.
-/

namespace Marginalia.Export

open Font (Payload)
open Pdf (Dictionary Document FileFormat Object ObjectId)
open Pdf.Document (Descends Grows IsReread)

/-! ## Saves -/

/-- Annotations that are painted into a document at a time, with the fonts for them. -/
structure Save where
  annotations : AnnotationSet
  fonts : FamilyTable Payload

/-- The file of a document after some saves, each into the file of the one before. -/
def exportInTurn (format : FileFormat) (source : Bytes) (saves : List Save) :
    Except ExportError Bytes :=
  saves.foldlM (fun source save ↦ exportDocument format source save.annotations save.fonts) source

/-- Whether every document that these saves write, except the last one, is read again. -/
def ReadsBack (format : FileFormat) : Document → List Save → Prop
  | doc, save :: next :: rest =>
    ∀ out, paint doc save.annotations save.fonts = .ok out →
      ∃ reread, format.read? (format.write out) = some reread ∧ out.IsReread reread ∧
        ReadsBack format reread (next :: rest)
  | _, _ => True

/-- A save with the document that it started from, and the fonts and the sheets that it has left. -/
structure Edition where
  save : Save
  source : Document
  embedded : List (FontFamily × ObjectId)
  sheets : List Sheet

/-- The sheet of a page, if the save has annotations on it. -/
def Edition.sheet? (page : Nat) (e : Edition) : Option Sheet :=
  e.sheets.find? fun s ↦ s.target.page = page

/-- What a save on the way from one document to another has left is found in the latter. -/
structure Edition.IsKept (e : Edition) (doc last : Document) : Prop where
  descends : Descends doc e.source
  families_eq : e.embedded.map Prod.fst = usedFamilies e.save.annotations
  isFontOf : ∀ entry ∈ e.embedded, IsFontOf e.save.fonts e.source.maxNumber last entry
  pages_eq : e.sheets.map (fun s ↦ s.target.page) = e.save.annotations.pages
  page?_eq : ∀ s ∈ e.sheets, e.source.page? s.target.page = some s.target.id
  isFound : ∀ s ∈ e.sheets,
    s.IsFound e.save.annotations e.save.fonts e.embedded e.source last

section
variable {e : Edition} {doc last : Document} (h : e.IsKept doc last) {s : Sheet}
  (hs : s ∈ e.sheets)
include h hs

theorem Edition.IsKept.hasPage : doc.HasPage s.target.page s.target.id :=
  h.descends.hasPage_iff.mp (Document.hasPage_of_page? (h.page?_eq s hs))

/-- A page is stored where it was in the first document. -/
theorem Edition.IsKept.stored_eq : doc.storedId? s.target.id = some s.stored := by
  obtain ⟨stored, hstored, hlater⟩ := h.descends.exists_storedId? (h.hasPage hs)
  obtain rfl := Option.some.inj (hlater.symm.trans (h.isFound s hs).stored_eq)
  exact hstored

end

/-! ## Reading again -/

theorem WidthRun.asRead_object (runs : List WidthRun) :
    (WidthRun.object runs).asRead = WidthRun.object runs := by
  have hwidths (widths : List Int) :
      (Object.array (widths.map Object.integer)).asRead = .array (widths.map Object.integer) := by
    rw [Object.asRead, Object.itemsAsRead_eq, List.map_map]
    exact congrArg _ (List.map_congr_left fun _ _ ↦ rfl)
  have hrun (run : WidthRun) :
      [Object.integer run.first, .array (run.widths.map Object.integer)].map Object.asRead =
        [.integer run.first, .array (run.widths.map Object.integer)] := by
    rw [List.map_cons, List.map_singleton, hwidths]
    rfl
  rw [object, Object.asRead, Object.itemsAsRead_eq, List.map_flatMap]
  exact congrArg _ (List.flatMap_congr fun run _ ↦ hrun run)

/-- The numbers of a font are integers. -/
theorem asRead_codedFont (p : Payload) (descriptor : ObjectId) :
    (codedFont p descriptor).asRead = codedFont p descriptor := by
  simp [codedFont, Object.asRead, Object.entriesAsRead, WidthRun.asRead_object]

theorem IsFontOf.of_isReread {fonts : FamilyTable Payload} {base : Nat} {doc next : Document}
    {entry : FontFamily × ObjectId} (h : IsFontOf fonts base doc entry)
    (hreread : doc.IsReread next) : IsFontOf fonts base next entry := by
  obtain ⟨p, n, hp, hbase, hid, hholds⟩ := h
  exact ⟨p, n, hp, hbase, hid, {
    file := hreread.get?_eq_some hholds.file rfl rfl
    descriptor := hreread.get?_eq_some hholds.descriptor rfl rfl
    coded := hreread.get?_eq_some hholds.coded rfl (asRead_codedFont p _)
    toUnicode := hreread.get?_eq_some hholds.toUnicode rfl rfl
    composite := hreread.get?_eq_some hholds.composite rfl rfl }⟩

theorem hasFont_asRead_iff {doc : Document} {id : ObjectId} {name : String} {font : ObjectId} :
    HasFont doc.asRead id name font ↔ HasFont doc id name font := by
  unfold HasFont
  rw [Document.dictionary?_asRead]
  constructor
  · rintro ⟨_, _, _, hpage, hownRead, hfontsRead, hname⟩
    obtain ⟨d, hd, rfl⟩ := Option.map_eq_some_iff.mp hpage
    obtain ⟨resources, hresources, rfl⟩ := Dictionary.get?_asRead_eq_dictionary_iff.mp hownRead
    obtain ⟨fonts, hfonts, rfl⟩ := Dictionary.get?_asRead_eq_dictionary_iff.mp hfontsRead
    exact ⟨d, resources, fonts, hd, hresources, hfonts,
      Dictionary.get?_asRead_eq_reference_iff.mp hname⟩
  · rintro ⟨d, resources, fonts, hd, hresources, hfonts, hname⟩
    exact ⟨_, _, _, Option.map_eq_some_iff.mpr ⟨d, hd, rfl⟩,
      Dictionary.get?_asRead_eq_dictionary_iff.mpr ⟨_, hresources, rfl⟩,
      Dictionary.get?_asRead_eq_dictionary_iff.mpr ⟨_, hfonts, rfl⟩,
      Dictionary.get?_asRead_eq_reference_iff.mpr hname⟩

theorem HasFont.of_isReread {doc next : Document} {page : Nat} {id : ObjectId} {name : String}
    {font : ObjectId} (h : HasFont doc id name font) (hid : doc.HasPage page id)
    (hreread : doc.IsReread next) : HasFont next id name font := by
  rw [← hasFont_asRead_iff] at h ⊢
  unfold HasFont
  rw [hreread.dictionary?_eq hid]
  exact h

theorem Edition.IsKept.of_isReread {e : Edition} {doc out next : Document} (h : e.IsKept doc out)
    (hdescends : Descends doc out) (hreread : out.IsReread next) : e.IsKept doc next :=
  { h with
    isFontOf := fun entry hentry ↦ (h.isFontOf entry hentry).of_isReread hreread
    isFound := by
      intro s hs
      have hfound := h.isFound s hs
      have hpage : out.HasPage s.target.page s.target.id := hdescends.hasPage_iff.mpr (h.hasPage hs)
      exact { hfound with
        opening_eq := hreread.get?_eq_some hfound.opening_eq rfl rfl
        markup_eq := hreread.get?_eq_some hfound.markup_eq rfl rfl
        named := fun entry hentry ↦ (hfound.named entry hentry).imp fun _ ⟨hname, hfont⟩ ↦
          ⟨hname, hfont.of_isReread hpage hreread⟩ } }

theorem map_asRead_wrapped (sheets : List Sheet) (stored : ObjectId) (contents : List Object) :
    (wrapped sheets stored contents).map Object.asRead =
      wrapped sheets stored (contents.map Object.asRead) := by
  simp only [wrapped, List.map_append, List.map_map]
  rfl

/-- Some saves have led from one document to another: all that they have left is there, and every
page has their streams around its content. -/
structure Accumulated (doc : Document) (editions : List Edition) (last : Document) : Prop where
  descends : Descends doc last
  isNumbered : last.IsNumbered
  isKept : ∀ e ∈ editions, e.IsKept doc last
  contents_eq : ∀ page id stored, doc.HasPage page id → doc.storedId? id = some stored →
    (last.pageContents id).map Object.asRead = wrapped (editions.flatMap Edition.sheets) stored
      ((doc.pageContents id).map Object.asRead)

theorem accumulated_nil {doc : Document} (h : doc.IsNumbered) : Accumulated doc [] doc :=
  ⟨.refl doc, h, by simp, by simp [wrapped]⟩

theorem Accumulated.of_isReread {doc out next : Document} {editions : List Edition}
    (h : Accumulated doc editions out) (hreread : out.IsReread next) :
    Accumulated doc editions next where
  descends := h.descends.of_isReread hreread
  isNumbered := hreread.isNumbered
  isKept := fun e he ↦ (h.isKept e he).of_isReread h.descends hreread
  contents_eq := by
    intro page id stored hid hstored
    rw [hreread.pageContents_eq (h.descends.hasPage_iff.mpr hid)]
    exact h.contents_eq page id stored hid hstored

/-! ## One more save -/

section
variable {doc last out : Document} {save : Save} {embedded : List (FontFamily × ObjectId)}
  {sheets : List Sheet} (hsheeted : Sheeted save.annotations save.fonts embedded sheets last out)
include hsheeted

/-- What the new save leaves is there. -/
theorem isKept_of_sheeted (hdescends : Descends doc last) :
    Edition.IsKept ⟨save, last, embedded, sheets⟩ doc out where
  descends := hdescends
  families_eq := hsheeted.families_eq
  isFontOf := hsheeted.isFontOf
  pages_eq := hsheeted.pages_eq
  page?_eq := hsheeted.page?_eq
  isFound := hsheeted.isFound

variable (hnumbered : last.IsNumbered) (hpaint : paint last save.annotations save.fonts = .ok out)
include hnumbered hpaint

/-- What earlier saves have left stays. -/
theorem Edition.IsKept.step {e : Edition} (hkept : e.IsKept doc last) : e.IsKept doc out :=
  { hkept with
    isFontOf := fun entry hentry ↦ (hkept.isFontOf entry hentry).of_grows hsheeted.grows fun _ ↦
      isPageObject_of_isAnnotated
    isFound := by
      intro s hs
      have hfound := hkept.isFound s hs
      exact { hfound with
        opening_eq := hsheeted.grows.get?_stream hfound.opening_eq
        markup_eq := hsheeted.grows.get?_stream hfound.markup_eq
        named := fun entry hentry ↦ (hfound.named entry hentry).imp fun _ ⟨hname, hfont⟩ ↦
          ⟨hname, hfont.of_paint hnumbered hpaint⟩ } }

end

theorem Accumulated.step {doc last out : Document} {editions : List Edition} {save : Save}
    {embedded : List (FontFamily × ObjectId)} {sheets : List Sheet}
    (h : Accumulated doc editions last)
    (hsheeted : Sheeted save.annotations save.fonts embedded sheets last out)
    (hpaint : paint last save.annotations save.fonts = .ok out) :
    Accumulated doc (editions ++ [⟨save, last, embedded, sheets⟩]) out where
  descends := h.descends.of_extends hsheeted.grows.toExtends
  isNumbered := hsheeted.grows.isNumbered
  isKept := by
    intro e he
    rcases List.mem_append.mp he with hold | hnew
    · exact (h.isKept e hold).step hsheeted h.isNumbered hpaint
    · obtain rfl := List.mem_singleton.mp hnew
      exact isKept_of_sheeted hsheeted h.descends
  contents_eq := by
    intro page id stored hid hstored
    obtain ⟨other, hother, hlater⟩ := h.descends.exists_storedId? hid
    obtain rfl := Option.some.inj (hstored.symm.trans hother)
    rw [hsheeted.contents_eq id stored hlater, map_asRead_wrapped,
      h.contents_eq page id stored hid hstored, ← wrapped_append]
    simp

/-! ## All saves -/

/-- A file holds a document if the one is read from the other, or has been written from it. -/
def Holds (format : FileFormat) (bytes : Bytes) (doc : Document) : Prop :=
  format.read? bytes = some doc ∨ bytes = format.write doc

/-- Saves in turn leave all that each of them leaves. -/
theorem exists_accumulated {format : FileFormat} {doc : Document} {editions : List Edition}
    {current : Document} (h : Accumulated doc editions current) {saves : List Save}
    {source bytes : Bytes} (hread : format.read? source = some current)
    (hback : ReadsBack format current saves)
    (hexport : exportInTurn format source saves = .ok bytes) :
    ∃ out later, Holds format bytes out ∧ later.map Edition.save = saves ∧
      Accumulated doc (editions ++ later) out := by
  -- Only a file that another save starts from is read again, so the last save is a case of its own.
  induction saves generalizing editions current source with
  | nil =>
    cases hexport
    exact ⟨current, [], Or.inl hread, rfl, by simpa using h⟩
  | cons save rest ih =>
    obtain ⟨written, hfirst, hrest⟩ := foldlM_cons_eq_ok hexport
    obtain ⟨hmissing, out, hpaint, rfl⟩ := exportDocument_eq_ok hread hfirst
    obtain ⟨embedded, sheets, hsheeted, -⟩ := exists_sheeted h.isNumbered hmissing hpaint
    have hstep := h.step hsheeted hpaint
    cases rest with
    | nil =>
      cases hrest
      exact ⟨out, [⟨save, current, embedded, sheets⟩], Or.inr rfl, rfl, hstep⟩
    | cons second rest =>
      obtain ⟨reread, hreread, hsame, hback⟩ := hback out hpaint
      obtain ⟨last, later, hlast, hsaves, hall⟩ :=
        ih (hstep.of_isReread hsame) hreread hback hrest
      refine ⟨last, ⟨save, current, embedded, sheets⟩ :: later, hlast,
        by rw [List.map_cons, hsaves], ?_⟩
      rw [List.append_cons]
      exact hall

/-! ## Pages -/

theorem eq_map_reference_of_map_asRead {objects : List Object} {sheets : List Sheet}
    {f : Sheet → ObjectId}
    (h : objects.map Object.asRead = sheets.map fun s ↦ Object.reference (f s)) :
    objects = sheets.map fun s ↦ .reference (f s) := by
  induction sheets generalizing objects with
  | nil => exact List.map_eq_nil_iff.mp h
  | cons s rest ih =>
    obtain ⟨object, objects, rfl, hobject, hrest⟩ := List.map_eq_cons_iff.mp h
    rw [List.map_cons, Object.asRead_eq_reference_iff.mp hobject, ih hrest]

/-- Only what lies between the streams of sheets can have numbers. -/
theorem exists_items_of_map_asRead {contents original : List Object} {own : List Sheet}
    (h : contents.map Object.asRead = own.reverse.map (fun s ↦ Object.reference s.opening) ++
      original.map Object.asRead ++ own.map fun s ↦ .reference s.markup) :
    ∃ items, contents = own.reverse.map (fun s ↦ .reference s.opening) ++ items ++
        own.map (fun s ↦ .reference s.markup) ∧
      items.map Object.asRead = original.map Object.asRead := by
  obtain ⟨before, markups, rfl, hbefore, hmarkups⟩ := List.map_eq_append_iff.mp h
  obtain ⟨openings, items, rfl, hopenings, hitems⟩ := List.map_eq_append_iff.mp hbefore
  obtain rfl := eq_map_reference_of_map_asRead hopenings
  obtain rfl := eq_map_reference_of_map_asRead hmarkups
  exact ⟨items, rfl, hitems⟩

/-- Of sheets of different pages, one at most is the sheet of a page. -/
theorem toList_find?_page {sheets : List Sheet}
    (hnodup : (sheets.map fun s ↦ s.target.page).Nodup) (page : Nat) :
    (sheets.find? fun s ↦ s.target.page = page).toList =
      sheets.filter fun s ↦ s.target.page = page := by
  induction sheets with
  | nil => rfl
  | cons s rest ih =>
    obtain ⟨hnotin, hrest⟩ := List.nodup_cons.mp hnodup
    by_cases hpage : s.target.page = page
    · have hnone : (rest.filter fun s ↦ s.target.page = page) = [] := by
        refine List.filter_eq_nil_iff.mpr fun t ht hsame ↦ hnotin ?_
        exact List.mem_map.mpr ⟨t, ht, (of_decide_eq_true hsame).trans hpage.symm⟩
      simp [hpage, hnone]
    · simpa [hpage] using ih hrest

section
variable {doc last : Document} {e : Edition} (h : e.IsKept doc last)
include h

/-- A save has a sheet of the pages that carry annotations. -/
theorem Edition.IsKept.isSome_sheet? (page : Nat) :
    (e.sheet? page).isSome = decide (page ∈ e.save.annotations.pages) := by
  rw [← h.pages_eq, Bool.eq_iff_iff]
  simp [Edition.sheet?, List.find?_isSome]

/-- The sheets that were painted on the object of a page are the sheet of the page. -/
theorem Edition.IsKept.filter_stored
    (hdistinct : ∀ steps, ((doc.pagesWithin steps).map doc.storedId?).Nodup) {page : Nat}
    {id stored : ObjectId} (hid : doc.HasPage page id) (hstored : doc.storedId? id = some stored) :
    (e.sheets.filter fun s ↦ s.stored = stored) = (e.sheet? page).toList := by
  have hnodup : (e.sheets.map fun s ↦ s.target.page).Nodup := by
    rw [h.pages_eq]
    exact e.save.annotations.pairwise_pages.imp Nat.ne_of_lt
  rw [Edition.sheet?, toList_find?_page hnodup]
  refine List.filter_congr fun s hs ↦ ?_
  have hpage := h.hasPage hs
  have hfound := h.stored_eq hs
  refine decide_eq_decide.mpr ⟨fun hsame ↦ ?_, fun hsame ↦ ?_⟩
  · exact hpage.page_eq hdistinct hid (by rw [hfound, hstored, hsame])
  · obtain rfl := (hsame ▸ hpage).id_eq hid
    exact Option.some.inj (hfound.symm.trans hstored)

end

/-- Saves accumulate in every file format that keeps what is written: a page has the streams of all
saves that have annotations on it around its content, one pair for each, and all names in its markup
keep their fonts. In between are the items of its content, whose numbers may be read as integers.
That holds of the document as it was written last, and as it is read again. Of the pages of the
first document those are found again to which a search gets that visits as many nodes as there are
objects now. -/
theorem exportInTurn_accumulates {format : FileFormat} {source bytes : Bytes} {saves : List Save}
    {doc : Document} (hread : format.read? source = some doc) (hnumbered : doc.IsNumbered)
    (hdistinct : ∀ steps, ((doc.pagesWithin steps).map doc.storedId?).Nodup)
    (hback : ReadsBack format doc saves)
    (hexport : exportInTurn format source saves = .ok bytes) :
    ∃ (out : Document) (editions : List Edition), Holds format bytes out ∧ out.IsNumbered ∧
      editions.map Edition.save = saves ∧ ∀ last, out.IsReread last →
        last.pages = doc.pagesWithin last.objects.length ∧
        (∀ e ∈ editions, e.IsKept doc last) ∧
        (∀ e ∈ editions, ∀ s ∈ e.sheets, ∀ entry ∈ e.embedded,
          ∃ name, s.names.get? entry.1 = some name ∧
            (fontsOf last (last.pageResources s.target.id)).get? name =
              some (.reference entry.2)) ∧
        ∀ page id, doc.page? page = some id ∨ last.page? page = some id →
          let own := editions.filterMap (Edition.sheet? page)
          own.length = saves.countP (fun save ↦ page ∈ save.annotations.pages) ∧
            (∀ s ∈ own, s.target.id = id) ∧
            ∃ items, last.pageContents id = own.reverse.map (fun s ↦ .reference s.opening) ++
                items ++ own.map (fun s ↦ .reference s.markup) ∧
              items.map Object.asRead = (doc.pageContents id).map Object.asRead := by
  obtain ⟨out, editions, hholds, hsaves, hall⟩ :=
    exists_accumulated (accumulated_nil hnumbered) hread hback hexport
  rw [List.nil_append] at hall
  refine ⟨out, editions, hholds, hall.isNumbered, hsaves, fun last hreread ↦ ?_⟩
  have hall := hall.of_isReread hreread
  refine ⟨hall.descends.pages_eq, hall.isKept, ?_, ?_⟩
  · intro e he s hs entry hentry
    obtain ⟨name, hname, hfont⟩ := ((hall.isKept e he).isFound s hs).named entry hentry
    exact ⟨name, hname, hfont.get?_eq⟩
  · intro page id hpage
    have hid : doc.HasPage page id :=
      hpage.elim Document.hasPage_of_page? fun hlast ↦
        hall.descends.hasPage_iff.mp (Document.hasPage_of_page? hlast)
    obtain ⟨stored, hstored, -⟩ := hall.descends.exists_storedId? hid
    refine ⟨?_, ?_, ?_⟩
    · rw [← hsaves, List.countP_map, List.length_filterMap_eq_countP]
      exact List.countP_congr fun e he ↦ by rw [(hall.isKept e he).isSome_sheet?]; rfl
    · intro s hs
      obtain ⟨e, he, hsheet⟩ := List.mem_filterMap.mp hs
      have hsame : s.target.page = page := by simpa using List.find?_some hsheet
      have hpage := (hall.isKept e he).hasPage (List.mem_of_find?_eq_some hsheet)
      exact (hsame ▸ hpage).id_eq hid
    · have hown : ((editions.flatMap Edition.sheets).filter fun s ↦ s.stored = stored) =
          editions.filterMap (Edition.sheet? page) := by
        rw [List.filter_flatMap, List.filterMap_eq_flatMap_toList]
        exact List.flatMap_congr fun e he ↦
          (hall.isKept e he).filter_stored hdistinct hid hstored
      have hcontents := hall.contents_eq page id stored hid hstored
      rw [wrapped, hown] at hcontents
      exact exists_items_of_map_asRead hcontents

/-- Once the first annotations are painted, the other saves start from the file of that. -/
theorem exportInTurn_cons_of_paint {format : FileFormat} {source : Bytes} {save : Save}
    {rest : List Save} {doc out : Document} (hread : format.read? source = some doc)
    (hmissing : missingFamily? save.annotations save.fonts = none)
    (hpaint : paint doc save.annotations save.fonts = .ok out) :
    exportInTurn format source (save :: rest) = exportInTurn format (format.write out) rest := by
  have hexport : exportDocument format source save.annotations save.fonts =
      .ok (format.write out) := by
    rw [exportDocument, hmissing, hread]
    dsimp only
    rw [hpaint]
    rfl
  rw [exportInTurn, List.foldlM_cons, hexport]
  rfl

/-- A square is painted on the first page, and later a label. -/
def squareThenNote : List Save := [⟨squares [1], .empty⟩, ⟨note, ⟨none, some plainFont⟩⟩]

/-- Both saves succeed, the second one into the file of the first. There the cross-references are an
object more, and with it the highest number is greater than when the file was written. -/
theorem paint_squareThenNote :
    ∃ doc painted reread last, FileFormat.standard.read? onePage = some doc ∧ doc.IsNumbered ∧
      doc.isSearched ∧ (doc.pages.map doc.storedId?).Nodup ∧ (doc.page? 1).isSome ∧
      paint doc (squares [1]) .empty = .ok painted ∧
      FileFormat.standard.read? (FileFormat.standard.write painted) = some reread ∧
      painted.IsReread reread ∧ painted.maxNumber < reread.maxNumber ∧
      paint reread note ⟨none, some plainFont⟩ = .ok last := by
  have hrun : (FileFormat.standard.read? onePage).any fun doc ↦
      decide (doc.IsNumbered ∧ doc.isSearched ∧ (doc.pages.map doc.storedId?).Nodup ∧
        (doc.page? 1).isSome) &&
        (paint doc (squares [1]) .empty).toOption.any fun out ↦
          (FileFormat.standard.read? (FileFormat.standard.write out)).any fun reread ↦
            decide (out.IsReread reread ∧ out.maxNumber < reread.maxNumber) &&
              (paint reread note ⟨none, some plainFont⟩).isOk := by
    simp only [onePage_eq, List.flatMap_cons, List.flatMap_nil]
    repeat rw [Bytes.ofText_ofList]
    decide +kernel
  obtain ⟨doc, hread, hdoc⟩ := (Option.any_eq_true _ _).mp hrun
  obtain ⟨hdoc, hfirst⟩ := (Bool.and_eq_true _ _).mp hdoc
  obtain ⟨hnumbered, hsearched, hnodup, hpage⟩ := of_decide_eq_true hdoc
  obtain ⟨painted, hpainted, hsecond⟩ := (Option.any_eq_true _ _).mp hfirst
  obtain ⟨reread, hreread, hthird⟩ := (Option.any_eq_true _ _).mp hsecond
  obtain ⟨hsame, hlast⟩ := (Bool.and_eq_true _ _).mp hthird
  obtain ⟨hsame, hhigher⟩ := of_decide_eq_true hsame
  obtain ⟨last, hlast⟩ := exists_of_isOk hlast
  have hpaint : paint doc (squares [1]) .empty = .ok painted := by
    cases h : paint doc (squares [1]) .empty with
    | error e => simp [h, Except.toOption] at hpainted
    | ok out => exact congrArg _ (by simpa [h, Except.toOption] using hpainted)
  exact ⟨doc, painted, reread, last, hread, hnumbered, hsearched, hnodup, hpage, hpaint, hreread,
    hsame, hhigher, hlast⟩

/-- Both saves are found on the page, and each of them has its own streams. -/
theorem exportInTurn_accumulates_squareThenNote :
    ∃ (doc : Document) (bytes : Bytes) (out : Document) (editions : List Edition) (id : ObjectId),
      FileFormat.standard.read? onePage = some doc ∧ doc.IsNumbered ∧
      (∀ steps, ((doc.pagesWithin steps).map doc.storedId?).Nodup) ∧
      ReadsBack .standard doc squareThenNote ∧
      exportInTurn .standard onePage squareThenNote = .ok bytes ∧
      Holds .standard bytes out ∧ editions.map Edition.save = squareThenNote ∧
      (∀ e ∈ editions, e.IsKept doc out) ∧ doc.page? 1 = some id ∧
      (editions.filterMap (Edition.sheet? 1)).length = 2 := by
  obtain ⟨doc, painted, reread, last, hread, hnumbered, hsearched, hnodup, hpage, hpaint, hreread,
    hsame, -, hlast⟩ := paint_squareThenNote
  have hback : ReadsBack .standard doc squareThenNote := by
    intro out hout
    obtain rfl := Except.ok.inj (hpaint.symm.trans hout)
    exact ⟨reread, hreread, hsame, trivial⟩
  have hexport : exportInTurn .standard onePage squareThenNote =
      .ok (FileFormat.standard.write last) := by
    rw [squareThenNote, exportInTurn_cons_of_paint hread (by decide) hpaint,
      exportInTurn_cons_of_paint hreread (by decide) hlast]
    rfl
  have hdistinct := Document.nodup_storedId?_of_isSearched hsearched hnodup
  obtain ⟨out, editions, hholds, hout, hsaves, hall⟩ :=
    exportInTurn_accumulates hread hnumbered hdistinct hback hexport
  obtain ⟨-, hkept, -, hpages⟩ := hall out (.refl hout)
  obtain ⟨id, hid⟩ := Option.isSome_iff_exists.mp hpage
  refine ⟨doc, _, out, editions, id, hread, hnumbered, hdistinct, hback, hexport, hholds, hsaves,
    hkept, hid, ?_⟩
  rw [(hpages 1 id (Or.inl hid)).1]
  decide

/-- A file that lists one page twice, so far apart that only the first time is found. -/
def repeating : Bytes :=
  ["%PDF-1.4\n1 0 obj\n<</Type/Catalog/Pages 2 0 R>>\nendobj\n",
    "2 0 obj\n<</Type/Pages/Count 2/Kids[3 0 R null null null 3 0 R]>>\nendobj\n",
    "3 0 obj\n<</Type/Page/Parent 2 0 R>>\nendobj\n",
    "xref\n0 4\n0000000000 65535 f \n0000000009 00000 n \n0000000054 00000 n \n",
    "0000000126 00000 n \n",
    "trailer\n<</Size 4/Root 1 0 R>>\nstartxref\n169\n%%EOF"].flatMap Bytes.ofText

/-- Once that page has been painted, it is found twice, and two squares are painted on it at the
next save: three pairs of streams after two saves. Of a misnumbered file, the first page is gone
after one save, and its streams with it. -/
theorem paint_repeating_misnumbered :
    ((FileFormat.standard.read? repeating).bind fun doc ↦
        (paint doc (squares [1]) .empty).toOption.bind fun out ↦
          (FileFormat.standard.read? (FileFormat.standard.write out)).bind fun reread ↦
            (paint reread (squares [1, 2]) .empty).toOption.map fun last ↦
              (doc.pages, (doc.pageContents ⟨3, 0⟩).length, (last.pageContents ⟨3, 0⟩).length)) =
      some ([⟨3, 0⟩], 0, 6) ∧
    ((FileFormat.standard.read? misnumbered).bind fun doc ↦
        (paint doc (squares [1, 2]) .empty).toOption.map fun out ↦
          (doc.pages, (doc.pageContents ⟨7, 0⟩).length, (out.pageContents ⟨7, 0⟩).length)) =
      some ([⟨7, 0⟩, ⟨4, 0⟩], 0, 0) := by
  simp only [repeating, misnumbered, List.flatMap_cons, List.flatMap_nil]
  repeat rw [Bytes.ofText_ofList]
  decide +kernel

end Marginalia.Export
