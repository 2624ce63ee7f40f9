import Marginalia.Proofs.Export.Codes
import Marginalia.Proofs.Export.Sheets

/-!
# What an export paints

The markup of a page comes after what the page shows already: its patches and then its labels, each
kind in order. Every label is set in the embedded font of its family, under a name by which the page
knows that font. Where a page is painted again, because it is listed under several numbers, the
markup that it has stays.
-/

namespace Marginalia.Export

open Font (Payload)
open Pdf (Document FileFormat Object ObjectId)

/-- A label is set in the embedded font of its family, which the page knows by a name. The digits
of its codes are four for each character, and read back as the codes of its text. -/
structure IsSetIn (fonts : FamilyTable Payload) (embedded : List (FontFamily × ObjectId))
    (out : Document) (id : ObjectId) (l : Label) (p : Payload) (name : String) : Prop where
  payload_eq : fonts.get? l.style.family = some p
  resource : ∃ font, (l.style.family, font) ∈ embedded ∧
    (fontsOf out (out.pageResources id)).get? name = some (.reference font)
  length_eq : (Operator.codesText (p.encode l.text)).length = 4 * l.text.length
  codes_eq : Operator.codes? (Operator.codesText (p.encode l.text)).toList =
    some (p.encode l.text)

/-- The annotations of a page are painted on it: its markup is what is asked for, and stands after
its content. -/
structure Sheet.IsPainted (annotations : AnnotationSet) (fonts : FamilyTable Payload)
    (embedded : List (FontFamily × ObjectId)) (sheets : List Sheet) (doc out : Document)
    (s : Sheet) : Prop where
  page?_eq : doc.page? s.target.page = some s.target.id
  frame_eq : ∃ rotation, (doc.geometry s.target.id).turn = .ok rotation ∧ s.target.frame =
    .ofBox (doc.geometry s.target.id).origin (doc.geometry s.target.id).size rotation
  stored_eq : doc.storedId? s.target.id = some s.stored
  opening_lt : doc.maxNumber < s.opening.number
  markup_lt : doc.maxNumber < s.markup.number
  opening_eq : out.objects.get? s.opening = some (operatorStream [.save])
  markup_eq : ∃ block : Label → List Operator,
    (∀ l ∈ annotations.labelsOn s.target.page, !l.text.isEmpty → ∃ p name,
      IsSetIn fonts embedded out s.target.id l p name ∧
        block l = [.beginText, .font name l.style.fontSize, .fillColor l.style.color,
          .textMatrix s.target.frame.rotation.textAxes (s.target.frame.map ⟨l.x, l.y⟩),
          .showCodes (p.encode l.text), .endText]) ∧
    out.objects.get? s.markup = some (operatorStream ([.restore, .save] ++
      (annotations.patchesOn s.target.page).flatMap (fun p ↦ [.fillColor p.color,
        .fillBox (s.target.frame.mapBox Scalar.lesser Float32.abs p.bounds)]) ++
      ((annotations.labelsOn s.target.page).filter fun l ↦ !l.text.isEmpty).flatMap block ++
      [.restore]))
  contents_eq : out.pageContents s.target.id =
    wrapped sheets s.stored (doc.pageContents s.target.id)

/-- What was painted where: the fonts and one sheet for every page that carries annotations. -/
structure IsPainting (annotations : AnnotationSet) (fonts : FamilyTable Payload)
    (embedded : List (FontFamily × ObjectId)) (sheets : List Sheet) (doc out : Document) :
    Prop where
  families_eq : embedded.map Prod.fst = usedFamilies annotations
  isFontOf : ∀ entry ∈ embedded, IsFontOf fonts doc.maxNumber out entry
  pages_eq : ∀ page, page ∈ sheets.map (fun s ↦ s.target.page) ↔
    (∃ l ∈ annotations.labels, l.page = page) ∨ ∃ p ∈ annotations.patches, p.page = page
  pairwise_pages : (sheets.map fun s ↦ s.target.page).Pairwise (· < ·)
  nodup_markups : (sheets.map Sheet.markup).Nodup
  isPainted : ∀ s ∈ sheets, s.IsPainted annotations fonts embedded sheets doc out
  others_eq : ∀ id stored, doc.storedId? id = some stored → (∀ s ∈ sheets, s.stored ≠ stored) →
    out.pageContents id = doc.pageContents id

section
variable {annotations : AnnotationSet} {fonts : FamilyTable Payload}
  {embedded : List (FontFamily × ObjectId)} {doc out : Document} {s : Sheet}
  (h : s.IsFound annotations fonts embedded doc out)
  (hfamilies : embedded.map Prod.fst = usedFamilies annotations)
  (hmissing : missingFamily? annotations fonts = none)
  (hcodes : ∀ family p, fonts.get? family = some p → ∀ entry ∈ p.codes, entry.2 < 0x10000)
include h hfamilies hmissing hcodes

/-- Every label that is seen is set in the font of its family. -/
theorem Sheet.IsFound.isSetIn {l : Label} (hl : l ∈ visibleLabels annotations) :
    ∃ p name, IsSetIn fonts embedded out s.target.id l p name ∧
      s.names.get? l.style.family = some name := by
  have hused : l.style.family ∈ usedFamilies annotations := mem_usedFamilies hl
  obtain ⟨p, hp⟩ := Option.isSome_iff_exists.mp (isSome_of_mem_usedFamilies hmissing _ hused)
  obtain ⟨⟨family, font⟩, hentry, hfamily⟩ := List.mem_map.mp (hfamilies ▸ hused)
  obtain ⟨name, hname, hfont⟩ := h.named _ hentry
  dsimp only at hfamily hname hfont
  subst hfamily
  exact ⟨p, name, {
    payload_eq := hp
    resource := ⟨font, hentry, hfont.get?_eq⟩
    length_eq := by rw [length_codesText, length_encode]
    codes_eq := codes?_codesText (lt_of_mem_encode (hcodes _ p hp)) }, hname⟩

/-- No label that is seen is left out for want of a font or of a name. -/
theorem Sheet.IsFound.exists_blocks :
    ∃ block : Label → List Operator,
      (∀ l ∈ annotations.labelsOn s.target.page, !l.text.isEmpty → ∃ p name,
        IsSetIn fonts embedded out s.target.id l p name ∧
          block l = labelOperators s.target.frame p name l) ∧
      out.objects.get? s.markup = some (operatorStream ([.restore, .save] ++
        (annotations.patchesOn s.target.page).flatMap (patchOperators s.target.frame) ++
        ((annotations.labelsOn s.target.page).filter fun l ↦ !l.text.isEmpty).flatMap block ++
        [.restore])) := by
  refine ⟨_, ?_, h.markup_eq⟩
  intro l hl htext
  have hvisible : l ∈ visibleLabels annotations :=
    List.mem_filter.mpr ⟨(List.mem_filter.mp hl).1, htext⟩
  obtain ⟨p, name, hset, hname⟩ := h.isSetIn hfamilies hmissing hcodes hvisible
  exact ⟨p, name, hset, by rw [hset.payload_eq, hname]⟩

end

/-- Every annotation is painted once, on its page, after what the page shows already. The contents
of pages without annotations stay. -/
theorem exportDocument_paints {format : FileFormat} {source bytes : Bytes}
    {annotations : AnnotationSet} {fonts : FamilyTable Payload} {doc : Document}
    (hread : format.read? source = some doc) (hnumbered : doc.IsNumbered)
    (hcodes : ∀ family p, fonts.get? family = some p → ∀ entry ∈ p.codes, entry.2 < 0x10000)
    (hexport : exportDocument format source annotations fonts = .ok bytes) :
    ∃ out embedded sheets, paint doc annotations fonts = .ok out ∧ bytes = format.write out ∧
      IsPainting annotations fonts embedded sheets doc out := by
  obtain ⟨hmissing, out, hpaint, hbytes⟩ := exportDocument_eq_ok hread hexport
  obtain ⟨embedded, sheets, hsheeted, htargets⟩ := exists_sheeted hnumbered hmissing hpaint
  have hfamilies := hsheeted.families_eq
  refine ⟨out, embedded, sheets, hpaint, hbytes, hfamilies, hsheeted.isFontOf, ?_, ?_,
    hsheeted.nodup_markups, ?_, ?_⟩
  · intro page
    rw [hsheeted.pages_eq, AnnotationSet.mem_pages]
  · exact hsheeted.pages_eq ▸ annotations.pairwise_pages
  · intro s hs
    have hfound := hsheeted.isFound s hs
    obtain ⟨-, -, hframe⟩ := target_eq_ok (htargets s hs)
    exact {
      page?_eq := hsheeted.page?_eq s hs
      frame_eq := hframe
      stored_eq := hfound.stored_eq
      opening_lt := hfound.opening_lt
      markup_lt := hfound.markup_lt
      opening_eq := hfound.opening_eq
      markup_eq := hfound.exists_blocks hfamilies hmissing hcodes
      contents_eq := hsheeted.contents_eq _ _ hfound.stored_eq }
  · intro id stored hstored hnone
    rw [hsheeted.contents_eq id stored hstored, wrapped_of_forall_ne hnone]

/-- A label and a black square on one page. -/
def note : AnnotationSet :=
  ⟨[⟨2, 1, 50, 50, "A", .standard, 12, 16⟩], (squares [1]).patches⟩

/-- A font for one character, without a file. -/
def plainFont : Payload :=
  ⟨.sans, "MarkupSans", [], .full, [('A', 36)], [(0, 500), (36, 722)],
    ⟨1000, ⟨750, -250⟩, 700, ⟨0, -250, 1000, 750⟩⟩⟩

theorem exportDocument_paints_note :
    ∃ doc bytes out embedded sheets, FileFormat.standard.read? onePage = some doc ∧
      doc.IsNumbered ∧ exportDocument .standard onePage note ⟨none, some plainFont⟩ = .ok bytes ∧
      bytes = FileFormat.standard.write out ∧
      IsPainting note ⟨none, some plainFont⟩ embedded sheets doc out := by
  have hcodes : ∀ family p, (⟨none, some plainFont⟩ : FamilyTable Payload).get? family = some p →
      ∀ entry ∈ p.codes, entry.2 < 0x10000 := by
    rintro (_ | _) p hp
    · cases hp
    · cases hp
      decide
  obtain ⟨doc, hread, hnumbered, -⟩ := read_onePage
  have hok : (exportDocument .standard onePage note ⟨none, some plainFont⟩).isOk := by
    simp only [onePage_eq, List.flatMap_cons, List.flatMap_nil]
    repeat rw [Bytes.ofText_ofList]
    decide +kernel
  obtain ⟨bytes, hexport⟩ := exists_of_isOk hok
  obtain ⟨out, embedded, sheets, -, hbytes, hpainting⟩ :=
    exportDocument_paints hread hnumbered hcodes hexport
  exact ⟨doc, bytes, out, embedded, sheets, hread, hnumbered, hexport, hbytes, hpainting⟩

/-- A page whose content is an object that the file does not have. -/
def dangling : Bytes :=
  ["%PDF-1.4\n1 0 obj\n<</Type/Catalog/Pages 2 0 R>>\nendobj\n",
    "2 0 obj\n<</Type/Pages/Count 1/Kids[3 0 R]>>\nendobj\n",
    "3 0 obj\n<</Type/Page/Parent 2 0 R/Contents 5 0 R>>\nendobj\n",
    "xref\n0 4\n0000000000 65535 f \n0000000009 00000 n \n0000000054 00000 n \n",
    "0000000105 00000 n \n",
    "trailer\n<</Size 4/Root 1 0 R>>\nstartxref\n163\n%%EOF"].flatMap Bytes.ofText

/-- The first page of a misnumbered file is gone once the second is painted. The content of a page
that refers to an absent object may come to be the markup, which is then painted twice. -/
theorem paint_misnumbered_dangling :
    ((Pdf.File.read? misnumbered).map fun doc ↦ (doc.page? 1,
        (paint doc (squares [1, 2]) .empty).toOption.map fun out ↦
          ((out.dictionary? ⟨7, 0⟩).isSome, (out.pageContents ⟨7, 0⟩).length))) =
      some (some ⟨7, 0⟩, some (false, 0)) ∧
    ((Pdf.File.read? dangling).map fun doc ↦ (doc.page? 1,
        (paint doc (squares [1]) .empty).toOption.map fun out ↦
          (out.pageContents ⟨3, 0⟩).map Object.reference?)) =
      some (some ⟨3, 0⟩, some [some ⟨4, 0⟩, some ⟨5, 0⟩, some ⟨5, 0⟩]) := by
  simp only [misnumbered, dangling, List.flatMap_cons, List.flatMap_nil]
  repeat rw [Bytes.ofText_ofList]
  decide +kernel

end Marginalia.Export
