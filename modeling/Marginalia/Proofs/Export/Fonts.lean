import Mathlib.Data.List.Nodup
import Mathlib.Data.List.Perm.Subperm
import Marginalia.Proofs.Export.Frame

/-!
# Fonts of exported documents

Every family that a label needs is embedded once. A page gets all embedded fonts, each under a name
that none of its fonts has, so that its own fonts keep their names.
-/

namespace Marginalia.Export

open Font (Payload)
open Pdf (Dictionary Document Object ObjectId)
open Pdf.Document (Grows)

/-! ## Unused names -/

theorem nodup_candidateNames (base : String) (count : Nat) :
    (candidateNames base count).Nodup := by
  refine List.nodup_cons.mpr ⟨?_, ?_⟩
  · intro hbase
    obtain ⟨n, -, hn⟩ := List.mem_map.mp hbase
    have hempty : Decimal.text n = "" := String.append_eq_left_iff.mp hn
    exact Decimal.digits_ne_nil n (by simpa [Decimal.text] using hempty)
  · refine List.Nodup.map ?_ List.nodup_range'
    intro m n h
    exact Decimal.eq_of_text_eq ((String.append_right_inj base).mp h)

/-- There are more candidates than fonts, so one of them is the name of none. -/
theorem get?_unusedName (base : String) (fonts : Dictionary) :
    fonts.get? (unusedName base fonts) = none := by
  have hfound : ∃ name ∈ candidateNames base fonts.length, !fonts.has name := by
    by_contra hnone
    have hsubset : candidateNames base fonts.length ⊆ fonts.map Prod.fst := by
      intro name hname
      by_contra hunused
      have habsent : fonts.get? name = none := Dictionary.get?_eq_none_iff.mpr hunused
      exact hnone ⟨name, hname, by simp [Dictionary.has, habsent]⟩
    have hlength := (List.subperm_of_subset (nodup_candidateNames _ _) hsubset).length_le
    simp only [candidateNames, List.length_cons, List.length_map, List.length_range'] at hlength
    exact Nat.not_succ_le_self _ hlength
  obtain ⟨name, hname⟩ := Option.isSome_iff_exists.mp (List.find?_isSome.mpr hfound)
  have hunused := List.find?_some hname
  rw [unusedName, hname, Option.getD_some]
  simpa [Dictionary.has] using hunused

/-! ## Naming -/

/-- The fonts of a page keep their names. -/
theorem get?_foldl_nameFont (embedded : List (FontFamily × ObjectId))
    {state : Dictionary × FamilyTable String} {key : String} {value : Object}
    (h : state.1.get? key = some value) :
    (embedded.foldl nameFont state).1.get? key = some value := by
  induction embedded generalizing state with
  | nil => exact h
  | cons font rest ih =>
    refine ih ?_
    have hne : key ≠ unusedName (resourceBase font.1) state.1 := by
      rintro rfl
      rw [get?_unusedName] at h
      cases h
    exact (Dictionary.get?_set_of_ne hne).trans h

theorem names_foldl_nameFont {embedded : List (FontFamily × ObjectId)}
    {state : Dictionary × FamilyTable String} {family : FontFamily} {name : String}
    (h : state.2.get? family = some name) (hfamily : family ∉ embedded.map Prod.fst) :
    (embedded.foldl nameFont state).2.get? family = some name := by
  induction embedded generalizing state with
  | nil => exact h
  | cons font rest ih =>
    obtain ⟨hfirst, hrest⟩ := List.ne_and_not_mem_of_not_mem_cons hfamily
    exact ih ((FamilyTable.get?_set_of_ne hfirst).trans h) hrest

theorem exists_name_foldl_nameFont {embedded : List (FontFamily × ObjectId)}
    (state : Dictionary × FamilyTable String) (hnodup : (embedded.map Prod.fst).Nodup)
    {family : FontFamily} {font : ObjectId} (hfont : (family, font) ∈ embedded) :
    ∃ name, (embedded.foldl nameFont state).2.get? family = some name ∧
      (embedded.foldl nameFont state).1.get? name = some (.reference font) := by
  induction embedded generalizing state with
  | nil => cases hfont
  | cons first rest ih =>
    obtain ⟨hnotin, hrest⟩ := List.nodup_cons.mp hnodup
    rw [List.foldl_cons]
    rcases List.mem_cons.mp hfont with rfl | hlater
    · let name := unusedName (resourceBase family) state.1
      have hname : (nameFont state (family, font)).2.get? family = some name :=
        FamilyTable.get?_set_self _ _ _
      have hvalue : (nameFont state (family, font)).1.get? name = some (.reference font) :=
        Dictionary.get?_set_self _ _ _
      exact ⟨name, names_foldl_nameFont hname hnotin, get?_foldl_nameFont rest hvalue⟩
    · exact ih (nameFont state first) hrest hlater

theorem get?_nameFonts {fonts : Dictionary} (embedded : List (FontFamily × ObjectId))
    {key : String} {value : Object} (h : fonts.get? key = some value) :
    (nameFonts fonts embedded).1.get? key = some value :=
  get?_foldl_nameFont embedded h

/-- Every embedded font has a name among the fonts of a page. -/
theorem exists_name (fonts : Dictionary) {embedded : List (FontFamily × ObjectId)}
    (hnodup : (embedded.map Prod.fst).Nodup) {family : FontFamily} {font : ObjectId}
    (hfont : (family, font) ∈ embedded) :
    ∃ name, (nameFonts fonts embedded).2.get? family = some name ∧
      (nameFonts fonts embedded).1.get? name = some (.reference font) :=
  exists_name_foldl_nameFont (fonts, .empty) hnodup hfont

/-! ## Embedding -/

/-- The objects of a font stand in a document, under numbers that follow one another. -/
structure HoldsFont (doc : Document) (p : Payload) (n : Nat) : Prop where
  file : doc.objects.get? ⟨n + 1, 0⟩ = some (fontFile p)
  descriptor : doc.objects.get? ⟨n + 2, 0⟩ = some (fontDescriptor p ⟨n + 1, 0⟩)
  coded : doc.objects.get? ⟨n + 3, 0⟩ = some (codedFont p ⟨n + 2, 0⟩)
  toUnicode : doc.objects.get? ⟨n + 4, 0⟩ =
    some (.contentStream (Bytes.ofText (UnicodeMap.text p.codes)))
  composite : doc.objects.get? ⟨n + 5, 0⟩ = some (compositeFont p ⟨n + 3, 0⟩ ⟨n + 4, 0⟩)

theorem holdsFont_embed (doc : Document) (p : Payload) :
    HoldsFont (embed doc p).2 p doc.maxNumber := by
  constructor <;> simp [embed, Document.add, Pdf.ObjectTable.get?_insert_of_ne]

/-- A font stays when none but dictionaries of pages are touched. -/
theorem HoldsFont.of_grows {touched : ObjectId → Prop} {doc doc' : Document} {p : Payload} {n : Nat}
    (h : HoldsFont doc p n) (hgrows : Grows touched doc doc')
    (htouched : ∀ id, touched id → IsPageObject doc id) : HoldsFont doc' p n := by
  have hkept {id : ObjectId} {d : Dictionary} {name : String}
      (hid : doc.objects.get? id = some (.dictionary d))
      (htype : Document.typeName? d = some name) (hname : name ≠ "Page") :
      doc'.objects.get? id = some (.dictionary d) := by
    refine hgrows.get?_of_not_touched hid fun htouch ↦ ?_
    obtain ⟨page, hpage, hother⟩ := htouched id htouch
    cases hid.symm.trans hpage
    exact hname (Option.some.inj (htype.symm.trans hother))
  exact {
    file := hgrows.get?_stream h.file
    descriptor := hkept h.descriptor rfl (by decide)
    coded := hkept h.coded rfl (by decide)
    toUnicode := hgrows.get?_stream h.toUnicode
    composite := hkept h.composite rfl (by decide) }

/-- A family has a font, whose objects stand in a document under numbers above the given one. -/
def IsFontOf (fonts : FamilyTable Payload) (base : Nat) (doc : Document)
    (entry : FontFamily × ObjectId) : Prop :=
  ∃ p n, fonts.get? entry.1 = some p ∧ base ≤ n ∧ entry.2 = ⟨n + 5, 0⟩ ∧ HoldsFont doc p n

theorem IsFontOf.of_grows {fonts : FamilyTable Payload} {base : Nat} {touched : ObjectId → Prop}
    {doc doc' : Document} {entry : FontFamily × ObjectId} (h : IsFontOf fonts base doc entry)
    (hgrows : Grows touched doc doc') (htouched : ∀ id, touched id → IsPageObject doc id) :
    IsFontOf fonts base doc' entry := by
  obtain ⟨p, n, hp, hbase, hid, hholds⟩ := h
  exact ⟨p, n, hp, hbase, hid, hholds.of_grows hgrows htouched⟩

/-- Families that all have fonts are embedded in order. -/
theorem embedFamilies_spec {fonts : FamilyTable Payload} {families : List FontFamily}
    (hfonts : ∀ family ∈ families, (fonts.get? family).isSome) {base : Nat} {doc : Document}
    (hnumbered : doc.IsNumbered) (hbase : base ≤ doc.maxNumber)
    {known : List (FontFamily × ObjectId)}
    (hknown : ∀ entry ∈ known, IsFontOf fonts base doc entry) :
    let embedding := families.foldl (embedFamily fonts) (known, doc)
    embedding.1.map Prod.fst = known.map Prod.fst ++ families ∧
      ∀ entry ∈ embedding.1, IsFontOf fonts base embedding.2 entry := by
  induction families generalizing known doc with
  | nil => exact ⟨by simp, hknown⟩
  | cons family families ih =>
    obtain ⟨hfirst, hrest⟩ := List.forall_mem_cons.mp hfonts
    obtain ⟨p, hp⟩ := Option.isSome_iff_exists.mp hfirst
    have hgrows : Grows (fun _ ↦ False) doc (embed doc p).2 := grows_embed hnumbered p
    have hstep : embedFamily fonts (known, doc) family =
        (known ++ [(family, (embed doc p).1)], (embed doc p).2) := by
      simp [embedFamily, hp]
    have hknown' : ∀ entry ∈ known ++ [(family, (embed doc p).1)],
        IsFontOf fonts base (embed doc p).2 entry := by
      intro entry hentry
      rcases List.mem_append.mp hentry with hold | hnew
      · exact (hknown entry hold).of_grows hgrows fun _ hfalse ↦ hfalse.elim
      · obtain rfl := List.mem_singleton.mp hnew
        exact ⟨p, doc.maxNumber, hp, hbase, rfl, holdsFont_embed doc p⟩
    have hall := ih hrest hgrows.isNumbered (Nat.le_trans hbase hgrows.maxNumber_le) hknown'
    rw [List.foldl_cons, hstep]
    refine ⟨?_, hall.2⟩
    rw [hall.1]
    simp

/-- Where no font is missing, every family that a label needs is embedded. -/
theorem isSome_of_mem_usedFamilies {annotations : AnnotationSet} {fonts : FamilyTable Payload}
    (hmissing : missingFamily? annotations fonts = none) :
    ∀ family ∈ usedFamilies annotations, (fonts.get? family).isSome := by
  intro family hfamily
  obtain ⟨l, hl, hsame⟩ := List.any_eq_true.mp (List.mem_filter.mp hfamily).2
  have hfound := List.find?_eq_none.mp hmissing family
    (List.mem_map.mpr ⟨l, hl, beq_iff_eq.mp hsame⟩)
  simpa [Option.isSome_iff_ne_none] using hfound

theorem mem_usedFamilies {annotations : AnnotationSet} {l : Label}
    (hl : l ∈ visibleLabels annotations) : l.style.family ∈ usedFamilies annotations := by
  refine List.mem_filter.mpr ⟨?_, List.any_eq_true.mpr ⟨l, hl, by simp⟩⟩
  cases l.style.family <;> decide

theorem nodup_usedFamilies (annotations : AnnotationSet) : (usedFamilies annotations).Nodup :=
  (by decide : FontFamily.all.Nodup).filter _

end Marginalia.Export
