import Marginalia.Proofs.Export.Frame

/-!
# Which exports are refused

An export is refused for want of a font, then for bytes that cannot be read, and then for the first
annotated page that does not exist or is turned by an angle that is no page rotation. Nothing else
is a reason: of pages without annotations not even the rotation is looked at.

One thing can still go wrong. New objects are numbered after the highest number in the table of a
file, so a page that claims a higher number may be gone before it is painted.
-/

namespace Marginalia

/-- A page carries an annotation, be it a label without text. -/
def AnnotationSet.Carries (s : AnnotationSet) (page : Nat) : Prop :=
  (∃ l ∈ s.labels, l.page = page) ∨ ∃ p ∈ s.patches, p.page = page

namespace Pdf.Document

/-! ## Objects within the table -/

/-- A document without the objects whose numbers are above the highest in its table. -/
def listed (doc : Document) : Document :=
  { doc with objects := doc.objects.filter fun entry ↦ entry.1.number ≤ doc.maxNumber }

theorem isNumbered_listed (doc : Document) : doc.listed.IsNumbered := by
  intro entry hentry
  exact of_decide_eq_true (List.mem_filter.mp hentry).2

theorem IsNumbered.listed_eq {doc : Document} (h : doc.IsNumbered) : doc.listed = doc := by
  have hall : doc.objects.filter (fun entry ↦ entry.1.number ≤ doc.maxNumber) = doc.objects :=
    List.filter_eq_self.mpr fun entry hentry ↦ decide_eq_true (h entry hentry)
  rw [listed, hall]

theorem get?_of_get?_listed {doc : Document} {id : ObjectId} {object : Object}
    (h : doc.listed.objects.get? id = some object) : doc.objects.get? id = some object := by
  have hle : id.number ≤ doc.maxNumber := doc.isNumbered_listed.le h
  have hfilter := ObjectTable.get?_filter doc.objects (fun id ↦ id.number ≤ doc.maxNumber) id
  rw [if_pos (decide_eq_true hle)] at hfilter
  exact hfilter.symm.trans h

/-- The objects of one document stand in another, aside from contents and resources, and new ones
are numbered after them. -/
structure Retains (base doc : Document) : Prop where
  maxNumber_le : base.maxNumber ≤ doc.maxNumber
  kept : ∀ id object, base.objects.get? id = some object →
    ∃ object', doc.objects.get? id = some object' ∧ object.Resembles object'

theorem retains_listed (doc : Document) : Retains doc.listed doc where
  maxNumber_le := Nat.le_refl _
  kept := fun _ object hid ↦ ⟨object, get?_of_get?_listed hid, .refl object⟩

namespace Retains

variable {base doc : Document}

theorem add (h : Retains base doc) (hnumbered : base.IsNumbered) (object : Object) :
    Retains base (doc.add object).2 where
  maxNumber_le := Nat.le_succ_of_le h.maxNumber_le
  kept := by
    intro id old hid
    have hne : id ≠ ⟨doc.maxNumber + 1, 0⟩ := by
      rintro rfl
      exact Nat.not_succ_le_self _ (Nat.le_trans (hnumbered.le hid) h.maxNumber_le)
    obtain ⟨object', hobject', hres⟩ := h.kept id old hid
    exact ⟨object', (ObjectTable.get?_insert_of_ne hne).trans hobject', hres⟩

theorem put (h : Retains base doc) {id : ObjectId} {d d' : Dictionary}
    (hid : doc.objects.get? id = some (.dictionary d)) (hagree : d.AgreesAside d') :
    Retains base (doc.put id (.dictionary d')) where
  maxNumber_le := h.maxNumber_le
  kept := by
    intro other old hother
    obtain ⟨object', hobject', hres⟩ := h.kept other old hother
    by_cases hsame : other = id
    · subst hsame
      obtain rfl := Option.some.inj (hid.symm.trans hobject')
      exact ⟨_, ObjectTable.get?_insert_self _ _ _,
        hres.trans (Or.inr ⟨d, d', rfl, rfl, hagree⟩)⟩
    · exact ⟨object', (ObjectTable.get?_insert_of_ne hsame).trans hobject', hres⟩

/-- References that lead somewhere still lead there. -/
theorem follow?_eq_some (h : Retains base doc) {limit : Nat} {last last' : Option ObjectId}
    {object object' found : Object} (hres : object.Resembles object')
    (hfollow : base.follow? limit last object = some (last', found)) :
    ∃ found', doc.follow? limit last object' = some (last', found') ∧ found.Resembles found' := by
  induction limit generalizing last object object' with
  | zero =>
    by_cases hreference : ∃ id, object = .reference id
    · obtain ⟨id, rfl⟩ := hreference
      rw [follow?_reference_zero] at hfollow
      cases hfollow
    · have hne := not_exists.mp hreference
      rw [follow?_of_not_reference _ _ _ hne] at hfollow
      cases hfollow
      exact ⟨object', follow?_of_not_reference _ _ _ (hres.ne_reference hne), hres⟩
  | succ limit ih =>
    by_cases hreference : ∃ id, object = .reference id
    · obtain ⟨id, rfl⟩ := hreference
      obtain rfl := hres.eq_of_reference
      rw [follow?_reference] at hfollow ⊢
      obtain ⟨next, hnext, hfollow⟩ := Option.bind_eq_some_iff.mp hfollow
      obtain ⟨next', hnext', hres'⟩ := h.kept id next hnext
      rw [hnext', Option.bind_some]
      exact ih hres' hfollow
    · have hne := not_exists.mp hreference
      rw [follow?_of_not_reference _ _ _ hne] at hfollow
      cases hfollow
      exact ⟨object', follow?_of_not_reference _ _ _ (hres.ne_reference hne), hres⟩

/-- A dictionary that is reached by an id is still reached by it, and is stored where it was. -/
theorem dictionary?_eq_some (h : Retains base doc) {id : ObjectId} {d : Dictionary}
    (hd : base.dictionary? id = some d) :
    ∃ stored d', doc.storedId? id = some stored ∧ doc.dictionary? id = some d' := by
  obtain ⟨found, hfound, hentries⟩ := Option.bind_eq_some_iff.mp hd
  rw [object?_eq] at hfound
  obtain ⟨⟨last, _⟩, hfollow, rfl⟩ := Option.map_eq_some_iff.mp hfound
  obtain ⟨object, hobject, hfollow⟩ := Option.bind_eq_some_iff.mp hfollow
  obtain ⟨object', hobject', hres⟩ := h.kept id object hobject
  obtain ⟨found', hfollow', hres'⟩ := h.follow?_eq_some hres hfollow
  have hreached : ((doc.objects.get? id).bind fun object ↦
      doc.follow? referenceLimit none object) = some (last, found') := by
    rw [hobject', Option.bind_some, hfollow']
  have hstored : doc.storedId? id = some (last.getD id) := by rw [storedId?_eq, hreached]; rfl
  have hobject? : doc.object? id = some found' := by rw [object?_eq, hreached]; rfl
  obtain ⟨d', hd'⟩ : ∃ d', found'.dictionary? = some d' := by
    rcases hres' with rfl | ⟨-, d', -, rfl, -⟩
    · exact ⟨d, hentries⟩
    · exact ⟨d', rfl⟩
  exact ⟨_, d', hstored, Option.bind_eq_some_iff.mpr ⟨found', hobject?, hd'⟩⟩

end Retains

end Pdf.Document

namespace Export

open Font (Payload)
open Pdf (Document FileFormat ObjectId)
open Pdf.Document (Retains)

/-! ## Pages -/

/-- Why a page cannot be painted on: it does not exist, or is turned by an angle that is no page
rotation. -/
inductive PageFault (doc : Document) (page : Nat) : ExportError → Prop
  | outOfRange (h : ¬(1 ≤ page ∧ page ≤ doc.pages.length)) :
    PageFault doc page (.pageOutOfRange page doc.pages.length)
  | turned {id : ObjectId} (hid : doc.page? page = some id)
    (h : (doc.geometry id).rotation ∉ [0, 90, 180, 270]) :
    PageFault doc page (.invalidRotation page ⟨(doc.geometry id).rotation⟩)

theorem page?_eq_none_iff {doc : Document} {page : Nat} :
    doc.page? page = none ↔ ¬(1 ≤ page ∧ page ≤ doc.pages.length) := by
  unfold Document.page?
  split
  · next hzero => simp [hzero]
  · next hpos =>
    rw [List.getElem?_eq_none_iff]
    omega

/-- Faults depend on the number of pages and on the rotation of the page. -/
theorem PageFault.congr {doc doc' : Document} {page : Nat} {e : ExportError}
    (h : PageFault doc page e) (hlength : doc'.pages.length = doc.pages.length)
    (hrotation : ∀ id id', doc.page? page = some id → doc'.page? page = some id' →
      (doc'.geometry id').rotation = (doc.geometry id).rotation) : PageFault doc' page e := by
  cases h with
  | outOfRange h => exact hlength ▸ .outOfRange (hlength ▸ h)
  | @turned id hid h =>
    have hexists : doc'.page? page ≠ none := by
      rw [ne_eq, page?_eq_none_iff, hlength, ← page?_eq_none_iff, hid]
      simp
    obtain ⟨id', hid'⟩ := Option.ne_none_iff_exists'.mp hexists
    rw [← hrotation id id' hid hid'] at h ⊢
    exact .turned hid' h

theorem ofDegrees_eq_error_iff {n : Int} {cause : InvalidRotation} :
    Rotation.ofDegrees n = .error cause ↔ n ∉ [0, 90, 180, 270] ∧ cause = ⟨n⟩ := by
  unfold Rotation.ofDegrees
  repeat' split
  all_goals simp_all [eq_comm]

/-- A page is refused exactly for one of these faults. -/
theorem target_eq_error_iff {doc : Document} {page : Nat} {e : ExportError} :
    target doc page = .error e ↔ PageFault doc page e := by
  unfold target
  cases hid : doc.page? page with
  | none =>
    constructor
    · rintro ⟨⟩
      exact .outOfRange (page?_eq_none_iff.mp hid)
    · rintro (_ | ⟨hid', -⟩)
      · rfl
      · rw [hid] at hid'
        cases hid'
  | some id =>
    have hturn {cause : InvalidRotation} : (doc.geometry id).turn = .error cause ↔
        (doc.geometry id).rotation ∉ [0, 90, 180, 270] ∧ cause = ⟨(doc.geometry id).rotation⟩ :=
      ofDegrees_eq_error_iff
    dsimp only
    constructor
    · intro h
      split at h
      · next cause hcause =>
        cases h
        obtain ⟨hrotation, rfl⟩ := hturn.mp hcause
        exact .turned hid hrotation
      · cases h
    · rintro (hrange | ⟨hid', hrotation⟩)
      · rw [page?_eq_none_iff.mpr hrange] at hid
        cases hid
      · obtain rfl := Option.some.inj (hid.symm.trans hid')
        rw [hturn.mpr ⟨hrotation, rfl⟩]

/-- Of ascending numbers, the least one that is refused decides. -/
theorem mapM_eq_error_iff {β ε : Type} {f : Nat → Except ε β} {ns : List Nat}
    (hascending : ns.Pairwise (· < ·)) {e : ε} :
    ns.mapM f = .error e ↔
      ∃ n ∈ ns, f n = .error e ∧ ∀ m ∈ ns, m < n → ∃ b, f m = .ok b := by
  induction ns with
  | nil => simp [pure, Except.pure]
  | cons n ns ih =>
    obtain ⟨hfirst, hrest⟩ := List.pairwise_cons.mp hascending
    rw [List.mapM_cons]
    cases hn : f n with
    | error e' =>
      constructor
      · rintro ⟨⟩
        refine ⟨n, List.mem_cons_self, hn, fun m hm hlt ↦ ?_⟩
        rcases List.mem_cons.mp hm with rfl | hm
        · exact absurd hlt (Nat.lt_irrefl _)
        · exact absurd hlt (Nat.not_lt_of_lt (hfirst m hm))
      · rintro ⟨m, hm, he, hbefore⟩
        rcases List.mem_cons.mp hm with rfl | hm
        · rw [hn] at he
          cases he
          rfl
        · obtain ⟨b, hb⟩ := hbefore n List.mem_cons_self (hfirst m hm)
          rw [hn] at hb
          cases hb
    | ok b =>
      have hcons : (do let b ← Except.ok b; let bs ← ns.mapM f; pure (b :: bs)) = .error e ↔
          ns.mapM f = .error e := by
        cases ns.mapM f <;> simp [bind, Except.bind, pure, Except.pure]
      rw [hcons, ih hrest]
      constructor
      · rintro ⟨m, hm, he, hbefore⟩
        refine ⟨m, List.mem_cons_of_mem _ hm, he, fun k hk hlt ↦ ?_⟩
        rcases List.mem_cons.mp hk with rfl | hk
        · exact ⟨b, hn⟩
        · exact hbefore k hk hlt
      · rintro ⟨m, hm, he, hbefore⟩
        rcases List.mem_cons.mp hm with rfl | hm
        · rw [hn] at he
          cases he
        · exact ⟨m, hm, he, fun k hk ↦ hbefore k (List.mem_cons_of_mem _ hk)⟩

theorem targets_eq_error_iff {doc : Document} {annotations : AnnotationSet} {e : ExportError} :
    targets doc annotations = .error e ↔ ∃ page, annotations.Carries page ∧
      PageFault doc page e ∧
        ∀ other, annotations.Carries other → other < page → ∀ e', ¬PageFault doc other e' := by
  have hok (page : Nat) : (∃ t, target doc page = .ok t) ↔ ∀ e', ¬PageFault doc page e' := by
    simp only [← target_eq_error_iff]
    cases target doc page <;> simp
  rw [targets, mapM_eq_error_iff annotations.pairwise_pages]
  simp only [AnnotationSet.mem_pages, target_eq_error_iff, hok]
  rfl

/-! ## Fonts -/

/-- Every label that shows a text has a font. -/
def HasAllFonts (annotations : AnnotationSet) (fonts : FamilyTable Payload) : Prop :=
  ∀ l ∈ annotations.labels, l.text ≠ "" → (fonts.get? l.style.family).isSome

/-- The first label that shows a text and has no font decides. -/
theorem missingFamily?_eq_some_iff {annotations : AnnotationSet} {fonts : FamilyTable Payload}
    {family : FontFamily} :
    missingFamily? annotations fonts = some family ↔ ∃ before l after,
      annotations.labels = before ++ l :: after ∧ l.style.family = family ∧ l.text ≠ "" ∧
        fonts.get? family = none ∧
        ∀ other ∈ before, other.text ≠ "" → (fonts.get? other.style.family).isSome := by
  rw [missingFamily?, visibleLabels, List.find?_map, List.find?_filter, Option.map_eq_some_iff]
  constructor
  · rintro ⟨l, hl, rfl⟩
    obtain ⟨hmissing, before, after, hsplit, hbefore⟩ := List.find?_eq_some_iff_append.mp hl
    refine ⟨before, l, after, hsplit, rfl, ?_⟩
    rw [← and_assoc]
    simpa [Option.isSome_iff_ne_none, or_iff_not_imp_left] using And.intro hmissing hbefore
  · rintro ⟨before, l, after, hsplit, rfl, htext, hmissing, hbefore⟩
    refine ⟨l, List.find?_eq_some_iff_append.mpr ⟨?_, before, after, hsplit, ?_⟩, rfl⟩
    · simp [htext, hmissing]
    · simpa [Option.isSome_iff_ne_none, or_iff_not_imp_left] using hbefore

theorem missingFamily?_eq_none_iff {annotations : AnnotationSet} {fonts : FamilyTable Payload} :
    missingFamily? annotations fonts = none ↔ HasAllFonts annotations fonts := by
  simp [missingFamily?, visibleLabels, HasAllFonts, Option.isSome_iff_ne_none]

/-! ## Painting -/

section
variable {base doc : Document} {annotations : AnnotationSet} {fonts : FamilyTable Payload}
  {embedded : List (FontFamily × ObjectId)} (hnumbered : base.IsNumbered)
include hnumbered

theorem retains_embedFamilies (h : Retains base doc) (families : List FontFamily)
    (known : List (FontFamily × ObjectId)) :
    Retains base (families.foldl (embedFamily fonts) (known, doc)).2 := by
  induction families generalizing doc known with
  | nil => exact h
  | cons family families ih =>
    rw [List.foldl_cons, embedFamily]
    cases fonts.get? family with
    | none => exact ih h known
    | some p =>
      exact ih (((((h.add hnumbered _).add hnumbered _).add hnumbered _).add hnumbered _).add
        hnumbered _) _

/-- A page whose dictionary is retained can be painted. -/
theorem exists_paintPage (h : Retains base doc) {t : Target} {d : Pdf.Dictionary}
    (hd : base.dictionary? t.id = some d) :
    ∃ out, paintPage annotations fonts embedded doc t = .ok out ∧ Retains base out := by
  have hstreamed : Retains base (withStreams doc (markup annotations t.page t.frame fonts
      (namedFonts embedded doc t.id).2)) := (h.add hnumbered _).add hnumbered _
  obtain ⟨stored, page, hstored, hpage⟩ := hstreamed.dictionary?_eq_some hd
  refine ⟨_, ?_, hstreamed.put (get?_of_storedId? hstored hpage)
    (paintedDictionary_agreesAside doc t.id (namedFonts embedded doc t.id).1 page)⟩
  unfold paintPage
  dsimp only
  unfold withStreams namedFonts at hstored hpage
  rw [hstored, hpage]
  rfl

theorem exists_paintPages (h : Retains base doc) {targets : List Target}
    (hd : ∀ t ∈ targets, ∃ d, base.dictionary? t.id = some d) :
    ∃ out, targets.foldlM (paintPage annotations fonts embedded) doc = .ok out := by
  induction targets generalizing doc with
  | nil => exact ⟨doc, rfl⟩
  | cons t rest ih =>
    obtain ⟨⟨d, hfirst⟩, hrest⟩ := List.forall_mem_cons.mp hd
    obtain ⟨next, hnext, hretains⟩ := exists_paintPage hnumbered h hfirst
    obtain ⟨out, hout⟩ := ih hretains hrest
    exact ⟨out, by rw [List.foldlM_cons, hnext]; exact hout⟩

end

/-- The dictionaries of the annotated pages stand among the objects within the table. -/
def ArePagesListed (doc : Document) (annotations : AnnotationSet) : Prop :=
  ∀ page id, annotations.Carries page → doc.page? page = some id →
    ∃ d, doc.listed.dictionary? id = some d

theorem arePagesListed_of_isNumbered {doc : Document} (h : doc.IsNumbered)
    (annotations : AnnotationSet) : ArePagesListed doc annotations := by
  intro page id _ hid
  rw [h.listed_eq]
  exact (Document.hasPage_of_page? hid).exists_dictionary?.imp fun _ hd ↦ hd.1

/-- Annotations are painted wherever their pages can be painted on. -/
theorem exists_paint {doc : Document} {annotations : AnnotationSet} {fonts : FamilyTable Payload}
    (hlisted : ArePagesListed doc annotations)
    (hpages : ∀ page, annotations.Carries page → ∀ e, ¬PageFault doc page e) :
    ∃ out, paint doc annotations fonts = .ok out := by
  cases htargets : targets doc annotations with
  | error e =>
    obtain ⟨page, hpage, hfault, -⟩ := targets_eq_error_iff.mp htargets
    exact absurd hfault (hpages page hpage e)
  | ok ts =>
    have hembedded : Retains doc.listed
        ((usedFamilies annotations).foldl (embedFamily fonts) ([], doc)).2 :=
      retains_embedFamilies doc.isNumbered_listed doc.retains_listed _ _
    have hd : ∀ t ∈ ts, ∃ d, doc.listed.dictionary? t.id = some d := by
      intro t ht
      obtain ⟨page, hpage, htarget⟩ := exists_target_eq_ok (forall₂_of_mapM_eq_ok htargets) ht
      exact hlisted page t.id (AnnotationSet.mem_pages.mp hpage) (target_eq_ok htarget).2.1
    obtain ⟨out, hout⟩ := exists_paintPages doc.isNumbered_listed hembedded hd
    refine ⟨out, ?_⟩
    rw [paint, htargets]
    exact hout

theorem eq_parse_of_paintPages {annotations : AnnotationSet} {fonts : FamilyTable Payload}
    {embedded : List (FontFamily × ObjectId)} {doc : Document} {targets : List Target}
    {e : ExportError}
    (h : targets.foldlM (paintPage annotations fonts embedded) doc = .error e) :
    e = .engine .parse := by
  induction targets generalizing doc with
  | nil => cases h
  | cons t rest ih =>
    rw [List.foldlM_cons] at h
    cases hfirst : paintPage annotations fonts embedded doc t with
    | ok next =>
      rw [hfirst] at h
      exact ih h
    | error e' =>
      rw [hfirst] at h
      cases h
      unfold paintPage at hfirst
      dsimp only at hfirst
      split at hfirst <;> cases hfirst
      rfl

/-! ## Exporting -/

/-- Why an export is refused: the first label that shows a text without a font; else bytes that
cannot be read; else the first annotated page at fault. -/
inductive IsRefused (format : FileFormat) (source : Bytes) (annotations : AnnotationSet)
    (fonts : FamilyTable Payload) : ExportError → Prop
  | font {before after : List Label} {l : Label}
    (hlabels : annotations.labels = before ++ l :: after) (htext : l.text ≠ "")
    (hmissing : fonts.get? l.style.family = none)
    (hfirst : ∀ other ∈ before, other.text ≠ "" → (fonts.get? other.style.family).isSome) :
    IsRefused format source annotations fonts (.missingFont l.style.family)
  | bytes (hfonts : HasAllFonts annotations fonts) (hread : format.read? source = none) :
    IsRefused format source annotations fonts (.engine .parse)
  | page (hfonts : HasAllFonts annotations fonts) {doc : Document}
    (hread : format.read? source = some doc) {page : Nat} {e : ExportError}
    (hpage : annotations.Carries page) (hfault : PageFault doc page e)
    (hfirst : ∀ other, annotations.Carries other → other < page → ∀ e', ¬PageFault doc other e') :
    IsRefused format source annotations fonts e

theorem IsRefused.exportDocument_eq {format : FileFormat} {source : Bytes}
    {annotations : AnnotationSet} {fonts : FamilyTable Payload} {e : ExportError}
    (h : IsRefused format source annotations fonts e) :
    exportDocument format source annotations fonts = .error e := by
  cases h with
  | font hlabels htext hmissing hfirst =>
    have hfamily := missingFamily?_eq_some_iff.mpr ⟨_, _, _, hlabels, rfl, htext, hmissing, hfirst⟩
    rw [exportDocument, hfamily]
  | bytes hfonts hread =>
    rw [exportDocument, missingFamily?_eq_none_iff.mpr hfonts, hread]
  | page hfonts hread hpage hfault hfirst =>
    have htargets := targets_eq_error_iff.mpr ⟨_, hpage, hfault, hfirst⟩
    rw [exportDocument, missingFamily?_eq_none_iff.mpr hfonts, hread]
    dsimp only
    rw [paint, htargets]
    rfl

/-- Documents that agree on the number of pages and on the rotations of annotated pages refuse the
same annotations for the same reason. -/
theorem IsRefused.congr {format : FileFormat} {source other : Bytes}
    {annotations : AnnotationSet} {fonts : FamilyTable Payload} {e : ExportError}
    (h : IsRefused format source annotations fonts e)
    {doc doc' : Document} (hread : format.read? source = some doc)
    (hread' : format.read? other = some doc') (hlength : doc'.pages.length = doc.pages.length)
    (hrotation : ∀ page id id', annotations.Carries page → doc.page? page = some id →
      doc'.page? page = some id' → (doc'.geometry id').rotation = (doc.geometry id).rotation) :
    IsRefused format other annotations fonts e := by
  cases h with
  | font hlabels htext hmissing hfirst => exact .font hlabels htext hmissing hfirst
  | bytes hfonts hnone =>
    rw [hread] at hnone
    cases hnone
  | page hfonts hdoc hpage hfault hfirst =>
    obtain rfl := Option.some.inj (hread.symm.trans hdoc)
    refine .page hfonts hread' hpage (hfault.congr hlength fun id id' ↦ hrotation _ id id' hpage) ?_
    intro earlier hearlier hlt e' hfault'
    refine hfirst earlier hearlier hlt e' (hfault'.congr hlength.symm fun id' id hid' hid ↦ ?_)
    exact (hrotation earlier id id' hearlier hid hid').symm

theorem exists_first_fault {doc : Document} {annotations : AnnotationSet} {page : Nat}
    {e : ExportError} (hpage : annotations.Carries page) (hfault : PageFault doc page e) :
    ∃ first e', annotations.Carries first ∧ PageFault doc first e' ∧
      ∀ other, annotations.Carries other → other < first → ∀ e', ¬PageFault doc other e' := by
  induction page using Nat.strongRecOn generalizing e with
  | ind page ih =>
    by_cases hearlier : ∃ other < page, annotations.Carries other ∧ ∃ e', PageFault doc other e'
    · obtain ⟨other, hlt, hother, e', hfault'⟩ := hearlier
      exact ih other hlt hother hfault'
    · refine ⟨page, e, hpage, hfault, fun other hother hlt e' hfault' ↦ hearlier ?_⟩
      exact ⟨other, hlt, hother, e', hfault'⟩

/-- An export that is not refused has all fonts, a document, and pages that can be painted on. -/
theorem exists_of_not_isRefused {format : FileFormat} {source : Bytes} {annotations : AnnotationSet}
    {fonts : FamilyTable Payload} (h : ∀ e, ¬IsRefused format source annotations fonts e) :
    HasAllFonts annotations fonts ∧ ∃ doc, format.read? source = some doc ∧
      ∀ page, annotations.Carries page → ∀ e, ¬PageFault doc page e := by
  have hfonts : HasAllFonts annotations fonts := by
    refine missingFamily?_eq_none_iff.mp (Option.eq_none_iff_forall_ne_some.mpr ?_)
    intro family hmissing
    obtain ⟨_, l, _, hlabels, rfl, htext, hnone, hfirst⟩ := missingFamily?_eq_some_iff.mp hmissing
    exact h _ (.font hlabels htext hnone hfirst)
  refine ⟨hfonts, ?_⟩
  cases hread : format.read? source with
  | none => exact absurd (.bytes hfonts hread) (h _)
  | some doc =>
    refine ⟨doc, rfl, fun page hpage e hfault ↦ ?_⟩
    obtain ⟨first, e', hcarries, hfault', hfirst⟩ := exists_first_fault hpage hfault
    exact h e' (.page hfonts hread hcarries hfault' hfirst)

/-- An export fails for the first of the reasons there are. Without any it succeeds, unless a page
to paint on has a number above those in the table; then it may also fail like an unreadable file.
Of the pages without annotations nothing matters but how many there are. -/
theorem exportDocument_refusals (format : FileFormat) (source : Bytes) (annotations : AnnotationSet)
    (fonts : FamilyTable Payload) :
    (∀ e, IsRefused format source annotations fonts e →
      exportDocument format source annotations fonts = .error e) ∧
    ((∀ e, ¬IsRefused format source annotations fonts e) →
      ∃ doc, format.read? source = some doc ∧
        (ArePagesListed doc annotations →
          ∃ bytes, exportDocument format source annotations fonts = .ok bytes) ∧
        ∀ e, exportDocument format source annotations fonts = .error e → e = .engine .parse) ∧
    ∀ other doc doc', format.read? source = some doc → format.read? other = some doc' →
      doc'.pages.length = doc.pages.length →
      (∀ page id id', annotations.Carries page → doc.page? page = some id →
        doc'.page? page = some id' → (doc'.geometry id').rotation = (doc.geometry id).rotation) →
      ∀ e, IsRefused format source annotations fonts e ↔
        IsRefused format other annotations fonts e := by
  refine ⟨fun e h ↦ h.exportDocument_eq, fun h ↦ ?_, ?_⟩
  · obtain ⟨hfonts, doc, hread, hpages⟩ := exists_of_not_isRefused h
    have hexport : exportDocument format source annotations fonts =
        (paint doc annotations fonts).map format.write := by
      rw [exportDocument, missingFamily?_eq_none_iff.mpr hfonts, hread]
    refine ⟨doc, hread, fun hlisted ↦ ?_, fun e he ↦ ?_⟩
    · obtain ⟨out, hout⟩ := exists_paint hlisted hpages
      exact ⟨format.write out, by rw [hexport, hout]; rfl⟩
    · cases htargets : targets doc annotations with
      | error e' =>
        obtain ⟨page, hpage, hfault, -⟩ := targets_eq_error_iff.mp htargets
        exact absurd hfault (hpages page hpage e')
      | ok ts =>
        have hpaint : paint doc annotations fonts = .error e := by
          rw [hexport] at he
          cases hpaint : paint doc annotations fonts with
          | error e' =>
            rw [hpaint] at he
            cases he
            rfl
          | ok out =>
            rw [hpaint] at he
            cases he
        rw [paint, htargets] at hpaint
        exact eq_parse_of_paintPages hpaint
  · intro other doc doc' hread hread' hlength hrotation e
    exact ⟨fun h ↦ h.congr hread hread' hlength hrotation,
      fun h ↦ h.congr hread' hread hlength.symm fun page id' id hpage hid' hid ↦
        (hrotation page id id' hpage hid hid').symm⟩

theorem carries_squares {pages : List Nat} {page : Nat} :
    (squares pages).Carries page ↔ page ∈ pages := by
  simp [AnnotationSet.Carries, squares]

/-- A square on a second page is refused by a document of one page, one on the first is not. -/
theorem exportDocument_refusals_onePage :
    exportDocument .standard onePage (squares [1, 2]) .empty = .error (.pageOutOfRange 2 1) ∧
      ∃ bytes, exportDocument .standard onePage (squares [1]) .empty = .ok bytes := by
  have hrun : (FileFormat.standard.read? onePage).any fun doc ↦ doc.IsNumbered ∧
      doc.pages.length = 1 ∧ ∀ id ∈ doc.pages, (doc.geometry id).rotation = 0 := by
    simp only [onePage_eq, List.flatMap_cons, List.flatMap_nil]
    repeat rw [Bytes.ofText_ofList]
    decide +kernel
  obtain ⟨doc, hread, hdoc⟩ := (Option.any_eq_true _ _).mp hrun
  obtain ⟨hnumbered, hlength, hrotation⟩ := of_decide_eq_true hdoc
  have hfirst : ∀ e, ¬PageFault doc 1 e := by
    rintro e (hrange | ⟨hid, hturned⟩)
    · exact hrange ⟨Nat.le_refl 1, hlength.ge⟩
    · rw [hrotation _ (Document.mem_pages_of_page? hid)] at hturned
      exact hturned List.mem_cons_self
  have hrefused : IsRefused .standard onePage (squares [1, 2]) .empty (.pageOutOfRange 2 1) := by
    have hcarries : (squares [1, 2]).Carries 2 := carries_squares.mpr (by decide)
    refine .page (fun l hl ↦ absurd hl List.not_mem_nil) hread hcarries ?_ ?_
    · exact hlength ▸ .outOfRange (by omega)
    · intro other hother hlt
      obtain rfl : other = 1 := by simpa [carries_squares, hlt.ne] using hother
      exact hfirst
  have hallowed : ∀ e, ¬IsRefused .standard onePage (squares [1]) .empty e := by
    rintro e (⟨hlabels, -⟩ | ⟨-, hnone⟩ | ⟨-, hdoc, hpage, hfault, -⟩)
    · simp [squares] at hlabels
    · rw [hread] at hnone
      cases hnone
    · obtain rfl := Option.some.inj (hread.symm.trans hdoc)
      obtain rfl := List.mem_singleton.mp (carries_squares.mp hpage)
      exact hfirst e hfault
  obtain ⟨doc', hread', hexport, -⟩ := (exportDocument_refusals .standard onePage _ _).2.1 hallowed
  obtain rfl := Option.some.inj (hread.symm.trans hread')
  exact ⟨(exportDocument_refusals .standard onePage _ _).1 _ hrefused,
    hexport (arePagesListed_of_isNumbered hnumbered _)⟩

/-- One page that claims the number 5, where the table says 3. -/
def unlisted : Bytes :=
  ["%PDF-1.4\n1 0 obj\n<</Type/Catalog/Pages 2 0 R>>\nendobj\n",
    "2 0 obj\n<</Type/Pages/Count 1/Kids[5 0 R]>>\nendobj\n",
    "5 0 obj\n<</Type/Page/Parent 2 0 R>>\nendobj\n",
    "xref\n0 4\n0000000000 65535 f \n0000000009 00000 n \n0000000054 00000 n \n",
    "0000000105 00000 n \n",
    "trailer\n<</Size 4/Root 1 0 R>>\nstartxref\n148\n%%EOF"].flatMap Bytes.ofText

/-- The markup takes the place of the only page before that is painted. -/
theorem exportDocument_unlisted :
    (FileFormat.standard.read? unlisted).map
        (fun doc ↦ (doc.pages, (targets doc (squares [1])).isOk)) =
      some ([⟨5, 0⟩], true) ∧
    missingFamily? (squares [1]) .empty = none ∧
    (match exportDocument .standard unlisted (squares [1]) .empty with
      | .error e => some e
      | .ok _ => none) = some (.engine .parse) := by
  simp only [unlisted, List.flatMap_cons, List.flatMap_nil]
  repeat rw [Bytes.ofText_ofList]
  decide +kernel

end Export

end Marginalia
