import Marginalia.Proofs.Export.Markup

/-!
# Resources of exported pages

A page that is painted gets resources of its own: those that were in effect on it, with the embedded
fonts among its fonts under names that none of them had. Its other entries and its own fonts stay as
they are. The dictionary of a page painted before may stand on the way to these resources, and then
they come with the fonts of that page; or it may itself be used for resources, and then its contents
are others than before.
-/

namespace Marginalia

namespace Pdf.Document

/-! ## Attributes of ancestors -/

/-- An attribute of a node stands, with a value, at the last of its ancestors that are listed, or at
the node if none are. All nodes before have no such attribute. -/
inductive Finds (doc : Document) (key : String) : ObjectId → List ObjectId → Object → Prop
  | here {id : ObjectId} {d : Dictionary} {value : Object} (hd : doc.dictionary? id = some d)
    (hvalue : d.get? key = some value) : Finds doc key id [] value
  | above {id parent : ObjectId} {d : Dictionary} {ancestors : List ObjectId} {value : Object}
    (hd : doc.dictionary? id = some d) (hnone : d.get? key = none)
    (hparent : d.get? "Parent" = some (.reference parent))
    (hrest : Finds doc key parent ancestors value) : Finds doc key id (parent :: ancestors) value

variable {doc : Document} {key : String}

theorem attributeFrom?_above {d : Dictionary} {parent : ObjectId} (hnone : d.get? key = none)
    (hparent : d.get? "Parent" = some (.reference parent)) (limit : Nat) :
    doc.attributeFrom? key (limit + 1) d =
      (doc.dictionary? parent).bind (doc.attributeFrom? key limit) := by
  rw [attributeFrom?, hnone, hparent]
  rfl

theorem exists_finds_of_attributeFrom? {limit : Nat} {id : ObjectId} {d : Dictionary}
    {value : Object} (hd : doc.dictionary? id = some d)
    (h : doc.attributeFrom? key limit d = some value) :
    ∃ ancestors, doc.Finds key id ancestors value ∧ ancestors.length < limit := by
  induction limit generalizing id d with
  | zero => cases h
  | succ limit ih =>
    cases hown : d.get? key with
    | some own =>
      rw [attributeFrom?, hown] at h
      obtain rfl := Option.some.inj h
      exact ⟨[], .here hd hown, Nat.succ_pos limit⟩
    | none =>
      rw [attributeFrom?, hown] at h
      obtain ⟨object, hobject, hparent⟩ := Option.bind_eq_some_iff.mp h
      obtain ⟨parent, hreference, hnode⟩ := Option.bind_eq_some_iff.mp hparent
      obtain ⟨next, hnext, hvalue⟩ := Option.bind_eq_some_iff.mp hnode
      obtain ⟨ancestors, hfinds, hlimit⟩ := ih hnext hvalue
      clear h hparent
      cases object <;> cases hreference
      exact ⟨parent :: ancestors, .above hd hown hobject hfinds, Nat.succ_lt_succ hlimit⟩

theorem Finds.bind_attributeFrom? {id : ObjectId} {ancestors : List ObjectId} {value : Object}
    (h : doc.Finds key id ancestors value) {limit : Nat} (hlimit : ancestors.length < limit) :
    (doc.dictionary? id).bind (doc.attributeFrom? key limit) = some value := by
  induction h generalizing limit with
  | here hd hvalue =>
    obtain ⟨limit, rfl⟩ := Nat.exists_eq_succ_of_ne_zero (Nat.ne_of_gt hlimit)
    rw [hd, Option.bind_some, attributeFrom?, hvalue]
  | above hd hnone hparent _ ih =>
    obtain ⟨limit, rfl⟩ := Nat.exists_eq_succ_of_ne_zero (Nat.ne_zero_of_lt hlimit)
    rw [hd, Option.bind_some, attributeFrom?_above hnone hparent]
    exact ih (Nat.lt_of_succ_lt_succ hlimit)

/-- The value that is inherited is the one at the first node that has the key, wherever the way up
leads after the last node that is searched. -/
theorem inherited?_eq_some_iff {page : ObjectId} {object : Object} :
    doc.inherited? page key = some object ↔ ∃ ancestors value,
      doc.Finds key page ancestors value ∧ ancestors.length < ancestorLimit ∧
        object = doc.resolve value := by
  rw [inherited?_eq, attribute?, Option.map_eq_some_iff]
  constructor
  · rintro ⟨value, hvalue, rfl⟩
    obtain ⟨d, hd, hvalue⟩ := Option.bind_eq_some_iff.mp hvalue
    obtain ⟨ancestors, hfinds, hlimit⟩ := exists_finds_of_attributeFrom? hd hvalue
    exact ⟨ancestors, value, hfinds, hlimit, rfl⟩
  · rintro ⟨ancestors, value, hfinds, hlimit, rfl⟩
    exact ⟨value, hfinds.bind_attributeFrom? hlimit, rfl⟩

end Pdf.Document

namespace Export

open Font (Payload)
open Pdf (Dictionary Document FileFormat Object ObjectId)
open Pdf.Document (Finds Grows ancestorLimit)

/-! ## Unused names -/

/-- A name, and after it the same name with numbers from two on. -/
def candidate (base : String) : Nat → String
  | 0 => base
  | k + 1 => base ++ Decimal.text (k + 2)

theorem candidateNames_eq (base : String) (count : Nat) :
    candidateNames base count = (List.range (count + 1)).map (candidate base) := by
  rw [candidateNames, List.range_succ_eq_map, List.map_cons, List.map_map,
    List.range'_eq_map_range, List.map_map]
  refine congrArg (base :: ·) (List.map_congr_left fun k _ ↦ ?_)
  simp [candidate, Nat.add_comm]

/-- The name that is chosen is the first candidate that is no name of a font. It comes after no more
candidates than there are fonts. -/
theorem exists_unusedName_eq (base : String) (fonts : Dictionary) :
    ∃ k ≤ fonts.length, unusedName base fonts = candidate base k ∧
      fonts.get? (candidate base k) = none ∧
      ∀ j < k, (fonts.get? (candidate base j)).isSome := by
  have hunused := get?_unusedName base fonts
  rw [unusedName, candidateNames_eq, List.find?_map] at hunused ⊢
  cases hfound : (List.range (fonts.length + 1)).find?
      ((fun name ↦ !fonts.has name) ∘ candidate base) with
  | some k =>
    obtain ⟨hk, hmem, hbefore⟩ := List.find?_range_eq_some.mp hfound
    refine ⟨k, Nat.le_of_lt_succ (List.mem_range.mp hmem), rfl, ?_, fun j hj ↦ ?_⟩
    · simpa [Dictionary.has] using hk
    · simpa [Dictionary.has] using hbefore j hj
  | none =>
    -- one of the candidates is found, or else the first of them would be unused
    rw [hfound] at hunused
    have hbase : fonts.get? base = none := hunused
    have hfirst := List.find?_eq_none.mp hfound 0 (List.mem_range.mpr (Nat.succ_pos _))
    simp [Dictionary.has, candidate, hbase] at hfirst

/-! ## Names of embedded fonts -/

/-- Fonts with some of the embedded ones among them: the names of these are new, and no two have the
same. -/
structure AreNamed (fonts : Dictionary) (state : Dictionary × FamilyTable String) : Prop where
  kept : ∀ name value, fonts.get? name = some value → state.1.get? name = some value
  held : ∀ family name, state.2.get? family = some name → (state.1.get? name).isSome
  absent : ∀ family name, state.2.get? family = some name → fonts.get? name = none
  injective : ∀ family other name, state.2.get? family = some name →
    state.2.get? other = some name → family = other
  only : ∀ name value, state.1.get? name = some value →
    fonts.get? name = some value ∨ ∃ family, state.2.get? family = some name

theorem areNamed_empty (fonts : Dictionary) : AreNamed fonts (fonts, .empty) where
  kept := fun _ _ h ↦ h
  held := fun family name h ↦ by cases family <;> cases h
  absent := fun family name h ↦ by cases family <;> cases h
  injective := fun family other name h ↦ by cases family <;> cases h
  only := fun _ _ h ↦ .inl h

theorem AreNamed.nameFont {fonts : Dictionary} {state : Dictionary × FamilyTable String}
    (h : AreNamed fonts state) (font : FontFamily × ObjectId) (hnew : state.2.get? font.1 = none) :
    AreNamed fonts (nameFont state font) := by
  obtain ⟨family, id⟩ := font
  dsimp only at hnew
  generalize hunused : unusedName (resourceBase family) state.1 = unused
  have hfree : state.1.get? unused = none := hunused ▸ get?_unusedName _ _
  have hstep : Export.nameFont state (family, id) =
      (state.1.set unused (.reference id), state.2.set family unused) := by
    rw [Export.nameFont, hunused]
  have hnames : ∀ other name, (state.2.set family unused).get? other = some name →
      other = family ∧ name = unused ∨ other ≠ family ∧ state.2.get? other = some name := by
    intro other name hname
    by_cases hsame : other = family
    · subst hsame
      rw [FamilyTable.get?_set_self] at hname
      exact .inl ⟨rfl, (Option.some.inj hname).symm⟩
    · rw [FamilyTable.get?_set_of_ne hsame] at hname
      exact .inr ⟨hsame, hname⟩
  have hother : ∀ other name, state.2.get? other = some name → name ≠ unused := by
    rintro other name hname rfl
    have hheld := h.held other name hname
    rw [hfree] at hheld
    cases hheld
  rw [hstep]
  refine ⟨fun name value hname ↦ ?_, fun other name hname ↦ ?_, fun other name hname ↦ ?_,
    fun one other name hone htwo ↦ ?_, fun name value hvalue ↦ ?_⟩
  · have hold := h.kept name value hname
    rw [Dictionary.get?_set_of_ne (by rintro rfl; rw [hfree] at hold; cases hold), hold]
  · rcases hnames other name hname with ⟨-, rfl⟩ | ⟨-, hname⟩
    · rw [Dictionary.get?_set_self]
      rfl
    · rw [Dictionary.get?_set_of_ne (hother other name hname)]
      exact h.held other name hname
  · rcases hnames other name hname with ⟨-, rfl⟩ | ⟨-, hname⟩
    · cases hold : fonts.get? name with
      | none => rfl
      | some value =>
        rw [h.kept name value hold] at hfree
        cases hfree
    · exact h.absent other name hname
  · rcases hnames one name hone with ⟨rfl, hname⟩ | ⟨-, hold⟩ <;>
      rcases hnames other name htwo with ⟨rfl, hname'⟩ | ⟨-, hold'⟩
    · rfl
    · exact absurd hname (hother other name hold')
    · exact absurd hname' (hother one name hold)
    · exact h.injective one other name hold hold'
  · by_cases hsame : name = unused
    · exact .inr ⟨family, by rw [hsame, FamilyTable.get?_set_self]⟩
    · rw [Dictionary.get?_set_of_ne hsame] at hvalue
      refine (h.only name value hvalue).imp_right fun ⟨other, hname⟩ ↦ ⟨other, ?_⟩
      rw [FamilyTable.get?_set_of_ne (by rintro rfl; rw [hnew] at hname; cases hname), hname]

theorem AreNamed.foldl {fonts : Dictionary} {state : Dictionary × FamilyTable String}
    (h : AreNamed fonts state) {embedded : List (FontFamily × ObjectId)}
    (hnodup : (embedded.map Prod.fst).Nodup)
    (hnew : ∀ family ∈ embedded.map Prod.fst, state.2.get? family = none) :
    AreNamed fonts (embedded.foldl Export.nameFont state) := by
  induction embedded generalizing state with
  | nil => exact h
  | cons font rest ih =>
    obtain ⟨hnotin, hrest⟩ := List.nodup_cons.mp hnodup
    obtain ⟨hfirst, hothers⟩ := List.forall_mem_cons.mp hnew
    refine ih (h.nameFont font hfirst) hrest fun family hfamily ↦ ?_
    have hne : family ≠ font.1 := fun heq ↦ hnotin (heq ▸ hfamily)
    exact (FamilyTable.get?_set_of_ne hne).trans (hothers family hfamily)

theorem areNamed_nameFonts (fonts : Dictionary) {embedded : List (FontFamily × ObjectId)}
    (hnodup : (embedded.map Prod.fst).Nodup) : AreNamed fonts (nameFonts fonts embedded) :=
  (areNamed_empty fonts).foldl hnodup fun family _ ↦ by cases family <;> rfl

/-- Only families that are embedded get a name. -/
theorem mem_of_names_foldl {embedded : List (FontFamily × ObjectId)}
    {state : Dictionary × FamilyTable String} {family : FontFamily} {name : String}
    (h : (embedded.foldl nameFont state).2.get? family = some name)
    (hnone : state.2.get? family = none) : family ∈ embedded.map Prod.fst := by
  by_contra hnotin
  induction embedded generalizing state with
  | nil =>
    rw [List.foldl_nil, hnone] at h
    cases h
  | cons font rest ih =>
    obtain ⟨hfirst, hrest⟩ := List.ne_and_not_mem_of_not_mem_cons hnotin
    exact ih h ((FamilyTable.get?_set_of_ne hfirst).trans hnone) hrest

/-! ## Resources of a page -/

/-- The resources that an object stands for. -/
def resourcesOf (doc : Document) (value : Object) : Dictionary :=
  (doc.resolve value).dictionary?.getD []

theorem pageResources_of_finds {doc : Document} {page : ObjectId} {ancestors : List ObjectId}
    {value : Object} (h : doc.Finds "Resources" page ancestors value)
    (hlimit : ancestors.length < ancestorLimit) :
    doc.pageResources page = resourcesOf doc value := by
  have hinherited : doc.inherited? page "Resources" = some (doc.resolve value) :=
    Document.inherited?_eq_some_iff.mpr ⟨ancestors, value, h, hlimit, rfl⟩
  rw [Document.pageResources, hinherited]
  rfl

/-- A page has resources of its own, and fonts of its own among them. -/
def Owns (doc : Document) (page : ObjectId) (resources fonts : Dictionary) : Prop :=
  ∃ d : Dictionary, doc.dictionary? page = some d ∧
    d.get? "Resources" = some (.dictionary resources) ∧
    resources.get? "Font" = some (.dictionary fonts)

theorem Owns.finds {doc : Document} {page : ObjectId} {resources fonts : Dictionary}
    (h : Owns doc page resources fonts) :
    doc.Finds "Resources" page [] (.dictionary resources) := by
  obtain ⟨d, hd, hresources, -⟩ := h
  exact .here hd hresources

theorem Owns.congr {doc doc' : Document} {page : ObjectId} {resources fonts : Dictionary}
    (h : Owns doc page resources fonts) (hsame : doc'.dictionary? page = doc.dictionary? page) :
    Owns doc' page resources fonts := by
  obtain ⟨d, hd, hrest⟩ := h
  exact ⟨d, hsame.trans hd, hrest⟩

/-- Some resources, and fonts among them, have all entries of others. -/
structure Extends (resources fonts resources' fonts' : Dictionary) : Prop where
  entries : ∀ key value, key ≠ "Font" → resources.get? key = some value →
    resources'.get? key = some value
  fonts : ∀ name value, fonts.get? name = some value → fonts'.get? name = some value

theorem Extends.set {resources fonts resources' fonts' : Dictionary}
    (h : Extends resources fonts resources' fonts') (embedded : List (FontFamily × ObjectId)) :
    Extends resources fonts (resources'.set "Font" (.dictionary (nameFonts fonts' embedded).1))
      (nameFonts fonts' embedded).1 where
  entries := fun key value hkey hvalue ↦
    (Dictionary.get?_set_of_ne hkey).trans (h.entries key value hkey hvalue)
  fonts := fun name value hvalue ↦ get?_nameFonts embedded (h.fonts name value hvalue)

/-- An object is no reference to what is `touched`. -/
def IsApart (touched : ObjectId → Prop) (doc : Document) (object : Object) : Prop :=
  ∀ id stored, object = .reference id → doc.storedId? id = some stored → ¬touched stored

/-- A reference that leads nowhere in a document leads nowhere in another. -/
def StaysLost (doc out : Document) (object : Object) : Prop :=
  ∀ id, object = .reference id → doc.object? id = none → out.object? id = none

theorem StaysLost.of_grows {touched : ObjectId → Prop} {doc doc' out : Document} {object : Object}
    (h : StaysLost doc out object) (hgrows : Grows touched doc' out) :
    StaysLost doc doc' object := by
  intro id hid hnone
  rcases hgrows.object?_cases id with ⟨_, found, -, hout, -⟩ | ⟨hnone', -⟩
  · rw [h id hid hnone] at hout
    cases hout
  · exact hnone'

section Grown

variable {touched : ObjectId → Prop} {doc doc' : Document}

/-- A reference that leads somewhere apart from what is touched leads to the same later on. -/
theorem resolve_eq_of_isApart (h : Grows touched doc doc') {object : Object}
    (hapart : IsApart touched doc object) (hlost : StaysLost doc doc' object) :
    doc'.resolve object = doc.resolve object := by
  by_cases hreference : ∃ id, object = .reference id
  · obtain ⟨id, rfl⟩ := hreference
    rw [Document.resolve_reference, Document.resolve_reference]
    cases hobject : doc.object? id with
    | none => rw [hlost id rfl hobject]
    | some found =>
      obtain ⟨stored, hstored⟩ := Document.exists_storedId? hobject
      rw [h.object?_eq_of_not_touched hstored (hapart id stored rfl hstored), hobject]
  · rw [Document.resolve_of_not_reference _ (not_exists.mp hreference),
      Document.resolve_of_not_reference _ (not_exists.mp hreference)]

theorem dictionary?_resolve_of_isApart (h : Grows touched doc doc') {object : Object}
    (hapart : IsApart touched doc object) {d : Dictionary}
    (hd : (doc.resolve object).dictionary? = some d) :
    (doc'.resolve object).dictionary? = some d := by
  rw [resolve_eq_of_isApart h hapart, hd]
  rintro id rfl hnone
  rw [Document.resolve_reference, hnone] at hd
  cases hd

/-- Resources apart from what is touched are found again with all their entries and fonts. -/
theorem extends_of_isApart (h : Grows touched doc doc') {value : Object}
    (hvalue : IsApart touched doc value)
    (hfont : ∀ object, (resourcesOf doc value).get? "Font" = some object →
      IsApart touched doc object) :
    Extends (resourcesOf doc value) (fontsOf doc (resourcesOf doc value)) (resourcesOf doc' value)
      (fontsOf doc' (resourcesOf doc' value)) := by
  cases hresources : (doc.resolve value).dictionary? with
  | none =>
    have hempty : resourcesOf doc value = [] := by rw [resourcesOf, hresources]; rfl
    rw [hempty]
    exact ⟨fun _ _ _ hget ↦ (by cases hget), fun _ _ hget ↦ (by cases hget)⟩
  | some resources =>
    have hdoc : resourcesOf doc value = resources := by rw [resourcesOf, hresources]; rfl
    have hdoc' : resourcesOf doc' value = resources := by
      rw [resourcesOf, dictionary?_resolve_of_isApart h hvalue hresources]
      rfl
    rw [hdoc] at hfont ⊢
    rw [hdoc']
    refine ⟨fun _ _ _ hget ↦ hget, fun name font hget ↦ ?_⟩
    unfold fontsOf at hget ⊢
    cases hobject : resources.get? "Font" with
    | none =>
      rw [hobject] at hget
      cases hget
    | some object =>
      rw [hobject, Option.bind_some] at hget
      cases hfonts : (doc.resolve object).dictionary? with
      | none =>
        rw [hfonts] at hget
        cases hget
      | some fonts =>
        rw [hfonts] at hget
        rw [Option.bind_some, dictionary?_resolve_of_isApart h (hfont object hobject) hfonts]
        exact hget

/-- What is found among nodes that are not touched is found there later on. -/
theorem finds_of_not_touched (h : Grows touched doc doc') {key : String} {page : ObjectId}
    {ancestors : List ObjectId} {value : Object} (hfinds : doc.Finds key page ancestors value)
    (hnodes : ∀ node ∈ page :: ancestors, ∀ stored, doc.storedId? node = some stored →
      ¬touched stored) : doc'.Finds key page ancestors value := by
  have hsame {id : ObjectId} {d : Dictionary} (hd : doc.dictionary? id = some d)
      (hnot : ∀ stored, doc.storedId? id = some stored → ¬touched stored) :
      doc'.dictionary? id = some d := by
    obtain ⟨stored, hstored⟩ := Document.exists_storedId?_of_dictionary? hd
    rw [h.dictionary?_eq_of_not_touched hstored (hnot stored hstored), hd]
  induction hfinds with
  | here hd hvalue => exact .here (hsame hd (hnodes _ List.mem_cons_self)) hvalue
  | above hd hnone hparent _ ih =>
    obtain ⟨hfirst, hrest⟩ := List.forall_mem_cons.mp hnodes
    exact .above (hsame hd hfirst) hnone hparent (ih hrest)

end Grown

/-! ## Painting pages -/

/-- While pages are painted, a node keeps its dictionary or gets resources of its own. These have
all that was in effect on the node before, as long as that is apart from the pages touched. -/
structure Carries (touched : ObjectId → Prop) (doc doc' : Document) : Prop where
  grows : Grows touched doc doc'
  node : ∀ id d, doc.dictionary? id = some d → doc'.dictionary? id = some d ∨
    ∀ ancestors value, doc.Finds "Resources" id ancestors value →
      ancestors.length < ancestorLimit → IsApart touched doc value →
      (∀ object, (resourcesOf doc value).get? "Font" = some object → IsApart touched doc object) →
      ∃ resources fonts, Owns doc' id resources fonts ∧
        Extends (resourcesOf doc value) (fontsOf doc (resourcesOf doc value)) resources fonts

/-- Within a number of ancestors a page finds resources that have all that others have. -/
def FindsAll (doc : Document) (page : ObjectId) (bound : Nat) (resources fonts : Dictionary) :
    Prop :=
  ∃ ancestors value, doc.Finds "Resources" page ancestors value ∧ ancestors.length ≤ bound ∧
    Extends resources fonts (resourcesOf doc value) (fontsOf doc (resourcesOf doc value))

theorem Owns.findsAll {doc : Document} {page : ObjectId} {resources fonts own ownFonts : Dictionary}
    (h : Owns doc page own ownFonts) (hextends : Extends resources fonts own ownFonts)
    (bound : Nat) : FindsAll doc page bound resources fonts := by
  have hfonts : fontsOf doc (resourcesOf doc (.dictionary own)) = ownFonts := by
    obtain ⟨_, _, _, hown⟩ := h
    exact fontsOf_of_get? hown
  exact ⟨[], .dictionary own, h.finds, Nat.zero_le bound, hfonts.symm ▸ hextends⟩

section Carried

variable {touched : ObjectId → Prop} {doc doc' : Document} (h : Carries touched doc doc')
include h

/-- The search for resources ends where it did or at a page painted in the meantime. -/
theorem Carries.findsAll {page : ObjectId} {ancestors : List ObjectId} {value : Object}
    (hfinds : doc.Finds "Resources" page ancestors value)
    (hlimit : ancestors.length < ancestorLimit) (hvalue : IsApart touched doc value)
    (hfont : ∀ object, (resourcesOf doc value).get? "Font" = some object →
      IsApart touched doc object) :
    FindsAll doc' page ancestors.length (resourcesOf doc value)
      (fontsOf doc (resourcesOf doc value)) := by
  induction hfinds with
  | here hd hown =>
    rcases h.node _ _ hd with hsame | hnode
    · exact ⟨[], _, .here hsame hown, Nat.le_refl _, extends_of_isApart h.grows hvalue hfont⟩
    · obtain ⟨_, _, howns, hextends⟩ := hnode _ _ (.here hd hown) hlimit hvalue hfont
      exact howns.findsAll hextends _
  | above hd hnone hparent hrest ih =>
    rcases h.node _ _ hd with hsame | hnode
    · obtain ⟨ancestors', value', hfinds, hle, hextends⟩ :=
        ih (Nat.lt_of_succ_lt hlimit) hvalue hfont
      exact ⟨_, value', .above hsame hnone hparent hfinds, Nat.succ_le_succ hle, hextends⟩
    · obtain ⟨_, _, howns, hextends⟩ :=
        hnode _ _ (.above hd hnone hparent hrest) hlimit hvalue hfont
      exact howns.findsAll hextends _

/-- The resources in effect on a page have all that was in effect before. -/
theorem Carries.extends {page : ObjectId} {ancestors : List ObjectId} {value : Object}
    (hfinds : doc.Finds "Resources" page ancestors value)
    (hlimit : ancestors.length < ancestorLimit) (hvalue : IsApart touched doc value)
    (hfont : ∀ object, (resourcesOf doc value).get? "Font" = some object →
      IsApart touched doc object) :
    Extends (resourcesOf doc value) (fontsOf doc (resourcesOf doc value)) (doc'.pageResources page)
      (fontsOf doc' (doc'.pageResources page)) := by
  obtain ⟨ancestors', value', hfinds', hle, hextends⟩ := h.findsAll hfinds hlimit hvalue hfont
  rw [pageResources_of_finds hfinds' (Nat.lt_of_le_of_lt hle hlimit)]
  exact hextends

end Carried

theorem carries_of_grows {touched : ObjectId → Prop} {doc doc' : Document}
    (h : ∀ touched, Grows touched doc doc') : Carries touched doc doc' where
  grows := h touched
  node := by
    intro id d hd
    obtain ⟨stored, hstored⟩ := Document.exists_storedId?_of_dictionary? hd
    rw [(h fun _ ↦ False).dictionary?_eq_of_not_touched hstored not_false]
    exact .inl hd

/-- A page that is painted owns the resources in effect on it, with the embedded fonts. -/
theorem Painted.owns {ops : List Operator} {fonts : Dictionary} {stored : ObjectId}
    {doc out : Document} {t : Target} (h : Painted ops fonts stored doc t out) {id : ObjectId}
    (hid : doc.storedId? id = some stored) :
    Owns out id ((doc.pageResources t.id).set "Font" (.dictionary fonts)) fonts := by
  obtain ⟨page, hpage⟩ := h.dictionary?_eq hid
  exact ⟨_, hpage, Dictionary.get?_set_self _ _ _, Dictionary.get?_set_self _ _ _⟩

section Painting

variable {touched : ObjectId → Prop} {annotations : AnnotationSet} {fonts : FamilyTable Payload}
  {embedded : List (FontFamily × ObjectId)} {doc doc' out : Document}

theorem Carries.paintPage (h : Carries touched doc doc') {t : Target} {stored : ObjectId}
    (hstored : doc.storedId? t.id = some stored) (htouched : touched stored)
    (hpaint : paintPage annotations fonts embedded doc' t = .ok out) :
    Carries touched doc out where
  grows := h.grows.trans (grows_paintPage h.grows.isNumbered (h.grows.storedId?_eq_some hstored)
    htouched hpaint)
  node := by
    have hstored' := h.grows.storedId?_eq_some hstored
    have hpainted := painted_of_paintPage h.grows.isNumbered hstored' hpaint
    intro id d hd
    obtain ⟨other, hother⟩ := Document.exists_storedId?_of_dictionary? hd
    have hother' := h.grows.storedId?_eq_some hother
    by_cases hsame : other = stored
    · subst hsame
      refine .inr fun ancestors value hfinds hlimit hvalue hfont ↦ ?_
      have hextends := h.extends hfinds hlimit hvalue hfont
      rw [pageResources_eq_of_storedId? hother' hstored'] at hextends
      exact ⟨_, _, hpainted.owns hother', hextends.set embedded⟩
    · have hkept : out.dictionary? id = doc'.dictionary? id :=
        hpainted.grows.dictionary?_eq_of_not_touched hother' hsame
      rw [hkept]
      refine (h.node id d hd).imp_right fun hnode ancestors value hfinds hlimit hvalue hfont ↦ ?_
      obtain ⟨resources, own, howns, hextends⟩ := hnode ancestors value hfinds hlimit hvalue hfont
      exact ⟨resources, own, howns.congr hkept, hextends⟩

theorem Carries.paintPages (h : Carries touched doc doc') {targets : List Target}
    (htargets : ∀ t ∈ targets, ∃ stored, doc.storedId? t.id = some stored ∧ touched stored)
    (hpaint : targets.foldlM (Export.paintPage annotations fonts embedded) doc' = .ok out) :
    Carries touched doc out := by
  induction targets generalizing doc' with
  | nil =>
    cases hpaint
    exact h
  | cons t rest ih =>
    obtain ⟨⟨stored, hstored, htouched⟩, hrest⟩ := List.forall_mem_cons.mp htargets
    obtain ⟨next, hfirst, hlater⟩ := foldlM_cons_eq_ok hpaint
    exact ih (h.paintPage hstored htouched hfirst) hrest hlater

end Painting

theorem foldlM_append_eq_ok {α β ε : Type} {f : β → α → Except ε β} {as as' : List α} {b c : β}
    (h : (as ++ as').foldlM f b = .ok c) :
    ∃ middle, as.foldlM f b = .ok middle ∧ as'.foldlM f middle = .ok c := by
  rw [List.foldlM_append] at h
  cases hfirst : as.foldlM f b with
  | error e =>
    rw [hfirst] at h
    cases h
  | ok middle =>
    rw [hfirst] at h
    exact ⟨middle, rfl, h⟩

/-! ## Exporting -/

/-- Whether the dictionary of a page that is painted before another is stored under an id. -/
def IsPaintedBefore (doc : Document) (annotations : AnnotationSet) (page : Nat)
    (stored : ObjectId) : Prop :=
  ∃ earlier ∈ annotations.pages, earlier < page ∧
    ∃ id, doc.page? earlier = some id ∧ doc.storedId? id = some stored

/-- What a page owns after an export: everything that was in effect on it except for the fonts, all
fonts that it had, and the embedded ones under names that none of its fonts had. -/
structure KeepsResources (before fonts : Dictionary) (embedded : List (FontFamily × ObjectId))
    (out : Document) (page : ObjectId) (resources own : Dictionary) (names : FamilyTable String) :
    Prop where
  owns : Owns out page resources own
  extends_before : Extends before fonts resources own
  named : ∀ entry ∈ embedded, ∃ name, names.get? entry.1 = some name ∧
    fonts.get? name = none ∧ own.get? name = some (.reference entry.2)
  families : ∀ family name, names.get? family = some name → family ∈ embedded.map Prod.fst
  injective : ∀ family other name, names.get? family = some name →
    names.get? other = some name → family = other

/-- A page owns nothing but what was in effect on it and the embedded fonts. -/
structure OwnsNoMore (before fonts resources own : Dictionary) (names : FamilyTable String) :
    Prop where
  entries_eq : ∀ key, key ≠ "Font" → resources.get? key = before.get? key
  fonts_only : ∀ name value, own.get? name = some value →
    fonts.get? name = some value ∨ ∃ family, names.get? family = some name

/-- The page that is painted, and the pages before and after it. -/
theorem exists_split {doc : Document} {annotations : AnnotationSet} {targets : List Target}
    (h : List.Forall₂ (fun page t ↦ target doc page = .ok t) annotations.pages targets) {page : Nat}
    (hpage : page ∈ annotations.pages) : ∃ before t after, targets = before ++ t :: after ∧
      doc.page? page = some t.id ∧
      (∀ t' ∈ before, ∃ stored, doc.storedId? t'.id = some stored ∧
        IsPaintedBefore doc annotations page stored) ∧
      ∀ t' ∈ after, ∃ later, page < later ∧ doc.page? later = some t'.id := by
  rw [← map_page_targets h] at hpage
  obtain ⟨t, ht, rfl⟩ := List.mem_map.mp hpage
  obtain ⟨before, after, rfl⟩ := List.append_of_mem ht
  have hascending : ((before ++ t :: after).map Target.page).Pairwise (· < ·) :=
    map_page_targets h ▸ annotations.pairwise_pages
  rw [List.map_append, List.map_cons] at hascending
  obtain ⟨-, hlater, hearlier⟩ := List.pairwise_append.mp hascending
  have htarget : ∀ t' ∈ before ++ t :: after,
      t'.page ∈ annotations.pages ∧ doc.page? t'.page = some t'.id := by
    intro t' ht'
    obtain ⟨page, hpage, htarget⟩ := exists_target_eq_ok h ht'
    obtain ⟨rfl, hid, -⟩ := target_eq_ok htarget
    exact ⟨hpage, hid⟩
  refine ⟨before, t, after, rfl, (htarget t ht).2, fun t' ht' ↦ ?_, fun t' ht' ↦ ?_⟩
  · obtain ⟨hpage, hid⟩ := htarget t' (List.mem_append_left _ ht')
    obtain ⟨stored, -, hstored, -⟩ := exists_storedId?_of_page? hid
    have hlt : t'.page < t.page := hearlier _ (List.mem_map_of_mem ht') _ List.mem_cons_self
    exact ⟨stored, hstored, t'.page, hpage, hlt, t'.id, hid, hstored⟩
  · have hmem : t' ∈ before ++ t :: after :=
      List.mem_append_right _ (List.mem_cons_of_mem _ ht')
    have hlt : t.page < t'.page := (List.pairwise_cons.mp hlater).1 _ (List.mem_map_of_mem ht')
    exact ⟨t'.page, hlt, (htarget t' hmem).2⟩

section Exporting

variable {annotations : AnnotationSet} {fonts : FamilyTable Payload}
  {embedded : List (FontFamily × ObjectId)} {doc doc' out : Document} {targets : List Target}
  {page : Nat}

/-- A page is painted once. Before that the pages before it are painted, and after that its
dictionary stays. -/
theorem exists_painted (hdistinct : (doc.pages.map doc.storedId?).Nodup)
    (hgrows : ∀ touched, Grows touched doc doc')
    (htargets : List.Forall₂ (fun page t ↦ target doc page = .ok t) annotations.pages targets)
    (hpage : page ∈ annotations.pages)
    (hpaint : targets.foldlM (paintPage annotations fonts embedded) doc' = .ok out) :
    ∃ (middle next : Document) (t : Target) (stored : ObjectId) (ops : List Operator),
      doc.page? page = some t.id ∧ doc.storedId? t.id = some stored ∧
      Carries (IsPaintedBefore doc annotations page) doc middle ∧
      Painted ops (namedFonts embedded middle t.id).1 stored middle t next ∧
      out.dictionary? t.id = next.dictionary? t.id ∧ Grows (fun _ ↦ True) middle out := by
  obtain ⟨before, t, after, rfl, hid, hbefore, hafter⟩ := exists_split htargets hpage
  obtain ⟨middle, hfirst, hrest⟩ := foldlM_append_eq_ok hpaint
  obtain ⟨next, hnext, hlast⟩ := foldlM_cons_eq_ok hrest
  obtain ⟨stored, -, hstored, -⟩ := exists_storedId?_of_page? hid
  have hcarries := (carries_of_grows hgrows).paintPages hbefore hfirst
  have hstored' := hcarries.grows.storedId?_eq_some hstored
  have hpainted := painted_of_paintPage hcarries.grows.isNumbered hstored' hnext
  have hothers : ∀ t' ∈ after, ∃ other, next.storedId? t'.id = some other ∧ other ≠ stored := by
    intro t' ht'
    obtain ⟨later, hlt, hid'⟩ := hafter t' ht'
    obtain ⟨other, -, hother, -⟩ := exists_storedId?_of_page? hid'
    refine ⟨other, hpainted.grows.storedId?_eq_some (hcarries.grows.storedId?_eq_some hother), ?_⟩
    rintro rfl
    exact Nat.ne_of_lt hlt (Document.page?_inj hdistinct hid hid' (hstored.trans hother.symm))
  have hlater : Grows (· ≠ stored) next out :=
    grows_paintPages hpainted.grows.isNumbered hothers hlast
  have hout : out.dictionary? t.id = next.dictionary? t.id :=
    hlater.dictionary?_eq_of_not_touched (hpainted.grows.storedId?_eq_some hstored')
      (not_not_intro rfl)
  refine ⟨middle, next, t, stored, _, hid, hstored, hcarries, hpainted, hout, ?_⟩
  exact (grows_paintPage hcarries.grows.isNumbered hstored' trivial hnext).trans
    (grows_paintPages hpainted.grows.isNumbered
      (fun t' ht' ↦ (hothers t' ht').imp fun _ hother ↦ ⟨hother.1, trivial⟩) hlast)

/-- A page is not painted before itself. -/
theorem not_isPaintedBefore (hdistinct : (doc.pages.map doc.storedId?).Nodup) {id stored : ObjectId}
    (hid : doc.page? page = some id) (hstored : doc.storedId? id = some stored) :
    ¬IsPaintedBefore doc annotations page stored := by
  rintro ⟨earlier, -, hlt, other, hother, hsame⟩
  exact Nat.ne_of_lt hlt (Document.page?_inj hdistinct hother hid (hsame.trans hstored.symm))

end Exporting

/-- The resources in effect on a page while it is painted are those in effect before, unless they
come from a page painted before or from a reference that leads somewhere only now. -/
theorem pageResources_eq {touched : ObjectId → Prop} {doc doc' : Document} {page : ObjectId}
    {ancestors : List ObjectId} {value : Object} (h : Grows touched doc doc')
    (hfinds : doc.Finds "Resources" page ancestors value)
    (hlimit : ancestors.length < ancestorLimit)
    (hnodes : ∀ node ∈ page :: ancestors, ∀ stored, doc.storedId? node = some stored →
      ¬touched stored)
    (hvalue : IsApart touched doc value) (hlost : StaysLost doc doc' value) :
    doc'.pageResources page = doc.pageResources page := by
  rw [pageResources_of_finds (finds_of_not_touched h hfinds hnodes) hlimit,
    pageResources_of_finds hfinds hlimit, resourcesOf, resourcesOf,
    resolve_eq_of_isApart h hvalue hlost]

theorem fontsOf_eq {touched : ObjectId → Prop} {doc doc' : Document} {resources : Dictionary}
    (h : Grows touched doc doc')
    (hfont : ∀ object, resources.get? "Font" = some object →
      IsApart touched doc object ∧ StaysLost doc doc' object) :
    fontsOf doc' resources = fontsOf doc resources := by
  unfold fontsOf
  cases hobject : resources.get? "Font" with
  | none => rfl
  | some object =>
    obtain ⟨hapart, hlost⟩ := hfont object hobject
    rw [Option.bind_some, Option.bind_some, resolve_eq_of_isApart h hapart hlost]

section Page

variable {touched : ObjectId → Prop} {embedded : List (FontFamily × ObjectId)}
  {doc middle next out : Document} {t : Target} {stored : ObjectId} {ops : List Operator}
  {ancestors : List ObjectId} {value : Object}

theorem keepsResources_of_painted (hnodup : (embedded.map Prod.fst).Nodup)
    (hcarries : Carries touched doc middle)
    (hpainted : Painted ops (namedFonts embedded middle t.id).1 stored middle t next)
    (hout : out.dictionary? t.id = next.dictionary? t.id)
    (hfinds : doc.Finds "Resources" t.id ancestors value)
    (hlimit : ancestors.length < ancestorLimit) (hvalue : IsApart touched doc value)
    (hfont : ∀ object, (doc.pageResources t.id).get? "Font" = some object →
      IsApart touched doc object) :
    KeepsResources (doc.pageResources t.id) (fontsOf doc (doc.pageResources t.id)) embedded out t.id
      ((middle.pageResources t.id).set "Font" (.dictionary (namedFonts embedded middle t.id).1))
      (namedFonts embedded middle t.id).1 (namedFonts embedded middle t.id).2 := by
  have hresources := pageResources_of_finds hfinds hlimit
  rw [hresources] at hfont ⊢
  have hextends := hcarries.extends hfinds hlimit hvalue hfont
  have hnamed := areNamed_nameFonts (fontsOf middle (middle.pageResources t.id)) hnodup
  refine ⟨(hpainted.owns hpainted.stored_eq).congr hout, hextends.set embedded, ?_, ?_,
    hnamed.injective⟩
  · intro entry hentry
    obtain ⟨name, hname, hown⟩ :=
      exists_name (fontsOf middle (middle.pageResources t.id)) hnodup hentry
    refine ⟨name, hname, ?_, hown⟩
    cases hbefore : (fontsOf doc (resourcesOf doc value)).get? name with
    | none => rfl
    | some object =>
      have hnew := hnamed.absent entry.1 name hname
      rw [hextends.fonts name object hbefore] at hnew
      cases hnew
  · intro family name hname
    exact mem_of_names_foldl hname (by cases family <;> rfl)

theorem ownsNoMore_of_painted (hnodup : (embedded.map Prod.fst).Nodup)
    (hgrows : Grows touched doc middle) (hlater : Grows (fun _ ↦ True) middle out)
    (hfinds : doc.Finds "Resources" t.id ancestors value)
    (hlimit : ancestors.length < ancestorLimit)
    (hnodes : ∀ node ∈ t.id :: ancestors, ∀ stored, doc.storedId? node = some stored →
      ¬touched stored)
    (hvalue : IsApart touched doc value ∧ StaysLost doc out value)
    (hfont : ∀ object, (doc.pageResources t.id).get? "Font" = some object →
      IsApart touched doc object ∧ StaysLost doc out object) :
    OwnsNoMore (doc.pageResources t.id) (fontsOf doc (doc.pageResources t.id))
      ((middle.pageResources t.id).set "Font" (.dictionary (namedFonts embedded middle t.id).1))
      (namedFonts embedded middle t.id).1 (namedFonts embedded middle t.id).2 := by
  have hresources : middle.pageResources t.id = doc.pageResources t.id :=
    pageResources_eq hgrows hfinds hlimit hnodes hvalue.1 (hvalue.2.of_grows hlater)
  have hfonts : fontsOf middle (doc.pageResources t.id) = fontsOf doc (doc.pageResources t.id) :=
    fontsOf_eq hgrows fun object hobject ↦
      (hfont object hobject).imp_right fun hlost ↦ hlost.of_grows hlater
  unfold namedFonts
  rw [hresources, hfonts]
  exact ⟨fun key hkey ↦ Dictionary.get?_set_of_ne hkey,
    (areNamed_nameFonts (fontsOf doc (doc.pageResources t.id)) hnodup).only⟩

end Page

/-- The names of the fonts of a page. -/
def fontNames (doc : Document) (page : ObjectId) : List String :=
  (fontsOf doc (doc.pageResources page)).map Prod.fst

theorem staysLost_of_resolve {doc out : Document} {object : Object} {d : Dictionary}
    (h : (doc.resolve object).dictionary? = some d) : StaysLost doc out object := by
  rintro id rfl hnone
  rw [Document.resolve_reference, hnone] at h
  cases h

/-- Where fonts are found on a page, no reference on the way to them is lost. -/
theorem staysLost_of_fontNames {doc out : Document} {page : ObjectId} {ancestors : List ObjectId}
    {value : Object} (hfinds : doc.Finds "Resources" page ancestors value)
    (hlimit : ancestors.length < ancestorLimit) (hfonts : fontNames doc page ≠ []) :
    StaysLost doc out value ∧
      ∀ object, (doc.pageResources page).get? "Font" = some object → StaysLost doc out object := by
  have hresources := pageResources_of_finds hfinds hlimit
  refine ⟨?_, fun object hobject ↦ ?_⟩
  · cases hd : (doc.resolve value).dictionary? with
    | some d => exact staysLost_of_resolve hd
    | none =>
      have hempty : doc.pageResources page = [] := by rw [hresources, resourcesOf, hd]; rfl
      exact absurd (by rw [fontNames, hempty]; rfl) hfonts
  · cases hd : (doc.resolve object).dictionary? with
    | some d => exact staysLost_of_resolve hd
    | none =>
      have hempty : fontsOf doc (doc.pageResources page) = [] := by
        rw [fontsOf, hobject, Option.bind_some, hd]
        rfl
      exact absurd (by rw [fontNames, hempty]; rfl) hfonts

theorem mem_usedFamilies_iff {annotations : AnnotationSet} {family : FontFamily} :
    family ∈ usedFamilies annotations ↔
      ∃ l ∈ annotations.labels, l.text ≠ "" ∧ l.style.family = family := by
  constructor
  · intro h
    obtain ⟨l, hl, hsame⟩ := List.any_eq_true.mp (List.mem_filter.mp h).2
    obtain ⟨hmem, htext⟩ := List.mem_filter.mp hl
    exact ⟨l, hmem, by simpa using htext, beq_iff_eq.mp hsame⟩
  · rintro ⟨l, hl, htext, rfl⟩
    exact mem_usedFamilies (List.mem_filter.mpr ⟨hl, by simpa using htext⟩)

/-- The resources of an annotated page survive an export. The page owns what was in effect on it,
with every font that it had and with one name more for every family of a label that shows a text,
where its resources and fonts are no dictionaries of pages painted before. It owns nothing else
where no such page lies on the way to its resources, and where references to these that led nowhere
still do. The search for a name ends with the first candidate that is not used, and the search for
an attribute with the first node that has it. -/
theorem exportDocument_keeps_resources {format : FileFormat} {source bytes : Bytes}
    {annotations : AnnotationSet} {fonts : FamilyTable Payload} {doc : Document}
    (hread : format.read? source = some doc) (hnumbered : doc.IsNumbered)
    (hdistinct : (doc.pages.map doc.storedId?).Nodup)
    (hexport : exportDocument format source annotations fonts = .ok bytes) :
    (∃ out embedded, paint doc annotations fonts = .ok out ∧ bytes = format.write out ∧
      (embedded.map Prod.fst).Nodup ∧
      (∀ family, family ∈ embedded.map Prod.fst ↔
        ∃ l ∈ annotations.labels, l.text ≠ "" ∧ l.style.family = family) ∧
      (∀ entry ∈ embedded, IsFontOf fonts doc.maxNumber out entry) ∧
      ∀ page ∈ annotations.pages, ∃ id, doc.page? page = some id ∧
        ∀ ancestors value, doc.Finds "Resources" id ancestors value →
          ancestors.length < ancestorLimit →
          IsApart (IsPaintedBefore doc annotations page) doc value →
          (∀ object, (doc.pageResources id).get? "Font" = some object →
            IsApart (IsPaintedBefore doc annotations page) doc object) →
          ∃ resources own names,
            KeepsResources (doc.pageResources id) (fontsOf doc (doc.pageResources id)) embedded out
              id resources own names ∧
            ((∀ node ∈ ancestors, ∀ stored, doc.storedId? node = some stored →
                ¬IsPaintedBefore doc annotations page stored) →
              StaysLost doc out value →
              (∀ object, (doc.pageResources id).get? "Font" = some object →
                StaysLost doc out object) →
              OwnsNoMore (doc.pageResources id) (fontsOf doc (doc.pageResources id)) resources own
                names)) ∧
    (∀ base fonts, ∃ k ≤ fonts.length, unusedName base fonts = candidate base k ∧
      fonts.get? (candidate base k) = none ∧
      ∀ j < k, (fonts.get? (candidate base j)).isSome) ∧
    ∀ (doc : Document) key page object, doc.inherited? page key = some object ↔
      ∃ ancestors value, doc.Finds key page ancestors value ∧ ancestors.length < ancestorLimit ∧
        object = doc.resolve value := by
  refine ⟨?_, exists_unusedName_eq, fun _ _ _ _ ↦ Document.inherited?_eq_some_iff⟩
  obtain ⟨hmissing, out, hpaint, hbytes⟩ := exportDocument_eq_ok hread hexport
  obtain ⟨targets, htargets, hpages⟩ := paint_eq_ok hpaint
  let embedding := (usedFamilies annotations).foldl (embedFamily fonts) ([], doc)
  have hgrows : ∀ touched, Grows touched doc embedding.2 :=
    fun _ ↦ grows_embedFamilies hnumbered fonts (usedFamilies annotations) []
  obtain ⟨hfamilies, hfonts⟩ : embedding.1.map Prod.fst = usedFamilies annotations ∧
      ∀ entry ∈ embedding.1, IsFontOf fonts doc.maxNumber embedding.2 entry :=
    embedFamilies_spec (isSome_of_mem_usedFamilies hmissing) hnumbered (Nat.le_refl _) (by simp)
  have hnodup : (embedding.1.map Prod.fst).Nodup := hfamilies ▸ nodup_usedFamilies annotations
  refine ⟨out, embedding.1, hpaint, hbytes, hnodup, fun family ↦ ?_, fun entry hentry ↦ ?_, ?_⟩
  · rw [hfamilies, mem_usedFamilies_iff]
  · have hannotated := isAnnotated_of_targets (hgrows fun _ ↦ False) htargets
    refine (hfonts entry hentry).of_grows
      (grows_paintPages (hgrows fun _ ↦ False).isNumbered hannotated hpages) fun stored hpage ↦ ?_
    exact (isPageObject_of_isAnnotated hpage).of_grows (hgrows fun _ ↦ False)
  · intro page hpage
    obtain ⟨middle, next, t, stored, ops, hid, hstored, hcarries, hpainted, hout, hlater⟩ :=
      exists_painted hdistinct hgrows htargets hpage hpages
    refine ⟨t.id, hid, fun ancestors value hfinds hlimit hvalue hfont ↦ ⟨_, _, _,
      keepsResources_of_painted hnodup hcarries hpainted hout hfinds hlimit hvalue hfont, ?_⟩⟩
    intro hnodes hlostValue hlostFont
    refine ownsNoMore_of_painted hnodup hcarries.grows hlater hfinds hlimit ?_ ⟨hvalue, hlostValue⟩
      fun object hobject ↦ ⟨hfont object hobject, hlostFont object hobject⟩
    refine List.forall_mem_cons.mpr ⟨fun other hother ↦ ?_, hnodes⟩
    obtain rfl := Option.some.inj (hstored.symm.trans hother)
    exact not_isPaintedBefore hdistinct hid hstored

/-- A label on each of some pages. -/
def captions (pages : List Nat) : AnnotationSet :=
  ⟨pages.map fun page ↦ ⟨page, page, 50, 50, "A", .standard, 12, 16⟩, []⟩

/-- Five pages. The second has the first one as its parent, the third uses the first one as its
resources and the fourth as its fonts, and the fonts of the fifth are an object that the file does
not have. -/
def entangled : Bytes :=
  ["%PDF-1.4\n1 0 obj\n<</Type/Catalog/Pages 2 0 R>>\nendobj\n",
    "2 0 obj\n<</Type/Pages/Count 5/Kids[3 0 R 4 0 R 5 0 R 6 0 R 7 0 R]>>\nendobj\n",
    "3 0 obj\n<</Type/Page/Parent 2 0 R/Contents[]/Resources<</Font<</F1 null>>>>>>\nendobj\n",
    "4 0 obj\n<</Type/Page/Parent 3 0 R>>\nendobj\n",
    "5 0 obj\n<</Type/Page/Parent 2 0 R/Resources 3 0 R>>\nendobj\n",
    "6 0 obj\n<</Type/Page/Parent 2 0 R/Resources<</Font 3 0 R>>>>\nendobj\n",
    "7 0 obj\n<</Type/Page/Parent 2 0 R/Resources<</Font 9 0 R>>>>\nendobj\n",
    "xref\n0 8\n0000000000 65535 f \n0000000009 00000 n \n0000000054 00000 n \n",
    "0000000129 00000 n \n0000000214 00000 n \n0000000257 00000 n \n0000000316 00000 n \n",
    "0000000384 00000 n \n",
    "trailer\n<</Size 8/Root 1 0 R>>\nstartxref\n452\n%%EOF"].flatMap Bytes.ofText

theorem read_entangled :
    ∃ doc, FileFormat.standard.read? entangled = some doc ∧ doc.IsNumbered ∧
      (doc.pages.map doc.storedId?).Nodup ∧ (doc.page? 2).map (fontNames doc) = some ["F1"] ∧
      (doc.page? 2).map (fun id ↦ (doc.inherited? id "Resources").isSome) = some true ∧
      (exportDocument .standard entangled (captions [2]) ⟨none, some plainFont⟩).isOk := by
  have hread : (FileFormat.standard.read? entangled).any fun doc ↦ doc.IsNumbered ∧
      (doc.pages.map doc.storedId?).Nodup ∧ (doc.page? 2).map (fontNames doc) = some ["F1"] ∧
      (doc.page? 2).map (fun id ↦ (doc.inherited? id "Resources").isSome) = some true ∧
      (exportDocument .standard entangled (captions [2]) ⟨none, some plainFont⟩).isOk := by
    simp only [entangled, List.flatMap_cons, List.flatMap_nil]
    repeat rw [Bytes.ofText_ofList]
    decide +kernel
  simpa [Option.any_eq_true] using hread

/-- The second page inherits the font of its parent, and gets another one. -/
theorem exportDocument_keeps_resources_entangled :
    ∃ doc bytes out embedded id resources own names,
      FileFormat.standard.read? entangled = some doc ∧ doc.IsNumbered ∧
      (doc.pages.map doc.storedId?).Nodup ∧
      exportDocument .standard entangled (captions [2]) ⟨none, some plainFont⟩ = .ok bytes ∧
      bytes = FileFormat.standard.write out ∧ FontFamily.sans ∈ embedded.map Prod.fst ∧
      doc.page? 2 = some id ∧ fontNames doc id = ["F1"] ∧
      KeepsResources (doc.pageResources id) (fontsOf doc (doc.pageResources id)) embedded out id
        resources own names ∧
      OwnsNoMore (doc.pageResources id) (fontsOf doc (doc.pageResources id)) resources own
        names := by
  obtain ⟨doc, hread, hnumbered, hdistinct, hnames, hfound, hok⟩ := read_entangled
  obtain ⟨bytes, hexport⟩ := exists_of_isOk hok
  obtain ⟨⟨out, embedded, -, hbytes, hnodup, hfamilies, -, hpages⟩, -, hinherited⟩ :=
    exportDocument_keeps_resources hread hnumbered hdistinct hexport
  obtain ⟨id, hid, hkeeps⟩ := hpages 2 (by decide)
  rw [hid] at hnames hfound
  obtain ⟨object, hobject⟩ := Option.isSome_iff_exists.mp (Option.some.inj hfound)
  obtain ⟨ancestors, value, hfinds, hlimit, -⟩ := (hinherited _ _ _ _).mp hobject
  have hfirst : ∀ stored, ¬IsPaintedBefore doc (captions [2]) 2 stored := by
    rintro stored ⟨earlier, hmem, hlt, -⟩
    have hpages : (captions [2]).pages = [2] := by decide
    rw [hpages, List.mem_singleton] at hmem
    omega
  obtain ⟨resources, own, names, hkept, hexact⟩ := hkeeps ancestors value hfinds hlimit
    (fun _ stored _ _ ↦ hfirst stored) (fun _ _ _ stored _ _ ↦ hfirst stored)
  have hfont : fontNames doc id = ["F1"] := Option.some.inj hnames
  obtain ⟨hvalue, hfonts⟩ : StaysLost doc out value ∧ ∀ object,
      (doc.pageResources id).get? "Font" = some object → StaysLost doc out object :=
    staysLost_of_fontNames hfinds hlimit (by rw [hfont]; exact List.cons_ne_nil _ _)
  refine ⟨doc, bytes, out, embedded, id, resources, own, names, hread, hnumbered, hdistinct,
    hexport, hbytes, (hfamilies .sans).mpr (by decide), hid, hfont, hkept,
    hexact (fun _ _ stored _ ↦ hfirst stored) hvalue hfonts⟩

/-! ## Unusual files -/

/-- What is seen of the pages of a file before and after annotations are painted into it. -/
def viewsAround {α : Type} (view : Document → ObjectId → α) (source : Bytes)
    (annotations : AnnotationSet) (fonts : FamilyTable Payload) : Option (List (α × α)) := do
  let doc ← FileFormat.standard.read? source
  let out ← (paint doc annotations fonts).toOption
  return doc.pages.map fun id ↦ (view doc id, view out id)

/-- What is seen of the resources of a page: the names of its fonts, and how many contents stand
under that key among its resources and among its fonts. -/
structure ResourceView where
  fonts : List String
  contents : Option Nat
  fontContents : Option Nat
  deriving DecidableEq, Repr

/-- The resources of a page in view. -/
def ResourceView.ofPage (doc : Document) (page : ObjectId) : ResourceView :=
  let count (d : Dictionary) := ((d.get? "Contents").bind Object.array?).map List.length
  ⟨fontNames doc page, count (doc.pageResources page), count (fontsOf doc (doc.pageResources page))⟩

/-- Two pages with the first one under a number above those in the table. -/
def misnumberedResources : Bytes :=
  ["%PDF-1.4\n1 0 obj\n<</Type/Catalog/Pages 2 0 R>>\nendobj\n",
    "2 0 obj\n<</Type/Pages/Count 2/Kids[7 0 R 4 0 R]>>\nendobj\n",
    "7 0 obj\n<</Type/Page/Parent 2 0 R/Resources<</ProcSet[/PDF]>>>>\nendobj\n",
    "4 0 obj\n<</Type/Page/Parent 2 0 R>>\nendobj\n",
    "xref\n0 5\n0000000000 65535 f \n0000000009 00000 n \n0000000054 00000 n \n",
    "0000000111 00000 n \n0000000182 00000 n \n",
    "trailer\n<</Size 5/Root 1 0 R>>\nstartxref\n225\n%%EOF"].flatMap Bytes.ofText

/-- With one family in use, the second page gets two new names and the fifth one all entries of an
embedded object. The contents among the resources of the third page and among the fonts of the
fourth are others than before. The first page of the misnumbered file loses its resources. -/
theorem pages_entangled_misnumbered :
    ((FileFormat.standard.read? entangled).map fun doc ↦
      (decide doc.IsNumbered, decide (doc.pages.map doc.storedId?).Nodup,
        doc.pages.map fun id ↦ (doc.inherited? id "Resources").isSome)) =
      some (true, true, [true, true, true, true, true]) ∧
    usedFamilies (captions [1, 2, 3, 4, 5]) = [.sans] ∧
    viewsAround .ofPage entangled (captions [1, 2, 3, 4, 5]) ⟨none, some plainFont⟩ =
      some [(ResourceView.mk ["F1"] none none, ⟨["F1", "MkSans"], none, none⟩),
        (⟨["F1"], none, none⟩, ⟨["F1", "MkSans", "MkSans2"], none, none⟩),
        (⟨[], some 0, none⟩, ⟨["MkSans"], some 2, none⟩),
        (⟨["Type", "Parent", "Contents", "Resources"], none, some 0⟩,
          ⟨["Type", "Parent", "Contents", "Resources", "MkSans"], none, some 2⟩),
        (⟨[], none, none⟩, ⟨["Type", "FontName", "Flags", "FontBBox", "ItalicAngle", "Ascent",
          "Descent", "CapHeight", "StemV", "FontFile2", "MkSans"], none, none⟩)] ∧
    ((FileFormat.standard.read? misnumberedResources).map fun doc ↦
      (decide doc.IsNumbered, decide (doc.pages.map doc.storedId?).Nodup)) = some (false, true) ∧
    viewsAround (fun doc id ↦ (doc.pageResources id).map Prod.fst) misnumberedResources
      (squares [1, 2]) .empty = some [(["ProcSet"], []), ([], ["Font"])] := by
  simp only [viewsAround, entangled, misnumberedResources, List.flatMap_cons, List.flatMap_nil]
  repeat rw [Bytes.ofText_ofList]
  refine ⟨?_, ?_, ?_, ?_, ?_⟩
  · decide +kernel
  · rfl
  · decide +kernel
  · decide +kernel
  · decide +kernel

end Export

end Marginalia
