import Mathlib.Data.List.Sort
import Marginalia.Font.Request
import Marginalia.Proofs.Font.Numbering

/-!
# The memory of a builder

A builder remembers its payloads by family, fingerprint of the font and characters. As long as the
fingerprints tell the fonts of a family apart, it remembers what it would build again: its answers
do not depend on what it was asked before, and nothing is remembered twice. Of the labels only the
characters matter that each family is used for.
-/

namespace Marginalia

namespace AnnotationSet

/-- A label of a family has a character. -/
def Uses (s : AnnotationSet) (family : FontFamily) (c : Char) : Prop :=
  ∃ l ∈ s.labels, l.style.family = family ∧ c ∈ l.text.toList

/-- The texts of the labels of a family that have one. -/
def textsOf (s : AnnotationSet) (family : FontFamily) : List String :=
  (s.labels.filter fun l ↦ !l.text.isEmpty && l.style.family == family).map Label.text

theorem mem_textsOf {s : AnnotationSet} {family : FontFamily} {text : String} :
    text ∈ s.textsOf family ↔
      text ≠ "" ∧ ∃ l ∈ s.labels, l.style.family = family ∧ l.text = text := by
  simp only [textsOf, List.mem_map, List.mem_filter, Bool.and_eq_true, Bool.not_eq_true',
    beq_iff_eq, ← Bool.not_eq_true, String.isEmpty_iff]
  constructor
  · rintro ⟨l, ⟨hl, htext, hfamily⟩, rfl⟩
    exact ⟨htext, l, hl, hfamily, rfl⟩
  · rintro ⟨htext, l, hl, hfamily, rfl⟩
    exact ⟨l, ⟨hl, htext, hfamily⟩, rfl⟩

end AnnotationSet

namespace Font

open Ascending (IsAscending)

/-! ## The characters in use -/

section

variable {annotations others : AnnotationSet} {family : FontFamily} {characters : List Char}

/-- A set of characters has one ascending list. -/
theorem eq_of_mem_iff {list : List Char} (h : IsAscending Char.toNat characters)
    (hlist : IsAscending Char.toNat list) (hmem : ∀ c, c ∈ characters ↔ c ∈ list) :
    characters = list := by
  have : Std.Irrefl fun a b : Char ↦ a.toNat < b.toNat := ⟨fun a ↦ Nat.lt_irrefl _⟩
  have : Std.Antisymm fun a b : Char ↦ a.toNat < b.toNat :=
    ⟨fun a b hab hba ↦ absurd hba (Nat.lt_asymm hab)⟩
  exact List.Pairwise.eq_of_mem_iff h hlist hmem

theorem mem_charactersOf {texts : List String} {c : Char} :
    c ∈ charactersOf texts ↔ ∃ text ∈ texts, c ∈ text.toList := by
  have hinjective : ∀ a b : Char, a.toNat = b.toNat → a = b := fun _ _ ↦ Char.toNat_inj.mp
  rw [charactersOf, Ascending.mem_ofList_iff hinjective, List.mem_flatMap]

theorem mem_charactersOf_textsOf {c : Char} :
    c ∈ charactersOf (annotations.textsOf family) ↔ annotations.Uses family c := by
  rw [mem_charactersOf]
  constructor
  · rintro ⟨text, htext, hc⟩
    obtain ⟨-, l, hl, hfamily, rfl⟩ := AnnotationSet.mem_textsOf.mp htext
    exact ⟨l, hl, hfamily, hc⟩
  · rintro ⟨l, hl, hfamily, hc⟩
    have htext : l.text ≠ "" := by
      intro hempty
      rw [hempty] at hc
      cases hc
    exact ⟨l.text, AnnotationSet.mem_textsOf.mpr ⟨htext, l, hl, hfamily, rfl⟩, hc⟩

theorem charactersOf_textsOf_eq_nil :
    charactersOf (annotations.textsOf family) = [] ↔ annotations.textsOf family = [] := by
  refine ⟨fun hnone ↦ ?_, fun hnone ↦ by rw [hnone]; rfl⟩
  refine List.eq_nil_iff_forall_not_mem.mpr fun text htext ↦ ?_
  have hne : text.toList ≠ [] := fun hnil ↦
    (AnnotationSet.mem_textsOf.mp htext).1 (String.toList_eq_nil_iff.mp hnil)
  obtain ⟨c, hc⟩ := List.exists_mem_of_ne_nil _ hne
  have hmem : c ∈ charactersOf (annotations.textsOf family) :=
    mem_charactersOf.mpr ⟨text, htext, hc⟩
  rw [hnone] at hmem
  cases hmem

theorem get?_usage_eq : (usage annotations).get? family =
    if (annotations.textsOf family).isEmpty then none
    else some (charactersOf (annotations.textsOf family)) := by
  rw [usage, FamilyTable.get?_ofFunction]
  rfl

/-- The characters of a family are those of its labels; without any the family is left out. -/
theorem get?_usage :
    (usage annotations).get? family = some characters ↔
      characters ≠ [] ∧ IsAscending Char.toNat characters ∧
        ∀ c, c ∈ characters ↔ annotations.Uses family c := by
  have hascending : IsAscending Char.toNat (charactersOf (annotations.textsOf family)) :=
    Ascending.isAscending_ofList _ _
  have hempty : (annotations.textsOf family).isEmpty ↔
      charactersOf (annotations.textsOf family) = [] :=
    List.isEmpty_iff.trans charactersOf_textsOf_eq_nil.symm
  rw [get?_usage_eq]
  constructor
  · intro h
    split at h
    · cases h
    · next hne =>
      obtain rfl := Option.some.inj h
      exact ⟨mt hempty.mpr hne, hascending, fun c ↦ mem_charactersOf_textsOf⟩
  · rintro ⟨hne, hcharacters, huses⟩
    obtain rfl := eq_of_mem_iff hcharacters hascending fun c ↦
      (huses c).trans mem_charactersOf_textsOf.symm
    rw [if_neg (mt hempty.mp hne)]

/-- A family has characters if a label of it shows a text. -/
theorem isSome_get?_usage :
    ((usage annotations).get? family).isSome ↔
      ∃ l ∈ annotations.labels, l.text ≠ "" ∧ l.style.family = family := by
  have hsome : ((usage annotations).get? family).isSome ↔ annotations.textsOf family ≠ [] := by
    rw [get?_usage_eq, ne_eq, ← List.isEmpty_iff]
    split <;> simp_all
  rw [hsome]
  constructor
  · intro hne
    obtain ⟨text, htext⟩ := List.exists_mem_of_ne_nil _ hne
    obtain ⟨hne, l, hl, hfamily, rfl⟩ := AnnotationSet.mem_textsOf.mp htext
    exact ⟨l, hl, hne, hfamily⟩
  · rintro ⟨l, hl, hne, hfamily⟩
    exact List.ne_nil_of_mem (AnnotationSet.mem_textsOf.mpr ⟨hne, l, hl, hfamily, rfl⟩)

theorem usage_congr
    (h : ∀ family c, annotations.Uses family c ↔ others.Uses family c) :
    usage annotations = usage others := by
  have hget : ∀ family, (usage annotations).get? family = (usage others).get? family := by
    intro family
    ext characters
    exact get?_usage.trans (by simp only [h]; exact get?_usage.symm)
  exact congrArg₂ FamilyTable.mk (hget .serif) (hget .sans)

end

namespace SubsetBuilder

/-! ## Building a payload -/

/-- What comes of asking for a payload, and what is remembered then. -/
inductive Outcome (b : SubsetBuilder) (asset : Asset) (characters : List Char) :
    Option Payload × SubsetBuilder → Prop
  | unneeded (hcharacters : characters = []) : Outcome b asset characters (none, b)
  | remembered {payload : Payload} (hcharacters : characters ≠ [])
    (hfound : b.memory.lookup (payloadKey asset characters) = some payload) :
    Outcome b asset characters (some payload, b)
  | built {payload : Payload} (hcharacters : characters ≠ [])
    (hmissing : b.memory.lookup (payloadKey asset characters) = none)
    (hbuilt : Payload.build? asset characters = some payload) :
    Outcome b asset characters
      (some payload, ⟨b.memory ++ [(payloadKey asset characters, payload)]⟩)
  | unreadable (hcharacters : characters ≠ [])
    (hmissing : b.memory.lookup (payloadKey asset characters) = none)
    (hnone : Payload.build? asset characters = none) : Outcome b asset characters (none, b)

theorem build_outcome (b : SubsetBuilder) (asset : Asset) (characters : List Char) :
    b.Outcome asset characters (b.build asset characters) := by
  unfold build
  split
  · next hempty => exact .unneeded (List.isEmpty_iff.mp hempty)
  · next hsome =>
    have hcharacters : characters ≠ [] := fun hnil ↦ hsome (by rw [hnil]; rfl)
    dsimp only
    split
    · next hfound => exact .remembered hcharacters hfound
    · next hmissing =>
      split
      · next hbuilt => exact .built hcharacters hmissing hbuilt
      · next hnone => exact .unreadable hcharacters hmissing hnone

/-- The answer is what is remembered, or else what is built. -/
theorem build_fst (b : SubsetBuilder) (asset : Asset) (characters : List Char) :
    (b.build asset characters).1 =
      if characters = [] then none
      else (b.memory.lookup (payloadKey asset characters)).or
        (Payload.build? asset characters) := by
  have houtcome := b.build_outcome asset characters
  generalize b.build asset characters = outcome at houtcome ⊢
  cases houtcome with
  | unneeded hcharacters => rw [if_pos hcharacters]
  | remembered hcharacters hfound => rw [if_neg hcharacters, hfound, Option.some_or]
  | built hcharacters hmissing hbuilt =>
    rw [if_neg hcharacters, hmissing, Option.none_or, hbuilt]
  | unreadable hcharacters hmissing hnone =>
    rw [if_neg hcharacters, hmissing, Option.none_or, hnone]

/-! ## Requests and their parts -/

/-- Ask for one payload after the other. -/
def ask (b : SubsetBuilder) (parts : List (Asset × List Char)) : SubsetBuilder :=
  parts.foldl (fun b part ↦ (b.build part.1 part.2).2) b

theorem ask_append (b : SubsetBuilder) (parts rest : List (Asset × List Char)) :
    b.ask (parts ++ rest) = (b.ask parts).ask rest :=
  List.foldl_append

theorem buildFamily_snd (b : SubsetBuilder) (library : Library)
    (usage : FamilyTable (List Char)) (family : FontFamily) :
    (b.buildFamily library usage family).2 =
      b.ask (Option.toList do return (← library.get? family, ← usage.get? family)) := by
  rw [buildFamily]
  cases usage.get? family <;> cases library.get? family <;> rfl

/-- A request leaves what its parts leave, asked for one after the other. -/
theorem apply_snd (b : SubsetBuilder) (request : Request) :
    (b.apply request).2 = b.ask request.parts := by
  cases request with
  | build asset characters => rfl
  | buildAll library usage =>
    have hparts : (Request.buildAll library usage).parts =
        (Option.toList do return (← library.get? .serif, ← usage.get? .serif)) ++
          Option.toList do return (← library.get? .sans, ← usage.get? .sans) := by
      rw [Request.parts, List.filterMap_eq_flatMap_toList, FontFamily.all, List.flatMap_cons,
        List.flatMap_singleton]
    rw [hparts, ask_append, ← buildFamily_snd, ← buildFamily_snd]
    rfl

theorem run_eq_ask (b : SubsetBuilder) (requests : List Request) :
    b.run requests = b.ask (requests.flatMap Request.parts) := by
  rw [run, ask, List.foldl_flatMap]
  exact congrArg (fun step ↦ requests.foldl step b) (funext₂ apply_snd)

/-- A request for payloads of some fonts. -/
def Request.IsAmong (fonts : Asset → Prop) (request : Request) : Prop :=
  ∀ part ∈ request.parts, fonts part.1

/-- Fonts that were loaded, with different fingerprints for different fonts of a family. -/
structure AreApart (fonts : Asset → Prop) : Prop where
  loaded : ∀ {asset}, fonts asset → asset.IsLoaded
  eq_bytes : ∀ {asset other}, fonts asset → fonts other → asset.family = other.family →
    asset.fingerprint = other.fingerprint → asset.bytes = other.bytes

/-! ## Answers -/

/-- What is remembered are payloads of some fonts as they would be built again. -/
def Remembers (b : SubsetBuilder) (fonts : Asset → Prop) : Prop :=
  ∀ entry ∈ b.memory, ∃ asset, fonts asset ∧ payloadKey asset entry.1.characters = entry.1 ∧
    Payload.build? asset entry.1.characters = some entry.2

theorem remembers_empty (fonts : Asset → Prop) : empty.Remembers fonts :=
  fun _ hentry ↦ absurd hentry List.not_mem_nil

section

variable {fonts : Asset → Prop} {b : SubsetBuilder} {asset other : Asset}
  {characters : List Char} {parts : List (Asset × List Char)} {requests : List Request}

theorem AreApart.eq_of_payloadKey (h : AreApart fonts) (hasset : fonts asset)
    (hother : fonts other) (hkey : payloadKey asset characters = payloadKey other characters) :
    asset = other := by
  have hfamily : asset.family = other.family := congrArg PayloadKey.family hkey
  have hbytes := h.eq_bytes hasset hother hfamily (congrArg PayloadKey.fingerprint hkey)
  exact (h.loaded hasset).ext (h.loaded hother) hfamily hbytes

namespace Remembers

theorem build (h : b.Remembers fonts) (hasset : fonts asset) (characters : List Char) :
    (b.build asset characters).2.Remembers fonts := by
  have houtcome := b.build_outcome asset characters
  generalize b.build asset characters = outcome at houtcome ⊢
  cases houtcome with
  | unneeded => exact h
  | remembered => exact h
  | unreadable => exact h
  | built _ _ hbuilt =>
    intro entry hentry
    rcases List.mem_append.mp hentry with hold | hnew
    · exact h entry hold
    · obtain rfl := List.mem_singleton.mp hnew
      exact ⟨asset, hasset, rfl, hbuilt⟩

theorem ask (h : b.Remembers fonts) (hparts : ∀ part ∈ parts, fonts part.1) :
    (b.ask parts).Remembers fonts := by
  induction parts generalizing b with
  | nil => exact h
  | cons part rest ih =>
    obtain ⟨hpart, hrest⟩ := List.forall_mem_cons.mp hparts
    exact ih (h.build hpart part.2) hrest

theorem of_lookup (h : b.Remembers fonts) {key : PayloadKey} {payload : Payload}
    (hfound : b.memory.lookup key = some payload) :
    ∃ source, fonts source ∧ payloadKey source key.characters = key ∧
      Payload.build? source key.characters = some payload := by
  obtain ⟨before, after, hmemory, -⟩ := List.lookup_eq_some_iff.mp hfound
  exact h (key, payload) (hmemory ▸ List.mem_append_cons_self)

/-- A payload of a font was built from it or from another one with its family and fingerprint. -/
theorem exists_build? (h : b.Remembers fonts) (hasset : fonts asset) {payload : Payload}
    (hbuild : (b.build asset characters).1 = some payload) :
    ∃ source, fonts source ∧ payloadKey source characters = payloadKey asset characters ∧
      Payload.build? source characters = some payload := by
  rw [build_fst] at hbuild
  split at hbuild
  · cases hbuild
  · rcases Option.or_eq_some_iff.mp hbuild with hfound | ⟨-, hbuilt⟩
    · exact h.of_lookup hfound
    · exact ⟨asset, hasset, rfl, hbuilt⟩

/-- What is remembered under the key of a font is its own payload. -/
theorem build_eq (h : b.Remembers fonts) (hfonts : AreApart fonts) (hasset : fonts asset)
    (characters : List Char) :
    (b.build asset characters).1 = (empty.build asset characters).1 := by
  rw [build_fst, build_fst]
  split
  · rfl
  · cases hfound : b.memory.lookup (payloadKey asset characters) with
    | none => rfl
    | some payload =>
      obtain ⟨source, hsource, hkey, hbuilt⟩ := h.of_lookup hfound
      obtain rfl := hfonts.eq_of_payloadKey hsource hasset hkey
      exact hbuilt.symm

end Remembers

theorem Remembers.run (hrequests : ∀ request ∈ requests, request.IsAmong fonts) :
    (empty.run requests).Remembers fonts := by
  rw [run_eq_ask]
  refine (remembers_empty fonts).ask fun part hpart ↦ ?_
  obtain ⟨request, hrequest, hpart⟩ := List.mem_flatMap.mp hpart
  exact hrequests request hrequest part hpart

section

variable {library : Library} {usage : FamilyTable (List Char)}

theorem mem_parts_buildAll {family : FontFamily} (hasset : library.get? family = some asset)
    (hcharacters : usage.get? family = some characters) :
    (asset, characters) ∈ (Request.buildAll library usage).parts := by
  refine List.mem_filterMap.mpr ⟨family, ?_, ?_⟩
  · cases family <;> decide
  · rw [hasset, hcharacters]
    rfl

theorem exists_get?_of_mem_parts {part : Asset × List Char}
    (h : part ∈ (Request.buildAll library usage).parts) :
    ∃ family, library.get? family = some part.1 := by
  obtain ⟨family, -, hpart⟩ := List.mem_filterMap.mp h
  obtain ⟨asset, hasset, hpart⟩ := Option.bind_eq_some_iff.mp hpart
  obtain ⟨characters, -, hpart⟩ := Option.bind_eq_some_iff.mp hpart
  obtain rfl := Option.some.inj hpart
  exact ⟨family, hasset⟩

theorem Remembers.buildFamily (h : b.Remembers fonts)
    (hamong : (Request.buildAll library usage).IsAmong fonts) (family : FontFamily) :
    (b.buildFamily library usage family).2.Remembers fonts := by
  unfold SubsetBuilder.buildFamily
  split
  · next hcharacters hasset => exact h.build (hamong _ (mem_parts_buildAll hasset hcharacters)) _
  · exact h

theorem Remembers.buildFamily_eq (h : b.Remembers fonts) (hfonts : AreApart fonts)
    (hamong : (Request.buildAll library usage).IsAmong fonts) (family : FontFamily) :
    (b.buildFamily library usage family).1 = (empty.buildFamily library usage family).1 := by
  unfold SubsetBuilder.buildFamily
  split
  · next hcharacters hasset =>
    exact h.build_eq hfonts (hamong _ (mem_parts_buildAll hasset hcharacters)) _
  · rfl

end

/-- The answer to a request is the one of a builder without a memory. -/
theorem Remembers.apply_eq (h : b.Remembers fonts) (hfonts : AreApart fonts) {request : Request}
    (hamong : request.IsAmong fonts) : (b.apply request).1 = (empty.apply request).1 := by
  cases request with
  | build asset characters =>
    exact congrArg Answer.payload (h.build_eq hfonts (hamong _ List.mem_cons_self) characters)
  | buildAll library usage =>
    have hempty := remembers_empty fonts
    have hserif := h.buildFamily_eq hfonts hamong .serif
    have hsans := (h.buildFamily hamong .serif).buildFamily_eq hfonts hamong .sans
    have hsans' := (hempty.buildFamily hamong .serif).buildFamily_eq hfonts hamong .sans
    exact congrArg Answer.payloads (congrArg₂ FamilyTable.mk hserif (hsans.trans hsans'.symm))

/-! ## Repeated requests -/

/-- There is nothing to add for some characters of a font. -/
def Knows (b : SubsetBuilder) (asset : Asset) (characters : List Char) : Prop :=
  characters = [] ∨ (b.memory.lookup (payloadKey asset characters)).isSome

namespace Knows

theorem build_snd (h : b.Knows asset characters) : (b.build asset characters).2 = b := by
  have houtcome := b.build_outcome asset characters
  generalize b.build asset characters = outcome at houtcome ⊢
  cases houtcome with
  | unneeded => rfl
  | remembered => rfl
  | unreadable => rfl
  | built hcharacters hmissing =>
    rcases h with hnil | hfound
    · exact absurd hnil hcharacters
    · rw [hmissing] at hfound
      cases hfound

/-- Nothing is forgotten. -/
theorem build (h : b.Knows asset characters) (other : Asset) (others : List Char) :
    (b.build other others).2.Knows asset characters := by
  have houtcome := b.build_outcome other others
  generalize b.build other others = outcome at houtcome ⊢
  cases houtcome with
  | unneeded => exact h
  | remembered => exact h
  | unreadable => exact h
  | built =>
    refine h.imp_right fun hfound ↦ ?_
    rw [List.lookup_append, Option.isSome_or, hfound, Bool.true_or]

theorem ask (h : b.Knows asset characters) (parts : List (Asset × List Char)) :
    (b.ask parts).Knows asset characters := by
  induction parts generalizing b with
  | nil => exact h
  | cons part rest ih => exact ih (h.build part.1 part.2)

end Knows

/-- After a request for it, the payload of a font that was loaded is remembered. -/
theorem knows_build (b : SubsetBuilder) (hasset : asset.IsLoaded) (characters : List Char) :
    (b.build asset characters).2.Knows asset characters := by
  have houtcome := b.build_outcome asset characters
  generalize b.build asset characters = outcome at houtcome ⊢
  cases houtcome with
  | unneeded hcharacters => exact .inl hcharacters
  | remembered _ hfound => exact .inr (by rw [hfound]; rfl)
  | built => exact .inr (by rw [List.lookup_append, Option.isSome_or]; simp)
  | unreadable _ _ hnone =>
    obtain ⟨payload, hpayload⟩ := Payload.exists_build? hasset characters
    rw [hnone] at hpayload
    cases hpayload

theorem knows_ask (hloaded : ∀ part ∈ parts, part.1.IsLoaded) :
    ∀ part ∈ parts, (b.ask parts).Knows part.1 part.2 := by
  induction parts generalizing b with
  | nil => exact fun _ hpart ↦ absurd hpart List.not_mem_nil
  | cons first rest ih =>
    obtain ⟨hfirst, hrest⟩ := List.forall_mem_cons.mp hloaded
    intro part hpart
    rcases List.mem_cons.mp hpart with rfl | hpart
    · exact (b.knows_build hfirst part.2).ask rest
    · exact ih hrest part hpart

theorem ask_eq_self (h : ∀ part ∈ parts, b.Knows part.1 part.2) : b.ask parts = b := by
  induction parts with
  | nil => rfl
  | cons part rest ih =>
    obtain ⟨hpart, hrest⟩ := List.forall_mem_cons.mp h
    calc b.ask (part :: rest)
      _ = (b.build part.1 part.2).2.ask rest := rfl
      _ = b.ask rest := by rw [hpart.build_snd]
      _ = b := ih hrest

/-- The parts of a request have all been asked for before: by the family and the bytes of the font,
and by the characters. -/
def Request.IsCoveredBy (request : Request) (requests : List Request) : Prop :=
  ∀ part ∈ request.parts, ∃ earlier ∈ requests.flatMap Request.parts,
    earlier.1.family = part.1.family ∧ earlier.1.bytes = part.1.bytes ∧ earlier.2 = part.2

/-- Let the fingerprints tell the fonts of each family apart. Whatever a builder was asked before,
it answers every request as a new builder would, and a request for what it was asked before leaves
its memory as it is. Where the labels of two annotation sets use the same characters for each
family, the payloads are the same, be they built by this builder or by another one with a past of
its own. -/
theorem memory_is_transparent (hfonts : AreApart fonts)
    (hrequests : ∀ request ∈ requests, request.IsAmong fonts) :
    (∀ request : Request, request.IsAmong fonts →
      ((empty.run requests).apply request).1 = (empty.apply request).1 ∧
      (request.IsCoveredBy requests →
        ((empty.run requests).apply request).2 = empty.run requests)) ∧
    ∀ (otherRequests : List Request) (annotations others : AnnotationSet) (library : Library),
      (∀ request ∈ otherRequests, request.IsAmong fonts) →
      (∀ family c, annotations.Uses family c ↔ others.Uses family c) →
      (Request.buildAll library (usage annotations)).IsAmong fonts →
      ((empty.run requests).buildAll library (usage annotations)).1 =
        ((empty.run otherRequests).buildAll library (usage others)).1 := by
  have hremembers := Remembers.run hrequests
  have hloaded : ∀ part ∈ requests.flatMap Request.parts, part.1.IsLoaded := by
    intro part hpart
    obtain ⟨request, hrequest, hpart⟩ := List.mem_flatMap.mp hpart
    exact hfonts.loaded (hrequests request hrequest part hpart)
  refine ⟨fun request hamong ↦ ⟨hremembers.apply_eq hfonts hamong, fun hcovered ↦ ?_⟩, ?_⟩
  · rw [apply_snd]
    refine ask_eq_self fun part hpart ↦ ?_
    obtain ⟨earlier, hearlier, hfamily, hbytes, hcharacters⟩ := hcovered part hpart
    have hsame : earlier.1 = part.1 :=
      (hloaded earlier hearlier).ext (hfonts.loaded (hamong part hpart)) hfamily hbytes
    rw [run_eq_ask, ← hsame, ← hcharacters]
    exact knows_ask hloaded earlier hearlier
  · intro otherRequests annotations others library hother huses hamong
    rw [← usage_congr huses]
    have heq := (hremembers.apply_eq hfonts hamong).trans
      ((Remembers.run hother).apply_eq hfonts hamong).symm
    exact Answer.payloads.inj heq

end

theorem areApart_pair {first second : Asset} (hfirst : first.IsLoaded) (hsecond : second.IsLoaded)
    (hfamilies : first.family ≠ second.family) :
    AreApart fun asset ↦ asset = first ∨ asset = second where
  loaded := by
    rintro asset (rfl | rfl)
    · exact hfirst
    · exact hsecond
  eq_bytes := by
    rintro asset other (rfl | rfl) (rfl | rfl) hfamily -
    · rfl
    · exact absurd hfamily hfamilies
    · exact absurd hfamily.symm hfamilies
    · rfl

/-- Two annotation sets that differ in how a text is spread over labels. -/
def spreadTexts : AnnotationSet × AnnotationSet :=
  let labelOf (text : String) : Label := ⟨1, 1, 0, 0, text, .standard, 0, 0⟩
  (⟨[labelOf "Ae"], []⟩, ⟨[labelOf "e", labelOf "eA"], []⟩)

theorem uses_spreadTexts (family : FontFamily) (c : Char) :
    spreadTexts.1.Uses family c ↔ spreadTexts.2.Uses family c := by
  simp only [spreadTexts, AnnotationSet.Uses, List.mem_cons, List.not_mem_nil, exists_eq_or_imp,
    or_false, exists_eq_left, ← and_or_left]
  refine and_congr_right fun _ ↦ ?_
  have htexts : "Ae".toList = ['A', 'e'] ∧ "e".toList = ['e'] ∧ "eA".toList = ['e', 'A'] := by
    decide
  simp only [htexts, List.mem_cons, List.not_mem_nil, or_false]
  tauto

/-- A font is used for both families. It is asked for a character twice, and for a text that is in
one label or spread over two. -/
theorem memory_is_transparent_twoFamilies :
    ∃ first second, Asset.ofBytes? .sans Sample.font = some first ∧
      Asset.ofBytes? .serif Sample.font = some second ∧
      let fonts := fun asset ↦ asset = first ∨ asset = second
      let requests : List Request := [.build first ['A'], .build second ['A']]
      let library : Library := ⟨some second, some first⟩
      AreApart fonts ∧ (∀ request ∈ requests, request.IsAmong fonts) ∧
        ((empty.run requests).apply (.build second ['A'])).1 =
          (empty.apply (.build second ['A'])).1 ∧
        ((empty.run requests).apply (.build second ['A'])).2 = empty.run requests ∧
        ((empty.run requests).buildAll library (usage spreadTexts.1)).1 =
          ((empty.run requests.reverse).buildAll library (usage spreadTexts.2)).1 := by
  have hreads : (Face.ofBytes? Sample.font).isSome := by decide +kernel
  obtain ⟨f, hf⟩ := Option.isSome_iff_exists.mp hreads
  obtain ⟨first, hfirst, hsans⟩ := Asset.exists_ofBytes? hf .sans
  obtain ⟨second, hsecond, hserif⟩ := Asset.exists_ofBytes? hf .serif
  have hloaded := Asset.isLoaded_of_ofBytes? hfirst
  have hloaded' := Asset.isLoaded_of_ofBytes? hsecond
  have hfamilies : first.family ≠ second.family := by
    rw [hsans, hserif]
    decide
  refine ⟨first, second, hfirst, hsecond, ?_⟩
  -- From here on it does not matter which font it is.
  clear hreads hf hfirst hsecond
  intro fonts requests library
  have hfonts : AreApart fonts := areApart_pair hloaded hloaded' hfamilies
  have hamong : ∀ request ∈ requests, request.IsAmong fonts := by
    simp [requests, fonts, Request.IsAmong, Request.parts]
  have hall : (Request.buildAll library (usage spreadTexts.1)).IsAmong fonts := by
    intro part hpart
    obtain ⟨family, hasset⟩ := exists_get?_of_mem_parts hpart
    cases family with
    | serif => exact .inr (Option.some.inj hasset).symm
    | sans => exact .inl (Option.some.inj hasset).symm
  obtain ⟨hrequest, husage⟩ := memory_is_transparent hfonts hamong
  obtain ⟨hanswer, hmemory⟩ := hrequest (.build second ['A'])
    (hamong _ (List.mem_cons_of_mem _ List.mem_cons_self))
  have hreverse : ∀ request ∈ requests.reverse, request.IsAmong fonts := fun request hrequest ↦
    hamong request (List.mem_reverse.mp hrequest)
  refine ⟨hfonts, hamong, hanswer, hmemory fun part hpart ↦ ?_,
    husage requests.reverse _ _ library hreverse uses_spreadTexts hall⟩
  obtain rfl := List.mem_singleton.mp hpart
  exact ⟨_, List.mem_cons_of_mem _ List.mem_cons_self, rfl, rfl, rfl⟩

end SubsetBuilder

end Font

end Marginalia
