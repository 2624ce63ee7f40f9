import Mathlib
import Marginalia.DocumentId
import Marginalia.Proofs.Text.Cutting
import Marginalia.Proofs.Text.Slices
import Marginalia.Proofs.Text.Trimming

/-!
# Which documents references name

A reference is read in one of a few ways, which are told apart by where its delimiters stand for the
first time. An address names the document in the segment after its first `/d/`; where that is empty,
or there is none, the first query key `id` decides, whatever follows it.

A text that is given as an id is refused if there is nothing but blanks in it. A reference is
trimmed before it is read, so that one that is its own id, and the part at the end of an address,
are never blank. A part that another follows is looked at only for whether it is empty: there, and
nowhere else, ids are read that are refused when they are given as such.
-/

namespace Marginalia.DocumentId

open Text

/-! ## The parts of a reference -/

/-- Whether a reference looks like the path of a file: it has a drive, it starts at the root, at the
home folder or at a folder near by, or it ends like a document in any letter case. -/
inductive LooksLocal (u : List Char) : Prop where
  | drive (h : ":\\".toList <:+: u)
  | start (mark : String) (hmark : mark ∈ ["/", "~", "\\", "./", "../"]) (h : mark.toList <+: u)
  | ending (stem ending : List Char) (hcase : ending.map Char.toLower = ".pdf".toList)
      (h : u = stem ++ ending)

/-- The characters in which a reference that is no address cannot be an id. -/
def noise : List Char := ['/', '?', '&', ' ']

/-- The path segment after the first `/d/`, which may be empty. -/
def IsSegment (address id : List Char) : Prop :=
  ∃ before after, IsFirstCut "/d/".toList address before after ∧
    IsLongestRun (fun c ↦ c ≠ '/' ∧ c ≠ '?' ∧ c ≠ '#') after id

/-- A pair of a query, with its key and its value. -/
abbrev IsPair (field key value : List Char) : Prop :=
  IsFirstCut ['='] field key value

/-- The value of the first field that is a pair with a key; other fields may stand before it. -/
def IsFirstValue (fields : List (List Char)) (key value : List Char) : Prop :=
  ∃ earlier field later, fields = earlier ++ field :: later ∧ IsPair field key value ∧
    ∀ other ∈ earlier, ∀ v, ¬ IsPair other key v

/-- The value of the first query key `id`, up to a fragment, which may be empty. -/
def IsQueryValue (address id : List Char) : Prop :=
  ∃ before query, IsFirstCut ['?'] address before query ∧
    ∃ value, IsFirstValue (query.splitOn '&') "id".toList value ∧
      IsLongestRun (fun c ↦ c ≠ '#') value id

/-- How a reference without surrounding blanks is answered. -/
inductive IsAnswered (u : List Char) : Except DocumentIdError DocumentId → Prop where
  | empty (h : u = []) : IsAnswered u (.error .empty)
  | file (h : "file://".toList <+: u) : IsAnswered u (.error (.localPath (String.ofList u)))
  | segment {id : List Char} (haddress : "://".toList <:+: u) (hfile : ¬ "file://".toList <+: u)
      (hid : IsSegment u id) (hne : id ≠ []) : IsAnswered u (.ok ⟨String.ofList id⟩)
  | query {id : List Char} (haddress : "://".toList <:+: u) (hfile : ¬ "file://".toList <+: u)
      (hsegment : ∀ s, IsSegment u s → s = []) (hid : IsQueryValue u id) (hne : id ≠ []) :
      IsAnswered u (.ok ⟨String.ofList id⟩)
  | address (haddress : "://".toList <:+: u) (hfile : ¬ "file://".toList <+: u)
      (hsegment : ∀ s, IsSegment u s → s = []) (hquery : ∀ v, IsQueryValue u v → v = []) :
      IsAnswered u (.error (.unrecognized (String.ofList u)))
  | localPath (hne : u ≠ []) (haddress : ¬ "://".toList <:+: u) (h : LooksLocal u) :
      IsAnswered u (.error (.localPath (String.ofList u)))
  | noise (haddress : ¬ "://".toList <:+: u) (hlocal : ¬ LooksLocal u) (h : ∃ c ∈ u, c ∈ noise) :
      IsAnswered u (.error (.unrecognized (String.ofList u)))
  | bare (hne : u ≠ []) (haddress : ¬ "://".toList <:+: u) (hlocal : ¬ LooksLocal u)
      (h : ∀ c ∈ u, c ∉ noise) : IsAnswered u (.ok ⟨String.ofList u⟩)

/-! ## What the searches find -/

variable {u id : List Char}

theorem isAddress_iff : isAddress u = true ↔ "://".toList <:+: u := hasInfix_iff

theorem isAddress_of_file (h : "file://".toList <+: u) : "://".toList <:+: u := by
  obtain ⟨rest, rfl⟩ := h
  exact ⟨"file".toList, rest, by simp⟩

theorem isLocalPath_of_isAddress (h : "://".toList <:+: u) :
    isLocalPath u = true ↔ "file://".toList <+: u := by
  rw [isLocalPath, isAddress_iff.mpr h, if_pos rfl, ← List.isPrefixOf_iff_prefix]
  cases "file://".toList.isPrefixOf u <;> decide

theorem endsLikeDocument_iff : ".pdf".toList.isSuffixOf (u.map lowerAscii) = true ↔
    ∃ stem ending : List Char, ending.map Char.toLower = ".pdf".toList ∧ u = stem ++ ending := by
  rw [List.isSuffixOf_iff_suffix, show lowerAscii = Char.toLower from funext lowerAscii_eq_toLower]
  constructor
  · rintro ⟨front, h⟩
    obtain ⟨stem, ending, rfl, -, hending⟩ := List.append_eq_map_iff.mp h
    exact ⟨stem, ending, hending, rfl⟩
  · rintro ⟨stem, ending, hcase, rfl⟩
    exact ⟨stem.map Char.toLower, by rw [List.map_append, hcase]⟩

theorem isLocalPath_iff (h : ¬ "://".toList <:+: u) : isLocalPath u = true ↔ LooksLocal u := by
  have hfile : ¬ "file://".toList.isPrefixOf u = true :=
    fun hprefix ↦ h (isAddress_of_file (List.isPrefixOf_iff_prefix.mp hprefix))
  rw [isLocalPath, if_neg hfile, if_neg (fun haddress ↦ h (isAddress_iff.mp haddress))]
  simp only [Bool.or_eq_true, hasInfix_iff, List.isPrefixOf_iff_prefix, endsLikeDocument_iff]
  constructor
  · rintro ((((((hdrive | hmark) | hmark) | hmark) | hmark) | hmark) | ⟨stem, ending, hcase, heq⟩)
    · exact .drive hdrive
    · exact .start "/" (by decide) hmark
    · exact .start "~" (by decide) hmark
    · exact .start "\\" (by decide) hmark
    · exact .start "./" (by decide) hmark
    · exact .start "../" (by decide) hmark
    · exact .ending stem ending hcase heq
  · rintro (hdrive | ⟨mark, hmark, hstart⟩ | ⟨stem, ending, hcase, heq⟩)
    · simp only [hdrive, true_or]
    · simp only [List.mem_cons, List.not_mem_nil, or_false] at hmark
      rcases hmark with rfl | rfl | rfl | rfl | rfl <;> simp only [hstart, true_or, or_true]
    · exact .inr ⟨stem, ending, hcase, heq⟩

theorem isSegment_iff : IsSegment u id ↔ ∃ cut, splitAtFirst? "/d/".toList u = some cut ∧
    id = cut.2.takeWhile fun c ↦ !endsSegment c := by
  have hcharacter (c : Char) : (c ≠ '/' ∧ c ≠ '?' ∧ c ≠ '#') ↔ (!endsSegment c) = true := by
    simp [endsSegment, and_assoc]
  simp only [IsSegment, isLongestRun_iff hcharacter, Prod.exists, splitAtFirst?_eq_some_iff]

theorem find?_pairs_eq_some_iff {fields : List (List Char)} {key value : List Char} :
    (fields.filterMap (splitAtFirst? ['='])).find? (fun pair ↦ pair.1 == key) = some (key, value) ↔
      IsFirstValue fields key value := by
  have hkey (field : List Char) :
      (splitAtFirst? ['='] field).any (fun pair ↦ pair.1 == key) = true ↔
        ∃ v, IsPair field key v := by
    simp only [Option.any_eq_true, Prod.exists, splitAtFirst?_eq_some_iff, beq_iff_eq]
    exact ⟨fun ⟨_, v, h, heq⟩ ↦ ⟨v, heq ▸ h⟩, fun ⟨v, h⟩ ↦ ⟨key, v, h, rfl⟩⟩
  simp only [List.find?_filterMap, Option.bind_eq_some_iff, List.find?_eq_some_iff_append, hkey,
    Bool.not_eq_true', ← Bool.not_eq_true, splitAtFirst?_eq_some_iff, not_exists]
  constructor
  · rintro ⟨field, ⟨-, earlier, later, hfields, hearlier⟩, hpair⟩
    exact ⟨earlier, field, later, hfields, hpair, hearlier⟩
  · rintro ⟨earlier, field, later, hfields, hpair, hearlier⟩
    exact ⟨field, ⟨⟨value, hpair⟩, earlier, later, hfields, hearlier⟩, hpair⟩

theorem isQueryValue_iff : IsQueryValue u id ↔ ∃ cut, splitAtFirst? ['?'] u = some cut ∧
    ∃ value, ((fields (· == '&') cut.2).filterMap (splitAtFirst? ['='])).find?
        (fun pair ↦ pair.1 == "id".toList) = some ("id".toList, value) ∧
      id = value.takeWhile fun c ↦ c != '#' := by
  have hcharacter (c : Char) : c ≠ '#' ↔ (c != '#') = true := bne_iff_ne.symm
  simp only [IsQueryValue, isLongestRun_iff hcharacter, Prod.exists, splitAtFirst?_eq_some_iff,
    find?_pairs_eq_some_iff, fields_eq_splitOnP, List.splitOn_eq_splitOnP]

/-- A part is taken as an id unless it is empty. -/
theorem ite_isEmpty_eq_some_iff {s : List Char} :
    (if s.isEmpty then none else some s) = some id ↔ id = s ∧ id ≠ [] := by
  cases s with
  | nil => simp
  | cons c cs => simp [eq_comm]; rintro rfl; simp

theorem segmentId?_eq_some_iff : segmentId? u = some id ↔ IsSegment u id ∧ id ≠ [] := by
  rw [isSegment_iff, segmentId?, Option.bind_eq_bind, Option.bind_eq_some_iff]
  simp only [ite_isEmpty_eq_some_iff, ← and_assoc, exists_and_right]

theorem queryId?_eq_some_iff : queryId? u = some id ↔ IsQueryValue u id ∧ id ≠ [] := by
  rw [isQueryValue_iff, queryId?, Option.bind_eq_bind, Option.bind_eq_some_iff]
  simp only [Option.bind_eq_some_iff, ite_isEmpty_eq_some_iff]
  constructor
  · rintro ⟨cut, hcut, ⟨key, value⟩, hpair, hid, hne⟩
    obtain rfl : key = "id".toList := by simpa using List.find?_some hpair
    exact ⟨⟨cut, hcut, value, hpair, hid⟩, hne⟩
  · rintro ⟨⟨cut, hcut, value, hpair, hid⟩, hne⟩
    exact ⟨cut, hcut, ("id".toList, value), hpair, hid, hne⟩

theorem segmentId?_eq_none_iff : segmentId? u = none ↔ ∀ s, IsSegment u s → s = [] := by
  simp only [Option.eq_none_iff_forall_ne_some, ne_eq, segmentId?_eq_some_iff, not_and, not_not]

theorem queryId?_eq_none_iff : queryId? u = none ↔ ∀ v, IsQueryValue u v → v = [] := by
  simp only [Option.eq_none_iff_forall_ne_some, ne_eq, queryId?_eq_some_iff, not_and, not_not]

/-! ## Answers -/

theorem ofReference_of_isLocalPath (hne : u ≠ []) (h : isLocalPath u = true) :
    ofReference u = .error (.localPath (String.ofList u)) := by
  rw [ofReference, if_neg (by simpa using hne), if_pos h]

theorem ne_nil_of_isAddress (h : "://".toList <:+: u) : u ≠ [] := by
  rintro rfl
  exact absurd (List.infix_nil.mp h) (by decide)

theorem ofReference_of_isAddress (haddress : "://".toList <:+: u)
    (hfile : ¬ "file://".toList <+: u) : ofReference u =
      match segmentId? u <|> queryId? u with
      | some id => .ok ⟨String.ofList id⟩
      | none => .error (.unrecognized (String.ofList u)) := by
  rw [ofReference]
  refine (if_neg (by simpa using ne_nil_of_isAddress haddress)).trans ?_
  refine (if_neg fun h ↦ hfile ((isLocalPath_of_isAddress haddress).mp h)).trans ?_
  exact if_pos (isAddress_iff.mpr haddress)

theorem ofReference_of_not_isAddress (hne : u ≠ []) (haddress : ¬ "://".toList <:+: u)
    (hlocal : ¬ LooksLocal u) : ofReference u =
      if ∃ c ∈ u, c ∈ noise then .error (.unrecognized (String.ofList u))
      else .ok ⟨String.ofList u⟩ := by
  rw [ofReference, if_neg (by simpa using hne),
    if_neg (fun h ↦ hlocal ((isLocalPath_iff haddress).mp h)),
    if_neg (fun h ↦ haddress (isAddress_iff.mp h))]
  simp [noise, or_assoc]

theorem ofReference_eq {answer : Except DocumentIdError DocumentId} (h : IsAnswered u answer) :
    ofReference u = answer := by
  cases h with
  | empty h => rw [ofReference, h, if_pos List.isEmpty_nil]
  | file h =>
    have haddress := isAddress_of_file h
    exact ofReference_of_isLocalPath (ne_nil_of_isAddress haddress)
      ((isLocalPath_of_isAddress haddress).mpr h)
  | segment haddress hfile hid hne =>
    rw [ofReference_of_isAddress haddress hfile, segmentId?_eq_some_iff.mpr ⟨hid, hne⟩]
    rfl
  | query haddress hfile hsegment hid hne =>
    rw [ofReference_of_isAddress haddress hfile, segmentId?_eq_none_iff.mpr hsegment,
      queryId?_eq_some_iff.mpr ⟨hid, hne⟩]
    rfl
  | address haddress hfile hsegment hquery =>
    rw [ofReference_of_isAddress haddress hfile, segmentId?_eq_none_iff.mpr hsegment,
      queryId?_eq_none_iff.mpr hquery]
    rfl
  | localPath hne haddress h =>
    exact ofReference_of_isLocalPath hne ((isLocalPath_iff haddress).mpr h)
  | noise haddress hlocal h =>
    have hne : u ≠ [] := List.ne_nil_of_mem h.choose_spec.1
    rw [ofReference_of_not_isAddress hne haddress hlocal, if_pos h]
  | bare hne haddress hlocal h =>
    rw [ofReference_of_not_isAddress hne haddress hlocal,
      if_neg fun ⟨c, hc, hnoise⟩ ↦ h c hc hnoise]

theorem exists_isAnswered (u : List Char) : ∃ answer, IsAnswered u answer := by
  by_cases hempty : u = []
  · exact ⟨_, .empty hempty⟩
  by_cases haddress : "://".toList <:+: u
  · by_cases hfile : "file://".toList <+: u
    · exact ⟨_, .file hfile⟩
    by_cases hsegment : ∀ s, IsSegment u s → s = []
    · by_cases hquery : ∀ v, IsQueryValue u v → v = []
      · exact ⟨_, .address haddress hfile hsegment hquery⟩
      · obtain ⟨id, hid, hne⟩ : ∃ id, IsQueryValue u id ∧ id ≠ [] := by simpa using hquery
        exact ⟨_, .query haddress hfile hsegment hid hne⟩
    · obtain ⟨id, hid, hne⟩ : ∃ id, IsSegment u id ∧ id ≠ [] := by simpa using hsegment
      exact ⟨_, .segment haddress hfile hid hne⟩
  · by_cases hlocal : LooksLocal u
    · exact ⟨_, .localPath hempty haddress hlocal⟩
    by_cases hnoise : ∃ c ∈ u, c ∈ noise
    · exact ⟨_, .noise haddress hlocal hnoise⟩
    · exact ⟨_, .bare hempty haddress hlocal (by simpa using hnoise)⟩

/-- A reference is answered by what stands in it first: an address by the segment after its first
`/d/`, else by its first query key `id`, and by nothing else; any other text by itself, unless it
looks like a path or holds a character of an address. -/
theorem parse_eq_iff {input : String} (h : IsTrimmed input.toList u)
    (answer : Except DocumentIdError DocumentId) : parse input = answer ↔ IsAnswered u answer := by
  obtain rfl := isTrimmed_iff.mp h
  refine ⟨?_, ofReference_eq⟩
  rintro rfl
  obtain ⟨answer, hanswer⟩ := exists_isAnswered (trim input.toList)
  have heq : parse input = answer := ofReference_eq hanswer
  rwa [heq]

/-- An empty segment does not count, of the fields the first with a key and a value does, as far as
the fragment, and what looks like an address after it does not. -/
theorem parse_eq_iff_query :
    IsTrimmed "\t https://h/d/?id&=a&id=q=é#/d/k?id=b\n".toList
        "https://h/d/?id&=a&id=q=é#/d/k?id=b".toList ∧
      parse "\t https://h/d/?id&=a&id=q=é#/d/k?id=b\n" = .ok ⟨"q=é"⟩ ∧
      IsAnswered "https://h/d/?id&=a&id=q=é#/d/k?id=b".toList (.ok ⟨"q=é"⟩) := by
  have h : IsTrimmed "\t https://h/d/?id&=a&id=q=é#/d/k?id=b\n".toList
      "https://h/d/?id&=a&id=q=é#/d/k?id=b".toList := isTrimmed_iff.mpr (by decide +kernel)
  have hparse : parse "\t https://h/d/?id&=a&id=q=é#/d/k?id=b\n" = .ok ⟨"q=é"⟩ := rfl
  exact ⟨h, hparse, (parse_eq_iff h _).mp hparse⟩

/-! ## Blank ids -/

/-- A part that names the document of an address although there is nothing but blanks in it. -/
structure IsBlankPart (u part : List Char) : Prop where
  address : "://".toList <:+: u
  remote : ¬ "file://".toList <+: u
  names : IsSegment u part ∨ (∀ s, IsSegment u s → s = []) ∧ IsQueryValue u part
  ne_nil : part ≠ []
  blank : ∀ c ∈ part, isBlank c = true

theorem isAnswered_parse (input : String) : IsAnswered (trim input.toList) (parse input) := by
  obtain ⟨answer, h⟩ := exists_isAnswered (trim input.toList)
  have heq : parse input = answer := ofReference_eq h
  rwa [heq]

/-- A text is refused as an id exactly if every character of it is blank. -/
theorem new_ofList (s : List Char) : new (String.ofList s) =
    if ∀ c ∈ s, isBlank c = true then .error .empty else .ok ⟨String.ofList s⟩ := by
  rw [new, String.toList_ofList]
  exact if_congr (by rw [List.isEmpty_iff, trim_eq_nil_iff]) rfl rfl

/-- A text without blanks around it that is not empty has a character that is none. -/
theorem exists_not_isBlank {s trimmed : List Char} (h : IsTrimmed s trimmed) (hne : trimmed ≠ []) :
    ∃ c ∈ trimmed, isBlank c = false := by
  obtain ⟨c, rest, rfl⟩ := List.exists_cons_of_ne_nil hne
  exact ⟨c, List.mem_cons_self, h.start c rfl⟩

/-- What stands at the end of a text without blanks around it is not all blank. -/
theorem IsBlankPart.not_suffix {input : List Char} {part : List Char}
    (h : IsBlankPart (trim input) part) : ¬ part <:+ trim input := by
  obtain ⟨hne, hblank⟩ := And.intro h.ne_nil h.blank
  rintro ⟨before, hend⟩
  have hlast : (trim input).getLast? = some (part.getLast hne) := by
    rw [← hend, List.getLast?_append_of_ne_nil _ hne, List.getLast?_eq_some_getLast hne]
  have hnot := (isTrimmed_trim input).stop _ hlast
  rw [hblank _ (List.getLast_mem hne)] at hnot
  exact Bool.noConfusion hnot

/-- What is read as an id is accepted as one, if it cannot be a blank part. -/
theorem accepted_unless_isBlankPart {input part : List Char} (hne : part ≠ [])
    (h : (∀ c ∈ part, isBlank c = true) → IsBlankPart (trim input) part) :
    String.ofList part ≠ "" ∧
      (new (String.ofList part) = .ok ⟨String.ofList part⟩ ∨
        IsBlankPart (trim input) part ∧ ¬ part <:+ trim input) := by
  refine ⟨by simpa using hne, ?_⟩
  rw [new_ofList]
  by_cases hblank : ∀ c ∈ part, isBlank c = true
  · exact .inr ⟨h hblank, (h hblank).not_suffix⟩
  · exact .inl (if_neg hblank)

/-- An id that is read in a reference is not empty, and is accepted as one, unless it is a part of
an address with nothing but blanks in it, and then the address does not end with it. Wherever there
is such a part in the place of an id, it is read as the id, and refused when it is given as one. -/
theorem parsed_ids_are_accepted_unless_blank (input : String) :
    (∀ id, parse input = .ok id → id.text ≠ "" ∧
      (new id.text = .ok id ∨ IsBlankPart (trim input.toList) id.text.toList ∧
        ¬ id.text.toList <:+ trim input.toList)) ∧
    ∀ part, IsBlankPart (trim input.toList) part →
      parse input = .ok ⟨String.ofList part⟩ ∧ new (String.ofList part) = .error .empty := by
  constructor
  · intro id hparse
    have hanswer := isAnswered_parse input
    rw [hparse] at hanswer
    cases hanswer with
    | segment haddress hfile hid hne =>
      rw [String.toList_ofList]
      exact accepted_unless_isBlankPart hne fun hblank ↦
        ⟨haddress, hfile, .inl hid, hne, hblank⟩
    | query haddress hfile hsegment hid hne =>
      rw [String.toList_ofList]
      exact accepted_unless_isBlankPart hne fun hblank ↦
        ⟨haddress, hfile, .inr ⟨hsegment, hid⟩, hne, hblank⟩
    | bare hne =>
      obtain ⟨c, hc, hnot⟩ := exists_not_isBlank (isTrimmed_trim input.toList) hne
      rw [String.toList_ofList]
      refine accepted_unless_isBlankPart hne fun hblank ↦ ?_
      rw [hblank c hc] at hnot
      exact Bool.noConfusion hnot
  · intro part h
    refine ⟨ofReference_eq ?_, (new_ofList part).trans (if_pos h.blank)⟩
    rcases h.names with hid | ⟨hsegment, hid⟩
    · exact .segment h.address h.remote hid h.ne_nil
    · exact .query h.address h.remote hsegment hid h.ne_nil

/-- A blank at the start of a segment is kept, and an ideographic space that is all of a value is an
id. -/
theorem parsed_ids_are_accepted_unless_blank_spaces :
    (parse " https://h/d/ k?id=b" = .ok ⟨" k"⟩ ∧ new " k" = .ok ⟨" k"⟩) ∧
      IsBlankPart (trim "https://h/x?id=\u3000&u=1 ".toList) ['\u3000'] ∧
      parse "https://h/x?id=\u3000&u=1 " = .ok ⟨String.ofList ['\u3000']⟩ := by
  have hparse : parse " https://h/d/ k?id=b" = .ok ⟨" k"⟩ := rfl
  have hnew := ((parsed_ids_are_accepted_unless_blank " https://h/d/ k?id=b").1 _ hparse).2
  have hpart : IsBlankPart (trim "https://h/x?id=\u3000&u=1 ".toList) ['\u3000'] :=
    { address := hasInfix_iff.mp (by decide +kernel)
      remote := fun h ↦ absurd (List.isPrefixOf_iff_prefix.mpr h) (by decide +kernel)
      names := .inr ⟨segmentId?_eq_none_iff.mp (by decide +kernel),
        (queryId?_eq_some_iff.mp (by decide +kernel)).1⟩
      ne_nil := List.cons_ne_nil _ _
      blank := by simp [isBlank] }
  refine ⟨⟨hparse, hnew.resolve_right fun h ↦ ?_⟩, hpart,
    ((parsed_ids_are_accepted_unless_blank _).2 _ hpart).1⟩
  exact absurd (h.1.blank 'k' (by decide)) (by decide)

/-- A blank between two slashes is read as an id, and refused when it is given as one. -/
theorem parse_blank_segment :
    parse "https://h/d/ /view" = .ok ⟨" "⟩ ∧ new " " = .error .empty :=
  ⟨rfl, rfl⟩

end Marginalia.DocumentId
