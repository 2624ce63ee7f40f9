import Mathlib
import Marginalia.CommandLine.Run
import Marginalia.Proofs.Text.Slices
import Marginalia.Proofs.Text.Trimming

/-!
# Names of saved documents

The name of a saved document is made of the last component of the name of its source, without the
blanks around it and without one ending `.pdf`. It names a file and no path, and never the source:
it ends like a document, so if it were the name of the source, the source would be longer than
itself. The ending is looked for by its bytes, but only where a character starts.
-/

namespace Marginalia

open Text

/-! ## Stems -/

/-- The ending of a document, in any letter case. -/
def IsPdfEnding (ending : List Char) : Prop := ending.map Char.toLower = ".pdf".toList

/-- What follows the last separator of a path, or all of it if there is none. -/
structure IsLastComponent (path component : List Char) : Prop where
  start : ∃ before, path = before ++ component ∧ ∀ c ∈ before.getLast?, c = '/' ∨ c = '\\'
  inside : ∀ c ∈ component, c ≠ '/' ∧ c ≠ '\\'

/-- A name without one ending of a document; without such an ending it is its own stem. -/
inductive IsStem (name : List Char) : List Char → Prop where
  | ending {stem ending : List Char} (hcase : IsPdfEnding ending) (h : name = stem ++ ending) :
      IsStem name stem
  | whole (h : ∀ ending, IsPdfEnding ending → ¬ ending <:+ name) : IsStem name name

/-- The stem of the last component of a path, without the blanks around the component. -/
def IsPathStem (path stem : List Char) : Prop :=
  ∃ component name, IsLastComponent path component ∧ IsTrimmed component name ∧ IsStem name stem

/-- What is gone through from the end of a text up to the first character that stops. -/
theorem takeWhile_reverse_append {p : Char → Bool} {before component : List Char}
    (hcomponent : ∀ c ∈ component, p c = true) (hbefore : ∀ c ∈ before.getLast?, p c = false) :
    (before ++ component).reverse.takeWhile p = component.reverse := by
  rw [List.reverse_append, List.takeWhile_append_of_pos (by simpa using hcomponent)]
  rw [← List.head?_reverse] at hbefore
  cases hreverse : before.reverse with
  | nil => rw [List.takeWhile_nil, List.append_nil]
  | cons c rest =>
    rw [hreverse] at hbefore
    rw [List.takeWhile_cons_of_neg (by simp [hbefore c rfl]), List.append_nil]

theorem isLastComponent_iff {path component : List Char} :
    IsLastComponent path component ↔ component = lastComponent path := by
  have hseparates (c : Char) : separatesPath c = true ↔ c = '/' ∨ c = '\\' := by
    simp [separatesPath]
  have hinside (c : Char) : (!separatesPath c) = true ↔ c ≠ '/' ∧ c ≠ '\\' := by
    simp [separatesPath]
  constructor
  · rintro ⟨⟨before, rfl, hbefore⟩, hcomponent⟩
    rw [lastComponent, takeWhile_reverse_append (fun c hc ↦ (hinside c).mpr (hcomponent c hc))
      (fun c hc ↦ by simp [(hseparates c).mpr (hbefore c hc)]), List.reverse_reverse]
  · rintro rfl
    refine ⟨⟨(path.reverse.dropWhile fun c ↦ !separatesPath c).reverse, ?_, ?_⟩, ?_⟩
    · rw [lastComponent, ← List.reverse_append, List.takeWhile_append_dropWhile,
        List.reverse_reverse]
    · intro c hc
      rw [List.getLast?_reverse] at hc
      have hnot := List.head?_dropWhile_not (fun c ↦ !separatesPath c) path.reverse
      rw [hc] at hnot
      exact (hseparates c).mp (by simpa using hnot)
    · intro c hc
      rw [lastComponent, List.mem_reverse] at hc
      exact (hinside c).mp (List.mem_takeWhile_imp (p := fun c ↦ !separatesPath c) hc)

section
variable {name stem ending : List Char}

theorem IsPdfEnding.length_eq (h : IsPdfEnding ending) : ending.length = 4 := by
  have hlength := congrArg List.length h
  rwa [List.length_map] at hlength

theorem IsPdfEnding.byteLength_eq (h : IsPdfEnding ending) : byteLength ending = 4 :=
  (byteLength_of_isAscii (isAscii_of_map_toLower h (by decide))).trans h.length_eq

theorem isPdfEnding_iff : IsPdfEnding ending ↔ ending.map lowerAscii = ".pdf".toList := by
  rw [IsPdfEnding, show lowerAscii = Char.toLower from funext lowerAscii_eq_toLower]

theorem withoutPdfEnding_append (h : IsPdfEnding ending) (stem : List Char) :
    withoutPdfEnding (stem ++ ending) = stem := by
  have hlength : (stem ++ ending).length - 4 = stem.length := by
    rw [List.length_append, h.length_eq, Nat.add_sub_cancel]
  rw [withoutPdfEnding, hlength, List.take_left, List.drop_left]
  refine if_pos ⟨?_, isPdfEnding_iff.mp h⟩
  rw [List.length_append, h.length_eq]
  exact Nat.le_add_left 4 _

theorem withoutPdfEnding_of_not (h : ∀ ending, IsPdfEnding ending → ¬ ending <:+ name) :
    withoutPdfEnding name = name := by
  rw [withoutPdfEnding]
  exact if_neg fun hlooks ↦ h _ (isPdfEnding_iff.mpr hlooks.2) (List.drop_suffix _ name)

theorem exists_isStem (name : List Char) : ∃ stem, IsStem name stem := by
  by_cases h : ∃ ending, IsPdfEnding ending ∧ ending <:+ name
  · obtain ⟨ending, hcase, stem, hname⟩ := h
    exact ⟨stem, .ending hcase hname.symm⟩
  · exact ⟨name, .whole fun ending hcase hsuffix ↦ h ⟨ending, hcase, hsuffix⟩⟩

theorem withoutPdfEnding_eq (h : IsStem name stem) : withoutPdfEnding name = stem := by
  cases h with
  | ending hcase h => rw [h, withoutPdfEnding_append hcase]
  | whole h => exact withoutPdfEnding_of_not h

/-- A name has one stem. -/
theorem isStem_iff : IsStem name stem ↔ stem = withoutPdfEnding name := by
  refine ⟨fun h ↦ (withoutPdfEnding_eq h).symm, ?_⟩
  rintro rfl
  obtain ⟨stem, h⟩ := exists_isStem name
  rwa [withoutPdfEnding_eq h]

end

section
variable {path stem : List Char}

theorem isPathStem_iff :
    IsPathStem path stem ↔ stem = withoutPdfEnding (trim (lastComponent path)) := by
  simp only [IsPathStem, isLastComponent_iff, isTrimmed_iff, isStem_iff]
  exact ⟨fun ⟨_, _, hlast, hname, hstem⟩ ↦ hlast ▸ hname ▸ hstem, fun h ↦ ⟨_, _, rfl, rfl, h⟩⟩

/-- A stem holds no separators, and does not begin with a blank. -/
theorem IsPathStem.plain (h : IsPathStem path stem) :
    (∀ c ∈ stem, c ≠ '/' ∧ c ≠ '\\') ∧ ∀ c ∈ stem.head?, isBlank c = false := by
  obtain ⟨component, name, hcomponent, hname, hstem⟩ := h
  have hbegins : stem <+: name := by
    cases hstem with
    | ending hcase h => exact ⟨_, h.symm⟩
    | whole => exact List.prefix_rfl
  constructor
  · intro c hc
    obtain rfl := isTrimmed_iff.mp hname
    exact hcomponent.inside c (mem_of_mem_trim (hbegins.subset hc))
  · intro c hc
    obtain ⟨rest, rfl⟩ := hbegins
    exact hname.start c (by rw [List.head?_append, hc]; rfl)

theorem isPdfEnding_pdf : IsPdfEnding ".pdf".toList := by
  rw [IsPdfEnding]
  decide

/-- A name without separators that begins with no blank loses nothing but its ending. -/
theorem isPathStem_append (hinside : ∀ c ∈ stem, c ≠ '/' ∧ c ≠ '\\')
    (hstart : ∀ c ∈ stem.head?, isBlank c = false) (hne : stem ≠ []) :
    IsPathStem (stem ++ ".pdf".toList) stem := by
  have hending : ∀ c ∈ ".pdf".toList, c ≠ '/' ∧ c ≠ '\\' := by simp
  refine ⟨stem ++ ".pdf".toList, stem ++ ".pdf".toList, ⟨⟨[], rfl, by simp⟩, ?_⟩,
    ⟨⟨[], [], by simp, by simp, by simp⟩, ?_, ?_⟩, .ending isPdfEnding_pdf rfl⟩
  · intro c hc
    exact (List.mem_append.mp hc).elim (hinside c) (hending c)
  · rwa [List.head?_append_of_ne_nil _ hne]
  · intro c hc
    rw [List.getLast?_append_of_ne_nil _ (by decide)] at hc
    obtain rfl : 'f' = c := Option.some.inj hc
    rfl

end

/-! ## Names -/

section
variable {name : String} {stem : List Char}

theorem artifactName_eq (h : IsPathStem name.toList stem) :
    artifactName (some name) =
      if stem = [] then defaultArtifactName else String.ofList (stem ++ "_edited.pdf".toList) := by
  obtain rfl := isPathStem_iff.mp h
  rw [artifactName]
  by_cases hempty : withoutPdfEnding (trim (lastComponent name.toList)) = [] <;>
    simp [hempty, Option.filter]

/-- What stands before `edited.pdf` in the name of a saved document. -/
def editedPrefix (stem : List Char) : List Char :=
  if stem = [] then [] else stem ++ ['_']

theorem toList_artifactName (h : IsPathStem name.toList stem) :
    (artifactName (some name)).toList =
      editedPrefix stem ++ "edited".toList ++ ".pdf".toList := by
  rw [artifactName_eq h, editedPrefix]
  by_cases hempty : stem = [] <;> simp [hempty, defaultArtifactName]

theorem editedPrefix_plain (h : IsPathStem name.toList stem) :
    (∀ c ∈ editedPrefix stem ++ "edited".toList, c ≠ '/' ∧ c ≠ '\\') ∧
      ∀ c ∈ (editedPrefix stem ++ "edited".toList).head?, isBlank c = false := by
  obtain ⟨hinside, hstart⟩ := h.plain
  have hedited : ∀ c ∈ ['_'] ++ "edited".toList, c ≠ '/' ∧ c ≠ '\\' := by simp
  rw [editedPrefix]
  split
  · exact ⟨by simp, by simp [isBlank]⟩
  · next hne =>
    rw [List.append_assoc, List.head?_append_of_ne_nil _ hne]
    exact ⟨fun c hc ↦ (List.mem_append.mp hc).elim (hinside c) (hedited c), hstart⟩

/-- A name that is offered for a document is not that of the document: its stem would be longer than
itself. -/
theorem artifactName_ne (h : IsPathStem name.toList stem) : artifactName (some name) ≠ name := by
  intro heq
  have hname := toList_artifactName h
  rw [heq] at hname
  obtain ⟨hinside, hstart⟩ := editedPrefix_plain h
  -- The name would then be its own stem with more characters after it.
  have hown := isPathStem_append hinside hstart (by simp)
  rw [← hname] at hown
  have hlength := congrArg List.length ((isPathStem_iff.mp h).trans (isPathStem_iff.mp hown).symm)
  rw [editedPrefix] at hlength
  split at hlength <;> simp_all

end

/-! ## Byte positions -/

/-- The removal of an ending by byte positions: the last four bytes are compared, if a character
starts with them. A cut within a character leaves no outcome. -/
def withoutPdfEndingCutting (name : List Char) : Option (List Char) :=
  let split := byteLength name - 4
  if 4 ≤ byteLength name ∧ isBoundary split name then do
    let (_, ending) ← cutAtByte? split name
    if ending.map lowerAscii = ".pdf".toList then do
      let (stem, _) ← cutAtByte? split name
      return stem
    else return name
  else return name

/-- The name under which a document is offered, by byte positions. -/
def artifactNameCutting (name : String) : Option String := do
  let stem ← withoutPdfEndingCutting (trim (lastComponent name.toList))
  return if stem = [] then defaultArtifactName else String.ofList (stem ++ "_edited.pdf".toList)

theorem withoutPdfEndingCutting_of_cut {name before after : List Char}
    (hlength : 4 ≤ byteLength name)
    (hcut : cutAtByte? (byteLength name - 4) name = some (before, after)) :
    withoutPdfEndingCutting name =
      some (if after.map lowerAscii = ".pdf".toList then before else name) := by
  have hboundary : isBoundary (byteLength name - 4) name = true := by
    rw [← isSome_cutAtByte?, hcut]
    rfl
  rw [withoutPdfEndingCutting, if_pos ⟨hlength, hboundary⟩, hcut]
  simp only [Option.bind_eq_bind, Option.bind_some]
  split <;> rfl

/-- The last four bytes are an ending exactly if the last four characters are. -/
theorem withoutPdfEndingCutting_eq (name : List Char) :
    withoutPdfEndingCutting name = some (withoutPdfEnding name) := by
  obtain ⟨stem, h⟩ := exists_isStem name
  rw [withoutPdfEnding_eq h]
  cases h with
  | @ending _ ending hcase h =>
    have hbytes : byteLength name = byteLength stem + 4 := by
      rw [h, byteLength_append, hcase.byteLength_eq]
    have hcut : cutAtByte? (byteLength name - 4) name = some (stem, ending) := by
      rw [hbytes, Nat.add_sub_cancel, h]
      exact cutAtByte?_byteLength stem ending
    rw [withoutPdfEndingCutting_of_cut (by omega) hcut, if_pos (isPdfEnding_iff.mp hcase)]
  | whole h =>
    by_cases hboundary : 4 ≤ byteLength name ∧ isBoundary (byteLength name - 4) name
    · -- What follows a cut is an ending of the text, and so not that of a document.
      rw [← isSome_cutAtByte?, Option.isSome_iff_exists] at hboundary
      obtain ⟨hlength, ⟨before, after⟩, hcut⟩ := hboundary
      have hsuffix : after <:+ name := ⟨before, (eq_append_of_cutAtByte? hcut).1.symm⟩
      rw [withoutPdfEndingCutting_of_cut hlength hcut,
        if_neg fun hcase ↦ h after (isPdfEnding_iff.mpr hcase) hsuffix]
    · rw [withoutPdfEndingCutting, if_neg hboundary]
      rfl

theorem artifactNameCutting_eq (name : String) :
    artifactNameCutting name = some (artifactName (some name)) := by
  rw [artifactName_eq (isPathStem_iff.mpr rfl), artifactNameCutting, withoutPdfEndingCutting_eq]
  rfl

/-! ## Files beside others -/

namespace Path

theorem trimReversed_cons {c : Char} (hslash : c ≠ '/') (hpoint : c ≠ '.') (rest : List Char) :
    trimReversed (c :: rest) = c :: rest := by
  unfold trimReversed
  split <;> simp_all

/-- The name at the end of a path is what follows its last slash. -/
theorem fileName?_of_append {path : String} {before front : List Char} {c : Char}
    (h : path.toList = before ++ (front ++ [c])) (hbefore : ∀ d ∈ before.getLast?, d = '/')
    (hfront : '/' ∉ front) (hslash : c ≠ '/') (hpoint : c ≠ '.') :
    fileName? path = some (String.ofList (front ++ [c])) := by
  have hreverse : path.toList.reverse = c :: (before ++ front).reverse := by
    rw [h, ← List.append_assoc, List.reverse_append, List.reverse_singleton,
      List.singleton_append]
  have hname : path.toList.reverse.takeWhile (fun d ↦ d != '/') = (front ++ [c]).reverse := by
    rw [h]
    refine takeWhile_reverse_append (fun d hd ↦ ?_) fun d hd ↦ by simp [hbefore d hd]
    rcases List.mem_append.mp hd with hfront' | hlast
    · exact bne_iff_ne.mpr fun heq ↦ hfront (heq ▸ hfront')
    · exact bne_iff_ne.mpr (List.mem_singleton.mp hlast ▸ hslash)
  have hlast : (Path.split path).map Prod.snd = some (String.ofList (front ++ [c])) := by
    unfold Path.split
    rw [hreverse, trimReversed_cons hslash hpoint, ← hreverse]
    split
    · next hnil => simp [hreverse] at hnil
    · next hroot => simp [hreverse, hslash] at hroot
    · rw [Option.map_some, hname, List.reverse_reverse]
  have hpoints {points : String} (hpoints : ∀ d ∈ points.toList.getLast?, d = '.') :
      String.ofList (front ++ [c]) ≠ points := by
    rintro rfl
    exact hpoint (hpoints c (by simp))
  rw [fileName?, hlast, Option.filter_some]
  refine if_pos ?_
  rw [Bool.and_eq_true, bne_iff_ne, bne_iff_ne]
  exact ⟨hpoints (by simp), hpoints (by simp)⟩

theorem toList_join (folder name : String) : ∃ before,
    (join folder name).toList = before ++ name.toList ∧ ∀ c ∈ before.getLast?, c = '/' := by
  rw [join]
  split
  · exact ⟨[], rfl, by simp⟩
  · split
    · next hslash =>
      change folder.toSlice.endsWith "/" = true at hslash
      rw [String.Slice.endsWith_string_iff, String.copy_toSlice] at hslash
      obtain ⟨before, hfolder⟩ := hslash
      refine ⟨folder.toList, String.toList_append, ?_⟩
      rw [← hfolder]
      simp
    · exact ⟨folder.toList ++ ['/'], by simp, by simp⟩

/-- A file that is put beside another is found under its own name. -/
theorem fileName?_withFileName (file : String) {name : String} {front : List Char} {c : Char}
    (h : name.toList = front ++ [c]) (hfront : '/' ∉ front) (hslash : c ≠ '/') (hpoint : c ≠ '.') :
    fileName? (withFileName file name) = some name := by
  obtain ⟨folder, hfolder⟩ : ∃ folder, withFileName file name = join folder name := by
    rw [withFileName]
    split
    · split
      · exact ⟨_, rfl⟩
      · exact ⟨_, rfl⟩
    · exact ⟨_, rfl⟩
  obtain ⟨before, hjoin, hbefore⟩ := toList_join folder name
  rw [← hfolder, h] at hjoin
  rw [fileName?_of_append hjoin hbefore hfront hslash hpoint, ← h, String.ofList_toList]

end Path

theorem fileName?_annotatedPath {file name : String} {stem : List Char}
    (h : IsPathStem name.toList stem) (hfile : Path.fileName? file = some name) :
    Path.fileName? (CommandLine.annotatedPath file none) = some (artifactName (some name)) := by
  have hname : (artifactName (some name)).toList =
      (editedPrefix stem ++ "edited".toList ++ ".pd".toList) ++ ['f'] := by
    rw [toList_artifactName h]
    simp
  have hinside : '/' ∉ editedPrefix stem ++ "edited".toList ++ ".pd".toList := by
    intro hmem
    rcases List.mem_append.mp hmem with hedited | hending
    · exact ((editedPrefix_plain h).1 '/' hedited).1 rfl
    · exact absurd hending (by decide)
  rw [CommandLine.annotatedPath, hfile]
  exact Path.fileName?_withFileName file hname hinside (by decide) (by decide)

/-- The name of a saved document is the stem of the last component of the name of its source with
`_edited.pdf` added, or the default name where the stem is empty. It has no separators in it, no cut
within a character is made for it, and it is never the name of the source, so what is written beside
a source under a name made of that of the source is written to another file. -/
theorem artifact_names_are_safe (name : String) :
    ∃ stem, (∀ s, IsPathStem name.toList s ↔ s = stem) ∧
      artifactName (some name) =
        (if stem = [] then "edited.pdf" else String.ofList (stem ++ "_edited.pdf".toList)) ∧
      (∀ c ∈ (artifactName (some name)).toList, c ≠ '/' ∧ c ≠ '\\') ∧
      "edited.pdf".toList <:+ (artifactName (some name)).toList ∧
      artifactName (some name) ≠ name ∧
      artifactNameCutting name = some (artifactName (some name)) ∧
      ∀ file, Path.fileName? file = some name → ∃ other,
        Path.fileName? (CommandLine.annotatedPath file none) = some other ∧ other ≠ name := by
  have hstem : IsPathStem name.toList _ := isPathStem_iff.mpr rfl
  have hending : ∀ c ∈ ".pdf".toList, c ≠ '/' ∧ c ≠ '\\' := by simp
  refine ⟨_, fun _ ↦ isPathStem_iff, artifactName_eq hstem, ?_, ?_, artifactName_ne hstem,
    artifactNameCutting_eq name, fun file hfile ↦
      ⟨_, fileName?_annotatedPath hstem hfile, artifactName_ne hstem⟩⟩
  · intro c hc
    rw [toList_artifactName hstem] at hc
    exact (List.mem_append.mp hc).elim ((editedPrefix_plain hstem).1 c) (hending c)
  · rw [toList_artifactName hstem, List.append_assoc]
    exact List.suffix_append _ _

/-- A document that was saved already is written to a file of its own. -/
theorem artifact_names_are_safe_edited :
    Path.fileName? "scans/é_edited.PDF" = some "é_edited.PDF" ∧ ∃ other,
      Path.fileName? (CommandLine.annotatedPath "scans/é_edited.PDF" none) = some other ∧
        other ≠ "é_edited.PDF" := by
  have hfile : Path.fileName? "scans/é_edited.PDF" = some "é_edited.PDF" := rfl
  obtain ⟨-, -, -, -, -, -, -, hbeside⟩ := artifact_names_are_safe "é_edited.PDF"
  exact ⟨hfile, hbeside _ hfile⟩

end Marginalia
