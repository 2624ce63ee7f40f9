/-!
# Splitting text

The first occurrence of a pattern cuts a text into what comes before it and what comes after it;
cutting at every occurrence of a character gives the fields between them, empty ones included.
-/

namespace Marginalia.Text

/-- What follows `pattern` when the text starts with it. -/
def dropPrefix? : (pattern s : List Char) → Option (List Char)
  | [], s => some s
  | _ :: _, [] => none
  | p :: ps, c :: cs => if p = c then dropPrefix? ps cs else none

/-- The text before and after the first occurrence of `pattern`. -/
def splitAtFirst? (pattern : List Char) : List Char → Option (List Char × List Char)
  | [] => if pattern.isEmpty then some ([], []) else none
  | c :: cs =>
    match dropPrefix? pattern (c :: cs) with
    | some after => some ([], after)
    | none => (splitAtFirst? pattern cs).map fun (before, after) ↦ (c :: before, after)

/-- Whether `pattern` occurs in the text. -/
def hasInfix (pattern s : List Char) : Bool :=
  (splitAtFirst? pattern s).isSome

/-- The fields between the characters that satisfy `separator`; there is always at least one. -/
def fields (separator : Char → Bool) : List Char → List (List Char)
  | [] => [[]]
  | c :: cs =>
    if separator c then [] :: fields separator cs
    else
      match fields separator cs with
      | [] => [[c]]
      | field :: rest => (c :: field) :: rest

theorem dropPrefix?_eq_some_iff {pattern s rest : List Char} :
    dropPrefix? pattern s = some rest ↔ s = pattern ++ rest := by
  induction pattern generalizing s with
  | nil => simp [dropPrefix?, eq_comm]
  | cons p ps ih =>
    cases s with
    | nil => simp [dropPrefix?]
    | cons c cs =>
      by_cases h : p = c
      · subst h
        simp [dropPrefix?, ih]
      · simp [dropPrefix?, h, Ne.symm h]

/-- A cut loses nothing but the pattern it cut at. -/
theorem eq_of_splitAtFirst? {pattern s before after : List Char}
    (h : splitAtFirst? pattern s = some (before, after)) : s = before ++ pattern ++ after := by
  induction s generalizing before with
  | nil =>
    cases pattern with
    | nil => simp [splitAtFirst?] at h; simp [h]
    | cons p ps => simp [splitAtFirst?] at h
  | cons c cs ih =>
    rw [splitAtFirst?] at h
    split at h
    · next rest hrest =>
      obtain ⟨rfl, rfl⟩ : [] = before ∧ rest = after := by simpa using h
      simpa using dropPrefix?_eq_some_iff.1 hrest
    · obtain ⟨⟨b, a⟩, hcut, hpair⟩ := Option.map_eq_some_iff.1 h
      obtain ⟨rfl, rfl⟩ : c :: b = before ∧ a = after := by simpa using hpair
      simp [ih hcut]

end Marginalia.Text
