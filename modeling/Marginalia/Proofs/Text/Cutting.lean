import Mathlib.Data.List.TakeWhile
import Marginalia.Text.Split

/-!
# Where a text is cut

A search for a pattern finds the first place where it stands, also where occurrences overlap, and
finds one wherever there is one. Fields are what a list cut at its separators consists of, and what
is taken from a text up to a character is the longest run of other characters.
-/

namespace Marginalia.Text

/-- A text is cut around the first occurrence of a pattern: no other begins before it. -/
structure IsFirstCut (pattern s before after : List Char) : Prop where
  eq : s = before ++ pattern ++ after
  first : ∀ before' after', s = before' ++ pattern ++ after' → before.length ≤ before'.length

/-- The longest run of characters with a property at the start of a text. -/
structure IsLongestRun (p : Char → Prop) (s run : List Char) : Prop where
  start : run <+: s
  all : ∀ c ∈ run, p c
  longest : ∀ run', run' <+: s → (∀ c ∈ run', p c) → run'.length ≤ run.length

/-! ## The first occurrence -/

section
variable {pattern s before after : List Char}

theorem IsFirstCut.unique {before' after' : List Char} (h : IsFirstCut pattern s before after)
    (h' : IsFirstCut pattern s before' after') : before = before' ∧ after = after' := by
  have hlength : before.length = before'.length :=
    Nat.le_antisymm (h.first _ _ h'.eq) (h'.first _ _ h.eq)
  have heq : before ++ (pattern ++ after) = before' ++ (pattern ++ after') := by
    rw [← List.append_assoc, ← List.append_assoc, ← h.eq, ← h'.eq]
  obtain ⟨hbefore, hrest⟩ := List.append_inj heq hlength
  exact ⟨hbefore, List.append_cancel_left hrest⟩

theorem IsFirstCut.cons {c : Char} (h : IsFirstCut pattern s before after)
    (hnot : ¬ pattern <+: c :: s) : IsFirstCut pattern (c :: s) (c :: before) after := by
  refine ⟨congrArg (List.cons c) h.eq, fun before' after' heq ↦ ?_⟩
  cases before' with
  | nil => exact absurd ⟨after', heq.symm⟩ hnot
  | cons d before' =>
    have hs : s = before' ++ pattern ++ after' := (List.cons.inj heq).2
    exact Nat.succ_le_succ (h.first before' after' hs)

theorem dropPrefix?_eq_none_iff : dropPrefix? pattern s = none ↔ ¬ pattern <+: s := by
  rw [Option.eq_none_iff_forall_ne_some]
  constructor
  · rintro h ⟨rest, heq⟩
    exact h rest (dropPrefix?_eq_some_iff.mpr heq.symm)
  · intro h rest heq
    exact h ⟨rest, (dropPrefix?_eq_some_iff.mp heq).symm⟩

/-- A search that fails has passed over no occurrence. -/
theorem splitAtFirst?_eq_none_iff : splitAtFirst? pattern s = none ↔ ¬ pattern <:+: s := by
  induction s with
  | nil => cases pattern <;> simp [splitAtFirst?]
  | cons c cs ih =>
    rw [splitAtFirst?, List.infix_cons_iff, not_or, ← dropPrefix?_eq_none_iff, ← ih]
    cases dropPrefix? pattern (c :: cs) <;> simp

theorem isFirstCut_of_splitAtFirst? (h : splitAtFirst? pattern s = some (before, after)) :
    IsFirstCut pattern s before after := by
  induction s generalizing before with
  | nil =>
    refine ⟨eq_of_splitAtFirst? h, fun before' _ _ ↦ ?_⟩
    have hbefore := congrArg List.length (eq_of_splitAtFirst? h)
    simp only [List.length_nil, List.length_append] at hbefore
    omega
  | cons c cs ih =>
    rw [splitAtFirst?] at h
    split at h
    · next rest hrest =>
      obtain ⟨rfl, rfl⟩ : [] = before ∧ rest = after := by simpa using h
      exact ⟨dropPrefix?_eq_some_iff.mp hrest, fun _ _ _ ↦ Nat.zero_le _⟩
    · next hnone =>
      obtain ⟨⟨b, a⟩, hcut, hpair⟩ := Option.map_eq_some_iff.mp h
      obtain ⟨rfl, rfl⟩ : c :: b = before ∧ a = after := by simpa using hpair
      exact (ih hcut).cons (dropPrefix?_eq_none_iff.mp hnone)

/-- A search for a pattern finds its first occurrence, and there is one to find wherever the pattern
occurs. -/
theorem splitAtFirst?_eq_some_iff :
    splitAtFirst? pattern s = some (before, after) ↔ IsFirstCut pattern s before after := by
  refine ⟨isFirstCut_of_splitAtFirst?, fun h ↦ ?_⟩
  cases hcut : splitAtFirst? pattern s with
  | none => exact absurd ⟨before, after, h.eq.symm⟩ (splitAtFirst?_eq_none_iff.mp hcut)
  | some cut =>
    obtain ⟨before', after'⟩ := cut
    obtain ⟨rfl, rfl⟩ := h.unique (isFirstCut_of_splitAtFirst? hcut)
    rfl

theorem hasInfix_iff : hasInfix pattern s = true ↔ pattern <:+: s := by
  rw [← not_iff_not, ← splitAtFirst?_eq_none_iff, hasInfix]
  cases splitAtFirst? pattern s <;> simp

theorem isFirstCut_of_notMem {p : Char} (h : p ∉ before) (pattern after : List Char) :
    IsFirstCut (p :: pattern) (before ++ (p :: pattern ++ after)) before after := by
  induction before with
  | nil => exact ⟨rfl, fun _ _ _ ↦ Nat.zero_le _⟩
  | cons c cs ih =>
    obtain ⟨hc, hcs⟩ := List.ne_and_not_mem_of_not_mem_cons h
    exact (ih hcs).cons fun ⟨_, heq⟩ ↦ hc (List.cons.inj heq).1

/-- A pattern is found where its first character stands for the first time. -/
theorem splitAtFirst?_append {p : Char} (h : p ∉ before) (pattern after : List Char) :
    splitAtFirst? (p :: pattern) (before ++ (p :: pattern ++ after)) = some (before, after) :=
  splitAtFirst?_eq_some_iff.mpr (isFirstCut_of_notMem h pattern after)

end

/-! ## Fields and runs -/

/-- The fields of a text are the parts of a list cut at its separators. -/
theorem fields_eq_splitOnP (separator : Char → Bool) (s : List Char) :
    fields separator s = s.splitOnP separator := by
  induction s with
  | nil => rw [fields, List.splitOnP_nil]
  | cons c cs ih =>
    rw [fields, List.splitOnP_cons_eq_if_modifyHead, ih]
    split
    · rfl
    · cases hcs : cs.splitOnP separator with
      | nil => exact absurd hcs (List.splitOnP_ne_nil separator cs)
      | cons field rest => rfl

/-- A text is cut at a separator whatever stands around it. -/
theorem fields_append {separator : Char → Bool} {s : Char} (h : separator s = true)
    (before after : List Char) :
    fields separator (before ++ s :: after) =
      fields separator before ++ fields separator after := by
  rw [fields_eq_splitOnP, fields_eq_splitOnP, fields_eq_splitOnP, List.splitOnP_append_cons _ _ h]

theorem fields_of_forall {separator : Char → Bool} {s : List Char}
    (h : ∀ c ∈ s, separator c = false) : fields separator s = [s] := by
  rw [fields_eq_splitOnP, List.splitOnP_eq_singleton h]

/-- There is one longest run, and it is found by going through the text from its start. -/
theorem isLongestRun_iff {p : Char → Prop} {q : Char → Bool} (h : ∀ c, p c ↔ q c = true)
    {s run : List Char} : IsLongestRun p s run ↔ run = s.takeWhile q := by
  have htake : IsLongestRun p s (s.takeWhile q) := by
    refine ⟨List.takeWhile_prefix q, fun c hc ↦ (h c).mpr (List.mem_takeWhile_imp hc), ?_⟩
    rintro run' ⟨rest, rfl⟩ hall
    rw [List.takeWhile_append_of_pos fun c hc ↦ (h c).mp (hall c hc), List.length_append]
    exact Nat.le_add_right _ _
  constructor
  · intro hrun
    have hle := htake.longest run hrun.start hrun.all
    have hge := hrun.longest _ htake.start htake.all
    exact (List.prefix_of_prefix_length_le hrun.start htake.start hle).eq_of_length
      (Nat.le_antisymm hle hge)
  · rintro rfl
    exact htake

end Marginalia.Text
