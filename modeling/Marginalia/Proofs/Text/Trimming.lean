import Mathlib.Data.List.TakeWhile
import Marginalia.Text.Blank

/-!
# Trimmed texts

Trimming cuts blanks off, at either end, and stops at the first character from there that is none.
-/

namespace Marginalia.Text

/-- A text without the blanks around it: there is nothing but blanks before and after it, and it
neither begins nor ends with one. -/
structure IsTrimmed (s trimmed : List Char) : Prop where
  around : ∃ before after, s = before ++ trimmed ++ after ∧
    (∀ c ∈ before, isBlank c = true) ∧ ∀ c ∈ after, isBlank c = true
  start : ∀ c ∈ trimmed.head?, isBlank c = false
  stop : ∀ c ∈ trimmed.getLast?, isBlank c = false

theorem trimStart_append {before s : List Char} (h : ∀ c ∈ before, isBlank c = true)
    (hs : ∀ c ∈ s.head?, isBlank c = false) : trimStart (before ++ s) = s := by
  rw [trimStart, List.dropWhile_append_of_pos h]
  cases s with
  | nil => rfl
  | cons c rest => exact trimStart_cons (hs c rfl) rest

theorem trimEnd_append {s after : List Char} (h : ∀ c ∈ after, isBlank c = true)
    (hs : ∀ c ∈ s.getLast?, isBlank c = false) : trimEnd (s ++ after) = s := by
  have hafter : ∀ c ∈ after.reverse, isBlank c = true := by simpa using h
  rw [trimEnd, List.reverse_append]
  have hstart := trimStart_append hafter (s := s.reverse) (by simpa using hs)
  rw [trimStart] at hstart
  rw [hstart, List.reverse_reverse]

theorem head?_dropWhile {s : List Char} : ∀ c ∈ (s.dropWhile isBlank).head?, isBlank c = false := by
  intro c hc
  have hnot := List.head?_dropWhile_not isBlank s
  rw [hc] at hnot
  exact hnot

theorem isTrimmed_trim (s : List Char) : IsTrimmed s (trim s) := by
  have hstart : s = s.takeWhile isBlank ++ trimStart s := List.takeWhile_append_dropWhile.symm
  have hstop : trimStart s = trim s ++ ((trimStart s).reverse.takeWhile isBlank).reverse := by
    rw [trim, trimEnd, ← List.reverse_append, List.takeWhile_append_dropWhile, List.reverse_reverse]
  refine ⟨⟨s.takeWhile isBlank, ((trimStart s).reverse.takeWhile isBlank).reverse, ?_, ?_, ?_⟩,
    ?_, ?_⟩
  · rw [List.append_assoc, ← hstop]
    exact hstart
  · exact fun c hc ↦ (List.mem_takeWhile_imp hc)
  · exact fun c hc ↦ List.mem_takeWhile_imp (List.mem_reverse.mp hc)
  · intro c hc
    refine head?_dropWhile (s := s) c ?_
    rw [← trimStart, hstop, List.head?_append, hc]
    rfl
  · intro c hc
    rw [trim, trimEnd, List.getLast?_reverse] at hc
    exact head?_dropWhile c hc

/-- There is one text without the blanks around it, and trimming finds it. -/
theorem isTrimmed_iff {s trimmed : List Char} : IsTrimmed s trimmed ↔ trimmed = trim s := by
  constructor
  · rintro ⟨⟨before, after, rfl, hbefore, hafter⟩, hstart, hstop⟩
    cases trimmed with
    | nil =>
      have hblank : trimStart (before ++ [] ++ after) = [] := by
        rw [List.append_nil, trimStart, List.dropWhile_append_of_pos hbefore]
        exact List.dropWhile_eq_nil_iff.mpr hafter
      rw [trim, hblank]
      rfl
    | cons c rest =>
      rw [List.append_assoc, trim, trimStart_append (s := c :: rest ++ after) hbefore hstart,
        trimEnd_append hafter hstop]
  · rintro rfl
    exact isTrimmed_trim s

/-- Of a text of blanks nothing is left, and of no other text. -/
theorem trim_eq_nil_iff {s : List Char} : trim s = [] ↔ ∀ c ∈ s, isBlank c = true := by
  constructor
  · intro hnil c hc
    obtain ⟨before, after, hs, hbefore, hafter⟩ := (isTrimmed_trim s).around
    rw [hnil, List.append_nil] at hs
    rw [hs, List.mem_append] at hc
    exact hc.elim (hbefore c) (hafter c)
  · intro hblank
    have h : IsTrimmed s [] := ⟨⟨s, [], by simp, hblank, by simp⟩, by simp, by simp⟩
    exact (isTrimmed_iff.mp h).symm

/-- Trimming takes away, and adds nothing. -/
theorem mem_of_mem_trim {s : List Char} {c : Char} (h : c ∈ trim s) : c ∈ s := by
  obtain ⟨before, after, hs, -⟩ := (isTrimmed_trim s).around
  rw [hs]
  simp [h]

end Marginalia.Text
