import Marginalia.Proofs.Decimal.Reading
import Marginalia.Proofs.Instant.Calendar

/-!
# Times read back

Whatever instant is written in universal time, its text is a time in the relaxed format that stored
files are read with. It is read as that instant, unless it lies in a leap second that is not the
last of its minute: then it is read as one in the next second, and no time is lost.
-/

namespace Marginalia

open Decimal

namespace Text

theorem isBlank_of_isDigit {c : Char} (h : c.isDigit = true) : isBlank c = false := by
  have hrange : 48 ≤ c.toNat ∧ c.toNat ≤ 57 := by
    simp only [Char.isDigit, Bool.and_eq_true, decide_eq_true_eq] at h
    exact h
  cases hblank : isBlank c with
  | false => rfl
  | true =>
    simp only [isBlank, Bool.or_eq_true, Bool.and_eq_true, decide_eq_true_eq, beq_iff_eq] at hblank
    omega

end Text

namespace Instant

/-- Digits are read as their number, up to their end. -/
theorem number?_append {ds rest : List Char} {least n : Nat} {most : Option Nat}
    (h : ∀ c ∈ ds, c.isDigit = true) (hrest : EndsDigits rest) (hleast : least ≤ ds.length)
    (hmost : ∀ bound, most = some bound → ds.length ≤ bound) (hvalue : ofDigits? ds = some n) :
    number? least most (ds ++ rest) = some (n, rest) := by
  unfold number?
  simp only [takeWhile_isDigit h hrest]
  cases most with
  | none =>
    dsimp only
    rw [if_neg (by omega), hvalue, List.drop_left]
    rfl
  | some bound =>
    simp only [List.take_of_length_le (hmost bound rfl)]
    rw [if_neg (by omega), hvalue, List.drop_left]
    rfl

theorem bind_eq_of_eq {α β : Type} {x : Option α} {f : α → Option β} {a : α} {b : β}
    (hx : x = some a) (hf : f a = some b) : (x >>= f) = some b := by
  rw [hx]
  exact hf

/-- Two digits are read as a part of a time. -/
theorem relaxedPair?_append {n : Nat} (hn : n < 100) {rest : List Char} (hrest : EndsDigits rest) :
    relaxedPair? (paddedDigits 2 n ++ rest) = some (n, rest) := by
  have hdigits : ∀ c ∈ paddedDigits 2 n, c.isDigit = true := fun _ ↦ isDigit_of_mem_paddedDigits
  have hvalue : ofDigits? (paddedDigits 2 n) = some n :=
    ofDigits?_paddedDigits_of_lt (by decide) hn
  obtain ⟨c, cs, hcons, hc⟩ := exists_cons_paddedDigits (by decide : 2 ≠ 0) n
  rw [relaxedPair?, hcons, List.cons_append, Text.trimStart_cons (Text.isBlank_of_isDigit hc),
    ← List.cons_append, ← hcons]
  exact number?_append hdigits hrest (by simp) (by simp) hvalue

/-- Zeros before a number do not change it. -/
theorem readOn_zeros (zeros : Nat) (cs : List Char) :
    readOn (some 0) (List.replicate zeros '0' ++ cs) = readOn (some 0) cs := by
  induction zeros with
  | zero => rfl
  | succ zeros ih => exact ih

/-- A year of four digits has no sign. -/
theorem relaxedYear?_paddedDigits {year : Nat} (hyear : year < 10000) {rest : List Char}
    (hrest : EndsDigits rest) :
    relaxedYear? (paddedDigits 4 year ++ rest) = some ((year : Int), rest) := by
  have hvalue : ofDigits? (paddedDigits 4 year) = some year :=
    ofDigits?_paddedDigits_of_lt (by decide) hyear
  have hread : number? 1 (some 4) (paddedDigits 4 year ++ rest) = some (year, rest) :=
    number?_append (fun _ ↦ isDigit_of_mem_paddedDigits) hrest (by simp) (by simp) hvalue
  obtain ⟨c, cs, hcons, hc⟩ := exists_cons_paddedDigits (by decide : 4 ≠ 0) year
  rw [hcons, List.cons_append] at hread ⊢
  rw [relaxedYear?, Text.trimStart_cons (Text.isBlank_of_isDigit hc)]
  split
  · next heq => rw [List.head_eq_of_cons_eq heq] at hc; cases hc
  · next heq => rw [List.head_eq_of_cons_eq heq] at hc; cases hc
  · rw [hread]
    rfl

/-- A year is read from its text, whatever its sign and however many digits it has. -/
theorem relaxedYear?_yearText (year : Int) {rest : List Char} (hrest : EndsDigits rest) :
    relaxedYear? (yearText year ++ rest) = some (year, rest) := by
  rw [yearText]
  split
  · next hshort =>
    rw [relaxedYear?_paddedDigits (by omega) hrest, Int.toNat_of_nonneg hshort.1]
  · have hdigits : ∀ c ∈ List.replicate (4 - (digits year.natAbs).length) '0' ++
        digits year.natAbs, c.isDigit = true := by
      intro c hc
      rcases List.mem_append.mp hc with hmem | hmem
      · rw [List.eq_of_mem_replicate hmem]
        rfl
      · exact isDigit_of_mem_digits hmem
    have hne : List.replicate (4 - (digits year.natAbs).length) '0' ++ digits year.natAbs ≠ [] :=
      fun hnil ↦ digits_ne_nil _ (List.append_eq_nil_iff.mp hnil).2
    have hread : number? 1 none (List.replicate (4 - (digits year.natAbs).length) '0' ++
        digits year.natAbs ++ rest) = some (year.natAbs, rest) :=
      number?_append hdigits hrest (List.length_pos_iff.mpr hne) (by simp)
        (by rw [ofDigits?_eq hne, readOn_zeros, readOn_digits])
    dsimp only
    by_cases hnegative : year < 0
    · rw [if_pos hnegative, relaxedYear?, List.cons_append, List.cons_append,
        Text.trimStart_cons rfl]
      simp only [hread, Option.map_some]
      rw [show -(year.natAbs : Int) = year by omega]
    · rw [if_neg hnegative, relaxedYear?, List.cons_append, List.cons_append,
        Text.trimStart_cons rfl]
      simp only [hread, Option.map_some]
      rw [show (year.natAbs : Int) = year by omega]

/-- A fraction is read as the nanoseconds of a second. -/
theorem fraction?_fractionText (nano : Nat) {rest : List Char} (hrest : EndsDigits rest)
    (hpoint : rest.head? ≠ some '.') :
    fraction? (fractionText nano ++ rest) = some (nano % 1000000000, rest) := by
  have hpadded : ∀ width n, 0 < width → width ≤ 9 →
      fraction? ('.' :: paddedDigits width n ++ rest) =
        some (n % Nat.pow 10 width * Nat.pow 10 (9 - width), rest) := by
    intro width n hpos hwidth
    rw [List.cons_append, fraction?, takeWhile_isDigit (fun _ ↦ isDigit_of_mem_paddedDigits) hrest,
      List.take_of_length_le (by rw [length_paddedDigits]; exact hwidth),
      ofDigits?_paddedDigits (Nat.ne_of_gt hpos), length_paddedDigits]
    have hdrop : (paddedDigits width n ++ rest).drop width = rest := by
      rw [List.drop_append_of_le_length (by simp), List.drop_of_length_le (by simp),
        List.nil_append]
    exact congrArg (fun rest ↦ some (n % Nat.pow 10 width * Nat.pow 10 (9 - width), rest)) hdrop
  have hscale : Nat.pow 10 3 = 1000 ∧ Nat.pow 10 6 = 1000000 ∧ Nat.pow 10 9 = 1000000000 := by
    decide
  obtain ⟨hthree, hsix, hnine⟩ := hscale
  rw [fractionText]
  split
  · next hzero =>
    rw [List.nil_append, fraction?.eq_def, hzero]
    split
    · exact absurd rfl hpoint
    · rfl
  split
  · rw [hpadded 3 _ (by decide) (by decide), hthree, hsix]
    exact congrArg (fun n ↦ some (n, rest)) (by omega)
  split
  · rw [hpadded 6 _ (by decide) (by decide), hsix, hthree]
    exact congrArg (fun n ↦ some (n, rest)) (by omega)
  · rw [hpadded 9 _ (by decide) (by decide), hnine]
    exact congrArg (fun n ↦ some (n, rest)) (Nat.mul_one _)

theorem ofParts?_eq {date : CivilDate} (hdate : date.isValid = true) {hour minute second : Nat}
    (hhour : hour < 24) (hminute : minute < 60) (hsecond : second < 61) (nano : Nat)
    (offset : Int) : ofParts? date hour minute second nano offset =
      some ⟨date.toDays * 86400 +
          ((hour * 3600 + minute * 60 + if second = 60 then 59 else second : Nat) : Int) - offset,
        if second = 60 then nano + 1000000000 else nano⟩ := by
  rw [ofParts?, hdate]
  simp only [Bool.not_true, Bool.false_or, Bool.or_eq_true, decide_eq_true_eq]
  rw [if_neg (by omega)]
  by_cases hleap : second = 60 <;> simp [hleap]

theorem daysInMonth_le (year : Int) (month : Nat) : CivilDate.daysInMonth year month ≤ 31 := by
  unfold CivilDate.daysInMonth
  repeat' split
  all_goals decide

theorem endsDigits_fractionText (nano : Nat) {rest : List Char} (hrest : EndsDigits rest) :
    EndsDigits (fractionText nano ++ rest) := by
  rw [fractionText]
  split
  · exact hrest
  repeat' split
  all_goals exact endsDigits_cons rfl _

/-- The instant that is read from the text of an instant. A leap second can only be told by its text
if it is the last of its minute, and is read as the second after it otherwise. -/
def asRead (t : Instant) : Instant :=
  if t.nano < 1000000000 then t
  else if t.second % 60 = 59 then ⟨t.second, t.nano % 1000000000 + 1000000000⟩
  else ⟨t.second + 1, t.nano % 1000000000⟩

/-- The parts of the text of an instant make the instant that is read. -/
theorem asRead_eq (t : Instant) {daySecond second nano : Nat}
    (hdaySecond : (daySecond : Int) = t.second % 86400)
    (hsecond : second = daySecond % 60 + if 1000000000 ≤ t.nano then 1 else 0)
    (hnano : nano = if 1000000000 ≤ t.nano then t.nano - 1000000000 else t.nano) :
    t.asRead = ⟨t.second / 86400 * 86400 + ((daySecond / 3600 * 3600 +
        daySecond / 60 % 60 * 60 + if second = 60 then 59 else second : Nat) : Int) - 0,
      if second = 60 then nano % 1000000000 + 1000000000 else nano % 1000000000⟩ := by
  rw [asRead]
  by_cases hplain : t.nano < 1000000000
  · rw [if_neg (by omega), Nat.add_zero] at hsecond
    rw [if_neg (by omega)] at hnano
    rw [if_pos hplain, if_neg (by omega), if_neg (by omega)]
    exact congrArg₂ Instant.mk (by omega) (by omega)
  · rw [if_pos (by omega)] at hsecond hnano
    rw [if_neg hplain]
    by_cases hlast : t.second % 60 = 59
    · rw [if_pos hlast, if_pos (by omega), if_pos (by omega)]
      exact congrArg₂ Instant.mk (by omega) (by omega)
    · rw [if_neg hlast, if_neg (by omega), if_neg (by omega)]
      exact congrArg₂ Instant.mk (by omega) (by omega)

/-- The text of an instant is a time. -/
theorem parseRelaxed?_text (t : Instant) : parseRelaxed? (t.text .zulu) = some t.asRead := by
  obtain ⟨daySecond, hdaySecond⟩ : ∃ n, n = (t.second.fmod 86400).toNat := ⟨_, rfl⟩
  have hfmod : (t.second.fmod 86400 : Int) = t.second % 86400 :=
    Int.fmod_eq_emod_of_nonneg _ (by decide)
  have hfdiv : t.second.fdiv 86400 = t.second / 86400 :=
    Int.fdiv_eq_ediv_of_nonneg _ (by decide)
  have hbound : daySecond < 86400 := by omega
  obtain ⟨date, hdate⟩ : ∃ date, date = CivilDate.ofDays (t.second.fdiv 86400) := ⟨_, rfl⟩
  have hvalid : date.isValid = true := hdate ▸ CivilDate.isValid_ofDays _
  have hdays : date.toDays = t.second / 86400 := by
    rw [hdate, CivilDate.toDays_ofDays, hfdiv]
  have hparts : date.month < 100 ∧ date.day < 100 := by
    simp only [CivilDate.isValid, Bool.and_eq_true, decide_eq_true_eq] at hvalid
    have := daysInMonth_le date.year date.month
    omega
  obtain ⟨second, hsecond⟩ : ∃ n, n = daySecond % 60 + if 1000000000 ≤ t.nano then 1 else 0 :=
    ⟨_, rfl⟩
  have hseconds : second < 61 := by
    rw [hsecond]
    split <;> omega
  obtain ⟨nano, hnano⟩ : ∃ n, n = if 1000000000 ≤ t.nano then t.nano - 1000000000 else t.nano :=
    ⟨_, rfl⟩
  have hend : EndsDigits ['Z'] := endsDigits_cons rfl []
  have htext : (t.text .zulu).toList = yearText date.year ++ '-' :: (paddedDigits 2 date.month ++
      '-' :: (paddedDigits 2 date.day ++ 'T' :: (paddedDigits 2 (daySecond / 3600) ++
        ':' :: (paddedDigits 2 (daySecond / 60 % 60) ++
          ':' :: (paddedDigits 2 second ++ (fractionText nano ++ ['Z'])))))) := by
    rw [text, String.toList_ofList, hdate, hsecond, hnano, hdaySecond]
    simp only [List.append_assoc, List.cons_append, ZoneMark.text]
  have hdash : ∀ rest, EndsDigits ('-' :: rest) := endsDigits_cons rfl
  have hmark : ∀ rest, EndsDigits ('T' :: rest) := endsDigits_cons rfl
  have hcolon : ∀ rest, EndsDigits (':' :: rest) := endsDigits_cons rfl
  have hfractions := endsDigits_fractionText nano hend
  have hread : ofParts? date (daySecond / 3600) (daySecond / 60 % 60) second (nano % 1000000000) 0 =
      some t.asRead := by
    rw [ofParts?_eq hvalid (by omega) (by omega) hseconds, hdays,
      asRead_eq t (by omega) hsecond hnano]
  rw [parseRelaxed?, htext]
  refine bind_eq_of_eq (relaxedYear?_yearText _ (hdash _)) ?_
  refine bind_eq_of_eq rfl ?_
  refine bind_eq_of_eq (relaxedPair?_append hparts.1 (hdash _)) ?_
  refine bind_eq_of_eq rfl ?_
  refine bind_eq_of_eq (relaxedPair?_append hparts.2 (hmark _)) ?_
  refine bind_eq_of_eq rfl ?_
  refine (if_neg (by decide)).trans ?_
  refine bind_eq_of_eq (relaxedPair?_append (by omega) (hcolon _)) ?_
  refine bind_eq_of_eq rfl ?_
  refine bind_eq_of_eq (relaxedPair?_append (by omega) (hcolon _)) ?_
  refine bind_eq_of_eq rfl ?_
  refine bind_eq_of_eq (relaxedPair?_append (by omega) hfractions) ?_
  refine bind_eq_of_eq (fraction?_fractionText nano hend (by decide)) ?_
  refine (if_neg (by decide)).trans ?_
  refine bind_eq_of_eq (a := (0, [])) rfl ?_
  refine (if_neg (by decide)).trans ?_
  exact hread

/-! ## What is read against what was written -/

/-- The fraction of an instant is less than that of the end of a leap second. -/
def IsProper (t : Instant) : Prop := t.nano < 2000000000

instance (t : Instant) : Decidable t.IsProper := inferInstanceAs (Decidable (_ < _))

/-- An instant is not read as an earlier one. -/
theorem asRead_lt {t : Instant} (ht : t.IsProper) : t.asRead.lt t = false := by
  rw [IsProper] at ht
  unfold asRead
  split
  · simp [lt]
  split
  · simp only [lt, Int.lt_irrefl, decide_false, beq_self_eq_true, Bool.true_and, Bool.false_or,
      decide_eq_false_iff_not]
    omega
  · simp only [lt, Bool.or_eq_false_iff, Bool.and_eq_false_iff, decide_eq_false_iff_not,
      beq_eq_false_iff_ne]
    omega

/-- No time has gone by between an instant that is read and that instant itself. -/
theorem toNat_since_asRead {t : Instant} (ht : t.IsProper) : (t.since t.asRead).toNat = 0 := by
  have hday : ∀ t : Instant, t.daySecond = t.second % 86400 := fun t ↦
    Int.fmod_eq_emod_of_nonneg _ (by decide)
  rw [IsProper] at ht
  unfold asRead since
  simp only [hday, toNanos]
  split
  · rw [if_neg (by omega), if_neg (by omega)]
    omega
  split
  · dsimp only
    rw [if_neg (by omega), if_neg (by omega)]
    omega
  · -- The second that is read is on the same day, since it is not the first of its minute.
    dsimp only
    rw [if_neg (by omega), if_pos (by omega)]
    omega

end Instant

end Marginalia
