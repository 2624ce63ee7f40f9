import Mathlib.Tactic.IntervalCases
import Marginalia.Instant

/-!
# Days of the calendar

Whatever number of days is counted from the start of 1970, the calendar has the day, and the number
is found again from it. Within an era of 400 years, which begins in March, a day lies in a century,
in four years of it, and in one of these; the last day of that year is a leap day only if the four
years end in a leap year.
-/

namespace Marginalia.CivilDate

/-- Where a day lies in an era: the century, the four years in it, the year of these, and the day of
the year. The last of four years has a day more, unless it ends a century that is not the last. -/
structure EraDay (day century quad year dayOfYear : Int) : Prop where
  eq : day = 36524 * century + 1461 * quad + 365 * year + dayOfYear
  century_le : 0 ≤ century ∧ century ≤ 3
  quad_le : 0 ≤ quad ∧ quad ≤ 24
  year_le : 0 ≤ year ∧ year ≤ 3
  dayOfYear_le : 0 ≤ dayOfYear ∧ dayOfYear ≤ 365
  leap : dayOfYear = 365 → year = 3 ∧ (quad = 24 → century = 3)

theorem exists_eraDay {day : Int} (h : 0 ≤ day ∧ day < 146097) :
    ∃ century quad year dayOfYear, EraDay day century quad year dayOfYear := by
  -- The last century, like the last of four years, takes one more day than the division gives it.
  obtain ⟨century, hcentury⟩ : ∃ century, century = min (day / 36524) 3 := ⟨_, rfl⟩
  obtain ⟨quad, hquad⟩ : ∃ quad, quad = (day - 36524 * century) / 1461 := ⟨_, rfl⟩
  obtain ⟨year, hyear⟩ : ∃ year, year = min ((day - 36524 * century - 1461 * quad) / 365) 3 :=
    ⟨_, rfl⟩
  refine ⟨century, quad, year, day - 36524 * century - 1461 * quad - 365 * year, ?_⟩
  constructor <;> omega

namespace EraDay

variable {day century quad year dayOfYear : Int} (h : EraDay day century quad year dayOfYear)
include h

/-- The year of the era, as `ofDays` computes it. -/
theorem yearOfEra_eq : (day - day / 1460 + day / 36524 - day / 146096) / 365 =
    100 * century + 4 * quad + year := by
  obtain ⟨hday, hcentury, hquad, hyear, hdayOfYear, hleap⟩ := h
  have hbound : 1461 * quad + 365 * year + dayOfYear ≤ 36523 ∨
      1461 * quad + 365 * year + dayOfYear = 36524 ∧ century = 3 := by
    by_cases hlast : dayOfYear = 365
    · have := hleap hlast
      omega
    · omega
  have hcenturies : day / 36524 - day / 146096 = century := by
    have hcases : century = 0 ∨ century = 1 ∨ century = 2 ∨ century = 3 := by omega
    rcases hcases with rfl | rfl | rfl | rfl <;> omega
  obtain ⟨extra, hextra⟩ : ∃ extra, day / 1460 = 25 * century + quad + extra :=
    ⟨day / 1460 - 25 * century - quad, by omega⟩
  omega

theorem dayOfYear_eq : day - (365 * (100 * century + 4 * quad + year) +
    (100 * century + 4 * quad + year) / 4 - (100 * century + 4 * quad + year) / 100) =
      dayOfYear := by
  obtain ⟨hday, hcentury, hquad, hyear, -, -⟩ := h
  have hquads : (100 * century + 4 * quad + year) / 4 = 25 * century + quad := by omega
  have hcenturies : (100 * century + 4 * quad + year) / 100 = century := by omega
  omega

/-- The day after the end of a year of 365 days is a leap day. -/
theorem isLeapYear_of_last (hlast : dayOfYear = 365) (era : Int) :
    isLeapYear (100 * century + 4 * quad + year + era * 400 + 1) = true := by
  obtain ⟨-, hcentury, hquad, -, -, hleap⟩ := h
  obtain ⟨rfl, hend⟩ := hleap hlast
  simp only [isLeapYear, Bool.and_eq_true, Bool.or_eq_true, beq_iff_eq, bne_iff_ne]
  omega

end EraDay

/-- The month of a day of the year, counted from March. -/
def monthFromMarch (dayOfYear : Int) : Int := (5 * dayOfYear + 2) / 153

/-- The number of a month counted from March. -/
def monthOf (monthFromMarch : Int) : Int :=
  if monthFromMarch < 10 then monthFromMarch + 3 else monthFromMarch - 9

/-- The day of the month. -/
def dayOf (dayOfYear : Int) : Int :=
  dayOfYear - (153 * monthFromMarch dayOfYear + 2) / 5 + 1

/-- Only the last day of the year depends on the year: it is the leap day. -/
theorem isValid_of_dayOfYear {dayOfYear : Int} (h : 0 ≤ dayOfYear ∧ dayOfYear ≤ 365) (year : Int)
    (hleap : dayOfYear = 365 → isLeapYear year = true) :
    isValid ⟨year, (monthOf (monthFromMarch dayOfYear)).toNat, (dayOf dayOfYear).toNat⟩ =
      true := by
  obtain ⟨month, hmonth⟩ : ∃ month, monthFromMarch dayOfYear = month := ⟨_, rfl⟩
  have hbounds : 153 * month ≤ 5 * dayOfYear + 2 ∧ 5 * dayOfYear + 2 < 153 * month + 153 := by
    rw [← hmonth, monthFromMarch]
    omega
  have hrange : 0 ≤ month ∧ month ≤ 11 := by omega
  rw [dayOf, hmonth]
  simp only [isValid, Bool.and_eq_true, decide_eq_true_eq]
  obtain ⟨hfrom, hto⟩ := hrange
  interval_cases month
  case «11» =>
    -- February comes last and has its 29th day in leap years only.
    by_cases hlast : dayOfYear = 365
    · simp [monthOf, daysInMonth, hleap hlast, hlast]
    · have hshort : 28 ≤ daysInMonth year 2 := by
        simp only [daysInMonth, if_pos]
        split <;> decide
      refine ⟨⟨⟨by decide, by decide⟩, by omega⟩, ?_⟩
      exact Nat.le_trans (by omega) hshort
  all_goals
    simp [monthOf, daysInMonth]
    omega

/-- The day of an era that a number of days from the start of 1970 falls on, and the date of it. -/
theorem exists_ofDays_eq (days : Int) :
    ∃ era day century quad year dayOfYear, days + 719468 = era * 146097 + day ∧
      EraDay day century quad year dayOfYear ∧
      ofDays days = ⟨100 * century + 4 * quad + year + era * 400 +
          if monthOf (monthFromMarch dayOfYear) ≤ 2 then 1 else 0,
        (monthOf (monthFromMarch dayOfYear)).toNat, (dayOf dayOfYear).toNat⟩ := by
  have hday : 0 ≤ days + 719468 - (days + 719468).fdiv 146097 * 146097 ∧
      days + 719468 - (days + 719468).fdiv 146097 * 146097 < 146097 := by
    rw [Int.fdiv_eq_ediv_of_nonneg _ (by decide)]
    omega
  obtain ⟨century, quad, year, dayOfYear, h⟩ := exists_eraDay hday
  refine ⟨(days + 719468).fdiv 146097, _, century, quad, year, dayOfYear, by omega, h, ?_⟩
  rw [ofDays]
  simp only [h.yearOfEra_eq, h.dayOfYear_eq]
  rfl

/-- Every number of days from the start of 1970 is a day of the calendar. -/
theorem isValid_ofDays (days : Int) : (ofDays days).isValid = true := by
  obtain ⟨era, day, century, quad, year, dayOfYear, -, h, hdate⟩ := exists_ofDays_eq days
  rw [hdate]
  refine isValid_of_dayOfYear h.dayOfYear_le _ ?_
  intro hlast
  rw [if_pos (by rw [hlast]; decide)]
  exact h.isLeapYear_of_last hlast _

/-- A day is as many days from the start of 1970 as it was counted to be. -/
theorem toDays_ofDays (days : Int) : (ofDays days).toDays = days := by
  obtain ⟨era, day, century, quad, year, dayOfYear, hdays, h, hdate⟩ := exists_ofDays_eq days
  have hdayOfYear := h.dayOfYear_eq
  obtain ⟨-, hcentury, hquad, hyear, hrange, -⟩ := h
  obtain ⟨month, hmonth⟩ : ∃ month, monthFromMarch dayOfYear = month := ⟨_, rfl⟩
  have hmonths : 153 * month ≤ 5 * dayOfYear + 2 ∧ 5 * dayOfYear + 2 < 153 * month + 153 := by
    rw [← hmonth, monthFromMarch]
    omega
  have hnumber : (((monthOf month).toNat : Int) + 9) % 12 = month := by
    rw [monthOf]
    split <;> omega
  have hday : ((dayOf dayOfYear).toNat : Int) = dayOfYear - (153 * month + 2) / 5 + 1 := by
    rw [dayOf, hmonth]
    omega
  have hstart : ((if (monthOf month).toNat ≤ 2 then
      100 * century + 4 * quad + year + era * 400 + (if monthOf month ≤ 2 then 1 else 0) - 1
    else 100 * century + 4 * quad + year + era * 400 + (if monthOf month ≤ 2 then 1 else 0)) :
      Int) = 100 * century + 4 * quad + year + era * 400 := by
    have hsame : (monthOf month).toNat ≤ 2 ↔ monthOf month ≤ 2 := Int.toNat_le
    by_cases hlate : monthOf month ≤ 2
    · rw [if_pos (hsame.mpr hlate), if_pos hlate]
      omega
    · rw [if_neg (hsame.not.mpr hlate), if_neg hlate]
      omega
  have hera : (100 * century + 4 * quad + year + era * 400).fdiv 400 = era := by
    rw [Int.fdiv_eq_ediv_of_nonneg _ (by decide)]
    omega
  rw [hdate, toDays, hmonth]
  simp only [hstart, hera, hnumber, hday]
  omega

end Marginalia.CivilDate
