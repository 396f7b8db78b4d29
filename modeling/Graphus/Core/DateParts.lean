import Graphus.Core.TemporalShift

/-!
# Dates and their parts

The constructors of a date from an ISO week, a day of the year and a day of the quarter.

**Theorem (`calendar_exact`).** Over the years that openCypher allows, the two conversions between
day counts and calendar dates are inverse to each other, the day count goes up by one from each
calendar day to the next, and a date is rebuilt from its own parts.

The week of a date belongs to the year of its Thursday. The first day of the range is a Monday and
the last one a Friday, so that year is in the range too.
-/

namespace Calendar.Civil

variable {c c' : Civil}

/-- The order of the dates by year, month and day. -/
def Before (c c' : Civil) : Prop :=
  c.year < c'.year ∨ c.year = c'.year ∧ (c.month < c'.month ∨ c.month = c'.month ∧ c.day < c'.day)

/-- The next calendar day. -/
inductive Next (c c' : Civil) : Prop
  | day (hy : c'.year = c.year) (hm : c'.month = c.month) (hd : c'.day = c.day + 1)
  | month (hlast : (c.day : Int) = monthLength c.year c.month) (hy : c'.year = c.year)
      (hm : c'.month = c.month + 1) (hd : c'.day = 1)
  | year (hlast : c.month = 12 ∧ c.day = 31) (hy : c'.year = c.year + 1) (hm : c'.month = 1)
      (hd : c'.day = 1)

lemma dayNumber_lt (h : c.Before c') : c.dayNumber < c'.dayNumber := by
  by_contra hle
  have hle := Int.not_lt.1 hle
  have hy := year_le hle
  rcases h with h | ⟨heq, h⟩
  · omega
  have hm := month_le_of_dayNumber_le heq.symm hle
  rw [dayNumber, dayNumber, heq] at hle
  rcases h with h | ⟨hmeq, h⟩
  · omega
  rw [hmeq] at hle
  omega

lemma dayNumber_next (h : c.Next c') : c'.dayNumber = c.dayNumber + 1 := by
  unfold dayNumber
  cases h with
  | day hy hm hd =>
    rw [hy, hm]
    omega
  | month hlast hy hm hd =>
    rw [hy, hm, monthStart_succ c.month_pos]
    omega
  | year hlast hy hm hd =>
    have hthirteen := monthStart_thirteen c.year
    rw [hy, hm, yearStart_succ, hlast.1]
    simp only [monthLength, monthStart] at hthirteen ⊢
    omega

end Calendar.Civil

namespace Graphus

open Calendar

def weeksInIsoYear (weekYear : Int) : Checked Int := do
  let jan1Dow ← weekdayFromEpochDays (← daysFromCivil weekYear 1 1)
  return if jan1Dow = 4 ∨ (isLeapYear weekYear ∧ jan1Dow = 3) then 53 else 52

namespace Date

/-- The check of a year that the constructors begin with. -/
def checkYear (year : Int) : Checked Unit := do
  if maxAbsYear < (← i64 year.natAbs) then throw (.error .overflow)

def fromYearWeekDay (weekYear week dayOfWeek : Int) : Checked Date := do
  checkYear weekYear
  if week < 1 ∨
    (← weeksInIsoYear weekYear) < week then throw (.error (.invalidComponent (text "week")))
  if dayOfWeek < 1 ∨ 7 < dayOfWeek then throw (.error (.invalidComponent (text "dayOfWeek")))
  let jan4 ← daysFromCivil weekYear 1 4
  let week1Monday ← i64 (jan4 - (← i64 ((← weekdayFromEpochDays jan4) - 1)))
  fromEpochDays (← i64 ((← i64 (week1Monday + (← i64 ((week - 1) * 7)))) + (← i64 (dayOfWeek - 1))))

def fromYearOrdinal (year ordinalDay : Int) : Checked Date := do
  checkYear year
  let len := if isLeapYear year then 366 else 365
  if ordinalDay < 1 ∨ len < ordinalDay then throw (.error (.invalidComponent (text "ordinalDay")))
  fromEpochDays (← i64 ((← i64 ((← daysFromCivil year 1 1) + ordinalDay)) - 1))

def fromYearQuarterDay (year quarter dayOfQuarter : Int) : Checked Date := do
  checkYear year
  if quarter < 1 ∨ 4 < quarter then throw (.error (.invalidComponent (text "quarter")))
  if dayOfQuarter < 1 ∨ daysInQuarter year quarter < dayOfQuarter then
    throw (.error (.invalidComponent (text "dayOfQuarter")))
  let firstMonth ← u32 ((quarter - 1) * 3 + 1)
  fromEpochDays (← i64 ((← i64 ((← daysFromCivil year firstMonth 1) + dayOfQuarter)) - 1))

/-- The day counts of the years that openCypher allows. -/
def InRange (days : Int) :
    Prop := yearStart (-maxAbsYear) ≤ days ∧ days < yearStart (maxAbsYear + 1)

lemma InRange.exists_civil {days : Int} (h : InRange days) :
    ∃ c, InYears c ∧ c.dayNumber = days := by
  have hb : -1000000000000 ≤ days ∧ days ≤ 1000000000000 := by
    unfold InRange yearStart maxAbsYear at h
    omega
  obtain ⟨c, rfl, -⟩ := civilFromDays_eq hb.1 hb.2
  have hlt := c.lt_yearStart
  have hle := c.yearStart_le
  obtain ⟨hlo, hhi⟩ := h
  refine ⟨c, ⟨?_, ?_⟩, rfl⟩
  · by_contra hy
    have := yearStart_mono (Int.not_le.1 hy)
    omega
  · by_contra hy
    have := yearStart_mono (Int.not_le.1 hy)
    omega

/-- The Thursday of a week in the range is in the range. -/
lemma InRange.thursday {days : Int} (h : InRange days) :
    InRange (days + (4 - ((days + 3) % 7 + 1))) := by
  unfold InRange yearStart maxAbsYear at *
  omega

variable {c : Civil} {d : Date}

lemma checkYear_eq (hc : InYears c) : checkYear c.year = .ok () := by
  unfold InYears maxAbsYear at hc
  rw [checkYear, i64_eq (by omega), ok_bind, if_neg (by unfold maxAbsYear; omega)]
  rfl

lemma fromEpochDays_epochDays (d : Date) : fromEpochDays d.epochDays = .ok d := by
  rw [fromEpochDays, epochDays, Int64.ofInt_toInt]

section

variable (hc : InYears c) (hd : d.IsOn c)

include hc hd

lemma fromYearOrdinal_eq : (do fromYearOrdinal (← d.year) (← d.ordinalDay)) = .ok d := by
  have hb := hc.bounds
  have hle := c.yearStart_le
  have hlt := c.lt_yearStart
  have hleap : (if isLeapYear c.year then 366 else 365 : Int) = _ := leap_ite c.year 365
  rw [yearStart_succ] at hlt
  rw [year_eq hc hd, ordinalDay_eq hc hd, ok_bind, ok_bind, fromYearOrdinal, checkYear_eq hc]
  unfold InYears maxAbsYear at hc
  rw [← hd] at hb hle hlt
  simp (disch := omega) only [if_neg, daysFromCivil_newYear, ok_bind, i64_eq]
  convert fromEpochDays_epochDays d using 2
  omega

lemma fromYearQuarterDay_eq :
    (do fromYearQuarterDay (← d.year) (← d.quarter) (← d.dayOfQuarter)) = .ok d := by
  have hb := hc.bounds
  have hm1 := c.month_pos
  have hm12 := c.month_le
  have hday := c.day_pos
  have hle := c.day_le
  have hq := monthStart_quarter hm1 hm12 c.year
  have hmonth : ((c.month : Int) - 1) / 3 * 3 + 1 = ((c.month - 1) / 3 * 3 + 1 : Nat) := by omega
  rw [← hd] at hb
  rw [year_eq hc hd, quarter_eq hc hd, dayOfQuarter_eq hc hd, ok_bind, ok_bind, ok_bind,
    fromYearQuarterDay, checkYear_eq hc, ok_bind]
  unfold InYears maxAbsYear at hc
  unfold IsOn Civil.dayNumber at hd
  simp (disch := omega)
    only [if_neg, u32_eq, ok_bind, Int.add_sub_cancel, hmonth, daysFromCivil_first, i64_eq]
  convert fromEpochDays_epochDays d using 2
  omega

end

lemma fromYearWeekDay_eq (h : InRange d.epochDays) :
    (do fromYearWeekDay (← d.weekYear) (← d.week) (← d.weekDay)) = .ok d := by
  obtain ⟨c0, hc0, hd⟩ := h.exists_civil
  obtain ⟨c, hnum, hweek⟩ := isoWeekPair_eq hc0 hd.symm
  obtain ⟨c', hc, hnum'⟩ := h.thursday.exists_civil
  obtain rfl : c' = c := Civil.dayNumber_injective (hnum'.trans hnum.symm)
  have hb := hc0.bounds
  have hle := c'.yearStart_le
  have hlt := c'.lt_yearStart
  have hleap := leapDay_le_one c'.year
  have hiff : isLeapYear c'.year = true ↔ leapDay c'.year = 1 := by
    rw [isLeapYear_iff, leapDay]
    split <;> simp [*]
  have hyear := checkYear_eq hc
  rw [yearStart_succ] at hlt
  unfold InYears maxAbsYear at hc
  have hjan4 : daysFromCivil c'.year 1 4 = .ok (yearStart c'.year + 3) :=
    (daysFromCivil_eq ⟨c'.year, 1,
      4, by decide, by decide, by decide, show (4 : Int) ≤ 31 by decide⟩ (by dsimp only; omega)
      (by dsimp only; omega)).trans (by simp [Civil.dayNumber, monthStart])
  simp (disch := omega) only [weekYear, week, weekDay, hweek, ok_bind, ok_pure,
    weekdayFromEpochDays_eq, fromYearWeekDay,
    hyear, weeksInIsoYear, daysFromCivil_newYear, hjan4, i64_eq, hiff]
  rw [if_neg, if_neg]
  · convert fromEpochDays_epochDays d using 2
    omega
  · omega
  · split <;> omega

end Date

/-- **The calendar conversions are exact.** The day counts of the range and the dates of its years
determine each other, days in the order of the calendar have day counts in that order, one more for
the next day, and each date is rebuilt from its parts. -/
theorem calendar_exact : (∀ days, Date.InRange days →
      ∃ year month day, civilFromDays days = .ok (year, month, day) ∧
        daysFromCivil year month day = .ok days ∧
        1 ≤ month ∧ month ≤ 12 ∧ 1 ≤ day ∧ day ≤ daysInMonth year month) ∧
    (∀ c c', InYears c → InYears c' → ∃ days days', daysFromCivil c.year c.month c.day = .ok days ∧
        daysFromCivil c'.year c'.month c'.day = .ok days' ∧ (c.Before c' → days < days') ∧
        (c.Next c' → days' = days + 1)) ∧
    ∀ d : Date, Date.InRange d.epochDays →
    (do Date.fromYearWeekDay (← d.weekYear) (← d.week) (← d.weekDay)) = .ok d ∧
      (do Date.fromYearOrdinal (← d.year) (← d.ordinalDay)) = .ok d ∧
      (do Date.fromYearQuarterDay (← d.year) (← d.quarter) (← d.dayOfQuarter)) = .ok d := by
  have hback : ∀ c, InYears c → daysFromCivil c.year c.month c.day = .ok c.dayNumber := by
    intro c hc
    unfold InYears maxAbsYear at hc
    exact daysFromCivil_eq c (by omega) (by omega)
  refine ⟨fun days h => ?_, fun c c' hc hc' => ?_, fun d h => ?_⟩
  · obtain ⟨c, hc, rfl⟩ := h.exists_civil
    have hb := hc.bounds
    have hday := daysInMonth_eq c.month_pos c.month_le c.year
    exact ⟨c.year, c.month, c.day, civilFromDays_dayNumber (by omega) (by omega), hback c hc,
      Int.ofNat_le.2 c.month_pos, Int.ofNat_le.2 c.month_le, Int.ofNat_le.2 c.day_pos,
        hday ▸ c.day_le⟩
  · exact ⟨_, _, hback c hc, hback c' hc', Civil.dayNumber_lt, Civil.dayNumber_next⟩
  · obtain ⟨c, hc, hd⟩ := h.exists_civil
    exact ⟨Date.fromYearWeekDay_eq h, Date.fromYearOrdinal_eq hc hd.symm,
      Date.fromYearQuarterDay_eq hc hd.symm⟩

/-- The first of January 2021 is the Friday of week 53 of 2020. -/
theorem calendar_exact_week_53 : civilFromDays 18628 = .ok (2021, 1, 1) ∧
    (let d := Date.mk 18628
     d.weekYear = .ok 2020 ∧ d.week = .ok 53 ∧ d.weekDay = .ok 5 ∧
      (do Date.fromYearWeekDay (← d.weekYear) (← d.week) (← d.weekDay)) = .ok d) := by
  have hrange : Date.InRange 18628 := ⟨by decide, by decide⟩
  exact ⟨by decide +kernel, by decide +kernel, by decide +kernel, by decide +kernel,
    (calendar_exact.2.2 ⟨18628⟩ hrange).1⟩

end Graphus
