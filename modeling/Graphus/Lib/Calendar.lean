import Mathlib.Tactic.IntervalCases
import Mathlib.Tactic.Ring

/-!
# The proleptic Gregorian calendar

Dates by year, month and day of the month, over all integer years, and their day numbers: the days
since the first of January 1970. The day number is counted as the calendar prescribes it, whole
years first, then the whole months of the year, then the days.

**Theorem (`Civil.dayNumber_injective`).** A day number belongs to one date.

`Civil.addMonths` is the shift by months that keeps the day of the month where it can and takes the
last day of the target month where it cannot.
-/

namespace Calendar

variable {y : Int} {m : Nat}

/-! ## Years -/

def IsLeap (y : Int) : Prop := y % 4 = 0 ∧ (y % 100 ≠ 0 ∨ y % 400 = 0)

instance : DecidablePred IsLeap := fun _ => inferInstanceAs (Decidable (_ ∧ _))

def leapDay (y : Int) : Int := if IsLeap y then 1 else 0

/-- The day number of the first of January. -/
def yearStart (y : Int) :
    Int := 365 * (y - 1970) + (y - 1) / 4 - (y - 1) / 100 + (y - 1) / 400 - 477

/-- The rule of the leap years, counted. -/
lemma leapDay_eq (y : Int) :
    leapDay y = y / 4 - (y - 1) / 4 - (y / 100 - (y - 1) / 100) + (y / 400 - (y - 1) / 400) := by
  by_cases h : IsLeap y
  · rw [leapDay, if_pos h]
    unfold IsLeap at h
    omega
  · rw [leapDay, if_neg h]
    unfold IsLeap at h
    omega

lemma leapDay_nonneg (y : Int) : 0 ≤ leapDay y := by
  unfold leapDay
  split <;> decide

lemma leapDay_le_one (y : Int) : leapDay y ≤ 1 := by
  unfold leapDay
  split <;> decide

lemma yearStart_succ (y : Int) : yearStart (y + 1) = yearStart y + 365 + leapDay y := by
  rw [leapDay_eq, yearStart, yearStart, add_sub_cancel_right]
  ring

lemma yearStart_mono {y y' : Int} (h : y < y') : yearStart (y + 1) ≤ yearStart y' := by
  unfold yearStart
  omega

/-! ## Months -/

def monthLength (y : Int) : Nat → Int
  | 2 => 28 + leapDay y
  | 4 | 6 | 9 | 11 => 30
  | _ => 31

/-- The days of the year before a month. -/
def monthStart (y : Int) : Nat → Int
  | 0 => 0
  | 1 => 0
  | m + 2 => monthStart y (m + 1) + monthLength y (m + 1)

lemma monthStart_succ (h : 1 ≤ m) : monthStart y (m + 1) = monthStart y m + monthLength y m := by
  cases m with
  | zero => cases h
  | succ m => rfl

lemma monthLength_pos (y : Int) (m : Nat) : 0 < monthLength y m := by
  have := leapDay_nonneg y
  unfold monthLength
  split <;> omega

lemma monthLength_le (y : Int) (m : Nat) : monthLength y m ≤ 31 := by
  have := leapDay_le_one y
  unfold monthLength
  split <;> omega

lemma monthStart_mono {m' : Nat} (h1 : 1 ≤ m) (h : m < m') :
    monthStart y m + monthLength y m ≤ monthStart y m' := by
  induction m' with
  | zero => cases h
  | succ k ih =>
    rcases Nat.lt_succ_iff_lt_or_eq.1 h with hlt | rfl
    · have hpos := monthLength_pos y k
      rw [monthStart_succ (by omega)]
      omega
    · rw [monthStart_succ h1]

lemma monthStart_nonneg (y : Int) (m : Nat) : 0 ≤ monthStart y m := by
  rcases Nat.lt_or_ge 1 m with h | h
  · have := @monthStart_mono y 1 m (Nat.le_refl 1) h
    have := monthLength_pos y 1
    have : monthStart y 1 = 0 := rfl
    omega
  · interval_cases m <;> exact Int.le_refl 0

lemma monthStart_thirteen (y : Int) : monthStart y 13 = 365 + leapDay y := by
  simp only [monthStart, monthLength]
  ring

/-! ## Dates -/

/-- A date of the calendar. -/
structure Civil where
  year : Int
  month : Nat
  day : Nat
  month_pos : 1 ≤ month
  month_le : month ≤ 12
  day_pos : 1 ≤ day
  day_le : (day : Int) ≤ monthLength year month

namespace Civil

variable {c c' : Civil}

/-- The days since the first of January 1970. -/
def dayNumber (c : Civil) : Int := yearStart c.year + monthStart c.year c.month + (c.day - 1)

lemma yearStart_le (c : Civil) : yearStart c.year ≤ c.dayNumber := by
  have := monthStart_nonneg c.year c.month
  have := c.day_pos
  unfold dayNumber
  omega

lemma lt_yearStart (c : Civil) : c.dayNumber < yearStart (c.year + 1) := by
  have hm := @monthStart_mono c.year c.month 13 c.month_pos (Nat.lt_succ_of_le c.month_le)
  rw [monthStart_thirteen] at hm
  have := c.day_le
  rw [yearStart_succ, dayNumber]
  omega

lemma year_le (h : c.dayNumber ≤ c'.dayNumber) : c.year ≤ c'.year := by
  by_contra hlt
  have := yearStart_mono (Int.not_le.1 hlt)
  have := c'.lt_yearStart
  have := c.yearStart_le
  omega

lemma month_le_of_dayNumber_le (hy : c.year = c'.year) (h : c.dayNumber ≤ c'.dayNumber) :
    c.month ≤ c'.month := by
  by_contra hlt
  have hm := @monthStart_mono c'.year c'.month c.month c'.month_pos (not_le.1 hlt)
  have := c'.day_le
  have := c.day_pos
  rw [dayNumber, dayNumber, hy] at h
  omega

/-- **A day number belongs to one date.** -/
theorem dayNumber_injective : Function.Injective dayNumber := by
  intro c c' h
  have hy : c.year = c'.year := Int.le_antisymm (year_le h.le) (year_le h.ge)
  have hm : c.month = c'.month :=
    Nat.le_antisymm (month_le_of_dayNumber_le hy h.le) (month_le_of_dayNumber_le hy.symm h.ge)
  have hd : c.day = c'.day := by
    rw [dayNumber, dayNumber, hy, hm] at h
    omega
  cases c
  cases c'
  simp only [mk.injEq]
  exact ⟨hy, hm, hd⟩

/-- The date with the months counted from the year zero. -/
def months (c : Civil) : Int := c.year * 12 + (c.month - 1)

/-- Shift by `k` months, keeping the day of the month where the target month has it. -/
def addMonths (c : Civil) (k : Int) : Civil where
  year := (c.months + k) / 12
  month := ((c.months + k) % 12).toNat + 1
  day := min c.day (monthLength ((c.months + k) / 12) (((c.months + k) % 12).toNat + 1)).toNat
  month_pos := Nat.le_add_left 1 _
  month_le := by omega
  day_pos := by
    have := c.day_pos
    have := monthLength_pos ((c.months + k) / 12) (((c.months + k) % 12).toNat + 1)
    omega
  day_le := by
    have := monthLength_pos ((c.months + k) / 12) (((c.months + k) % 12).toNat + 1)
    omega

end Civil

end Calendar
