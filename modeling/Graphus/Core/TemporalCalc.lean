import Graphus.Core.Value
import Graphus.Lib.Calendar

/-!
# Calendar arithmetic

The conversions between day numbers and calendar dates of `temporal_calc.rs`, the accessors and
formatters of the date types, and the addition of a duration.

Every operation on a machine integer that could leave its range is a check: `i64`, `u64` and `u32`
return the value they are given when it fits, and end the computation with `Fault.wraps` when it
does not, which is where a debug build panics and a release build wraps. The 128-bit intermediate
values of the source are integers here: none of them comes near that width.

**Theorem (`daysFromCivil_eq`).** The day count of a calendar date is its day number.

**Theorem (`civilFromDays_eq`).** The date computed for a day number is the date with that number.
-/

namespace Graphus

open Int64 (ofInt)

/-! ## Errors and machine integers -/

inductive TemporalError where
  | invalidComponent (component : Text)
  | parse (input reason : Text)
  | overflow
  | unknownTimeZone (zone : Text)
  | timeZoneRules (zone reason : Text)
  deriving DecidableEq

/-- How a computation on machine integers ends without a value. -/
inductive Fault where
  | wraps
  | error (e : TemporalError)
  deriving DecidableEq

abbrev Checked := Except Fault

def i64 (x : Int) : Checked Int := if -2 ^ 63 ≤ x ∧ x < 2 ^ 63 then .ok x else .error .wraps

def u64 (x : Int) : Checked Int := if 0 ≤ x ∧ x < 2 ^ 64 then .ok x else .error .wraps

def u32 (x : Int) : Checked Int := if 0 ≤ x ∧ x < 2 ^ 32 then .ok x else .error .wraps

/-- `as i64`, `as u64` and `as u32`. -/
def asI64 (x : Int) : Int := Int.bmod x (2 ^ 64)

def asU64 (x : Int) : Int := x % 2 ^ 64

def asU32 (x : Int) : Int := x % 2 ^ 32

section Machine

variable {x : Int}

-- Not by `rfl`: the kernel would compare the two sides by unfolding the checks inside `f`.
lemma ok_bind {ε α β : Type} (a : α) (f : α → Except ε β) : (Except.ok a >>= f) = f a := by
  simp only [bind, Except.bind]

lemma error_bind {ε α β : Type} (e : ε) (f : α → Except ε β) :
    (Except.error e >>= f) = .error e := by
  simp only [bind, Except.bind]

lemma ok_pure {ε α : Type} (a : α) : (pure a : Except ε α) = .ok a := rfl

lemma i64_eq (h : -2 ^ 63 ≤ x ∧ x < 2 ^ 63) : i64 x = .ok x := if_pos h

lemma u64_eq (h : 0 ≤ x ∧ x < 2 ^ 64) : u64 x = .ok x := if_pos h

lemma u32_eq (h : 0 ≤ x ∧ x < 2 ^ 32) : u32 x = .ok x := if_pos h

lemma asI64_eq (h : -2 ^ 63 ≤ x ∧ x < 2 ^ 63) : asI64 x = x := by
  unfold asI64
  rw [Int.bmod_eq_of_le] <;> omega

lemma asU64_eq (h : 0 ≤ x ∧ x < 2 ^ 64) : asU64 x = x := Int.emod_eq_of_lt h.1 h.2

lemma asU32_eq (h : 0 ≤ x ∧ x < 2 ^ 32) : asU32 x = x := Int.emod_eq_of_lt h.1 h.2

end Machine

/-! ## The civil calendar -/

def isLeapYear (year : Int) : Bool :=
  year.tmod 4 = 0 && (year.tmod 100 ≠ 0 || year.tmod 400 = 0)

def daysInMonth (year : Int) (month : Int) : Int :=
  if month ∈ [1, 3, 5, 7, 8, 10, 12] then 31
  else if month ∈ [4, 6, 9, 11] then 30
  else if month = 2 then (if isLeapYear year then 29 else 28)
  else 0

def daysInQuarter (year quarter : Int) : Int :=
  if quarter = 1 then (if isLeapYear year then 91 else 90)
  else if quarter = 2 then 91
  else if quarter = 3 ∨ quarter = 4 then 92
  else 0

def daysFromCivil (year month day : Int) : Checked Int := do
  let y ← (if month ≤ 2 then i64 (year - 1) else .ok year)
  let era := y / 400
  let yoe := asU64 (← i64 (y - (← i64 (era * 400))))
  let mp := (← u32 (month + 9)) % 12
  let doy ← u64 ((← u64 ((153 * mp + 2) / 5 + day)) - 1)
  let doe ← u64 ((← u64 ((← u64 (yoe * 365 + yoe / 4)) - yoe / 100)) + doy)
  i64 ((← i64 ((← i64 (era * 146097)) + asI64 doe)) - 719468)

def civilFromDays (days : Int) : Checked (Int × Int × Int) := do
  let z ← i64 (days + 719468)
  let era := z / 146097
  let doe := asU64 (← i64 (z - (← i64 (era * 146097))))
  let yoe := (← u64 ((← u64 (doe - doe / 1460)) + doe / 36524 - doe / 146096)) / 365
  let y ← i64 (asI64 yoe + (← i64 (era * 400)))
  let doy ← u64 (doe - (← u64 (365 * yoe + yoe / 4 - yoe / 100)))
  let mp := (← u64 (5 * doy + 2)) / 153
  let day := asU32 (← u64 ((← u64 (doy - (153 * mp + 2) / 5)) + 1))
  let month := asU32 (← (if mp < 10 then u64 (mp + 3) else u64 (mp - 9)))
  let year ← (if month ≤ 2 then i64 (y + 1) else .ok y)
  return (year, month, day)

def weekdayFromEpochDays (days : Int) : Checked Int := do
  return (← i64 (days + 3)) % 7 + 1

open Calendar

lemma isLeapYear_iff (y : Int) : isLeapYear y = true ↔ IsLeap y := by
  simp only [isLeapYear, Bool.and_eq_true, Bool.or_eq_true, decide_eq_true_eq,
    ← Int.dvd_iff_tmod_eq_zero, IsLeap, Int.dvd_iff_emod_eq_zero, ne_eq]

lemma leap_ite (y a : Int) : (if isLeapYear y then a + 1 else a) = a + leapDay y := by
  rw [leapDay]
  by_cases h : IsLeap y
  · rw [if_pos ((isLeapYear_iff y).2 h), if_pos h]
  · rw [if_neg fun ht => h ((isLeapYear_iff y).1 ht), if_neg h, Int.add_zero]

section Months

variable {m : Nat} (h1 : 1 ≤ m) (h12 : m ≤ 12) (y : Int)

include h1 h12

lemma daysInMonth_eq : daysInMonth y m = monthLength y m := by
  interval_cases m <;> first | rfl | exact leap_ite y 28

/-- A month lies in its quarter. -/
lemma monthStart_quarter : monthStart y ((m - 1) / 3 * 3 + 1) ≤ monthStart y m ∧
    monthStart y m + monthLength y m ≤ monthStart y ((m - 1) / 3 * 3 + 1) +
    daysInQuarter y ((m - 1) / 3 + 1) ∧
    daysInQuarter y ((m - 1) / 3 + 1) ≤ 92 := by
  have hleap : (if isLeapYear y then 91 else 90 : Int) = _ := leap_ite y 90
  have := leapDay_nonneg y
  have := leapDay_le_one y
  rw [daysInQuarter, hleap]
  interval_cases m <;> simp [monthStart, monthLength] <;> omega

end Months

/-- The days of whole years, with the year starting in March. -/
def marchStart (y : Int) : Int := 365 * y + y / 4 - y / 100 + y / 400

/-- The days of the March-based year before a month. -/
def marchDays (m : Nat) : Int := (153 * ((m + 9 : Int) % 12) + 2) / 5

/-- A day number from the year that starts in March. -/
lemma dayNumber_eq (c : Civil) : c.dayNumber =
      marchStart (if (c.month : Int) ≤ 2 then c.year - 1 else c.year) + marchDays c.month +
        c.day - 1 - 719468 := by
  obtain ⟨year, month, day, h1, h12, -, -⟩ := c
  have hleap := leapDay_eq year
  simp only [Civil.dayNumber, marchStart, marchDays, yearStart]
  interval_cases month <;>
    simp only [monthStart, monthLength, Nat.cast_ofNat, Int.reduceLE, ↓reduceIte, Nat.cast_one] <;>
    omega

theorem daysFromCivil_eq (c : Civil) (hlo : -10000000000 ≤ c.year) (hhi : c.year ≤ 10000000000) :
    daysFromCivil c.year c.month c.day = .ok c.dayNumber := by
  have hday := c.day_pos
  have hle := c.day_le.trans (monthLength_le c.year c.month)
  have hm1 := c.month_pos
  have hm12 := c.month_le
  have hif : (if (c.month : Int) ≤ 2 then i64 (c.year - 1) else .ok c.year) =
      .ok (if (c.month : Int) ≤ 2 then c.year - 1 else c.year) := by
    split
    · exact i64_eq (by omega)
    · rfl
  rw [daysFromCivil, hif, dayNumber_eq, marchStart, marchDays]
  generalize hy : (if (c.month : Int) ≤ 2 then c.year - 1 else c.year) = y
  have hylo : -10000000001 ≤ y := by rw [← hy]; split <;> omega
  have hyhi : y ≤ 10000000000 := by rw [← hy]; split <;> omega
  simp (disch := omega) only [ok_bind, i64_eq, u64_eq, u32_eq, asU64_eq, asI64_eq, Except.ok.injEq]
  omega

/-- The year of an era that a day falls in, after `k` centuries, `c` cycles of four years and `q`
years. -/
lemma yearOfEra_eq {k c q d : Int} (hk : 0 ≤ k ∧ k ≤ 3) (hc : 0 ≤ c ∧ c ≤ 24) (hq : 0 ≤ q ∧ q ≤ 3)
    (hd : 365 * q ≤ d ∧ d < 365 * (q + 1) + q / 3) (hlast : c = 24 → d ≤ 1459) :
    (36524 * k + 1461 * c + d - (36524 * k + 1461 * c + d) / 1460 +
        (36524 * k + 1461 * c + d) / 36524 - (36524 * k + 1461 * c + d) / 146096) / 365 =
      100 * k + 4 * c + q := by
  have h1 : (36524 * k + 1461 * c + d) / 36524 = k := by omega
  have h2 : (36524 * k + 1461 * c + d) / 146096 = 0 := by omega
  have h3 : (36524 * k + 1461 * c + d) / 1460 = 25 * k + c + (24 * k + c + d) / 1460 := by omega
  rw [h1, h2, h3]
  omega

/-- The year of the era that a day of the era falls in, and the day of that year. -/
lemma yearOfEra_spec {doe : Int} (h0 : 0 ≤ doe) (h1 : doe ≤ 146096) :
    ∃ yoe doy, (doe - doe / 1460 + doe / 36524 - doe / 146096) / 365 = yoe ∧
      doe = 365 * yoe + yoe / 4 - yoe / 100 + doy ∧ 0 ≤ yoe ∧ yoe ≤ 399 ∧ 0 ≤ doy ∧ doy ≤ 365 ∧
      (doy = 365 → IsLeap (yoe + 1)) := by
  rcases Int.lt_or_eq_of_le h1 with hlt | rfl
  · -- a century, a cycle of four years, and a year of the cycle, whose last one has a day more
    obtain ⟨r, hr⟩ : ∃ r, r = doe % 36524 := ⟨_, rfl⟩
    obtain ⟨d, hd⟩ : ∃ d, d = r % 1461 := ⟨_, rfl⟩
    obtain ⟨q, hq⟩ : ∃ q, q = if d = 1460 then 3 else d / 365 := ⟨_, rfl⟩
    have hsplit : doe = 36524 * (doe / 36524) + 1461 * (r / 1461) + d := by omega
    have hq3 : 0 ≤ q ∧ q ≤ 3 := by split at hq <;> omega
    have hdq : 365 * q ≤ d ∧ d < 365 * (q + 1) + q / 3 := by split at hq <;> omega
    have heq := @yearOfEra_eq (doe / 36524) (r / 1461) q d (by omega) (by omega) hq3 hdq (by omega)
    rw [← hsplit] at heq
    have hfour : (100 * (doe / 36524) + 4 * (r / 1461) + q) / 4 = 25 * (doe / 36524) +
      r / 1461 := by omega
    have hcentury : (100 * (doe / 36524) + 4 * (r / 1461) + q) / 100 = doe / 36524 := by omega
    refine ⟨_, d - 365 * q, heq, ?_, by omega, by omega, by omega, by omega, fun hlast => ?_⟩
    · rw [hfour, hcentury]
      omega
    exact ⟨by omega, .inl (by omega)⟩
  · exact ⟨399,
      365, by decide, by decide, by decide, by decide, by decide, by decide, fun _ => by decide⟩

/-- The date of a day of the year that starts in March. -/
lemma exists_civil {y doy mp : Int} (h0 : 0 ≤ doy) (h1 : doy ≤ 365)
    (hleap : doy = 365 → IsLeap (y + 1)) (hmp : mp = (5 * doy + 2) / 153) :
    ∃ c : Civil, c.dayNumber = marchStart y + doy - 719468 ∧
      c.year = (if (if mp < 10 then mp + 3 else mp - 9) ≤ 2 then y + 1 else y) ∧
      (c.month : Int) = (if mp < 10 then mp + 3 else mp - 9) ∧
      (c.day : Int) = doy - (153 * mp + 2) / 5 + 1 := by
  have hlen : doy ≤ 364 + leapDay (y + 1) := by
    rcases Int.lt_or_eq_of_le h1 with hlt | heq
    · have := leapDay_nonneg (y + 1)
      omega
    · rw [leapDay, if_pos (hleap heq)]
      omega
  have hm0 : 0 ≤ mp := by omega
  have hm11 : mp ≤ 11 := by omega
  refine ⟨⟨if mp ≤ 9 then y else y + 1, ((mp + 2) % 12).toNat + 1,
    (doy - (153 * mp + 2) / 5 + 1).toNat, by omega, by omega, by omega, ?_⟩, ?_, ?_, ?_, ?_⟩
  · interval_cases mp <;>
      simp only [monthLength, Int.reduceAdd, Int.reduceMod, Int.reduceToNat, Nat.reduceAdd,
      Int.reduceLE, ↓reduceIte] <;> omega
  · rw [dayNumber_eq]
    simp only [marchDays]
    interval_cases mp <;> simp only [Int.reduceAdd, Int.reduceMod, Int.reduceToNat, Nat.reduceAdd,
      Int.reduceLE, ↓reduceIte, Nat.cast_ofNat, Nat.cast_one, Int.add_sub_cancel] <;> omega
  · dsimp only
    split <;> split <;> split <;> omega
  · dsimp only
    split <;> omega
  · dsimp only
    omega

lemma marchStart_add (era yoe : Int) (h0 : 0 ≤ yoe) (h399 : yoe ≤ 399) :
    marchStart (yoe + era * 400) = era * 146097 + (365 * yoe + yoe / 4 - yoe / 100) := by
  unfold marchStart
  omega

/-- The computation of a date, once the year of the era and the day of the year are known. -/
lemma civilFromDays_run {days era doe yoe doy mp : Int} (hera : -100000000 ≤ era ∧ era ≤ 100000000)
    (hd0 : 0 ≤ doe) (hd1 : doe ≤ 146096) (hy0 : 0 ≤ yoe) (hy1 : yoe ≤ 399) (h0 : 0 ≤ doy)
    (h1 : doy ≤ 365)
    (hmp : (5 * doy + 2) / 153 = mp) :
    days + 719468 = doe + era * 146097 →
    (doe - doe / 1460 + doe / 36524 - doe / 146096) / 365 = yoe →
    doe - (365 * yoe + yoe / 4 - yoe / 100) = doy →
    civilFromDays days =
      .ok (if (if mp < 10 then mp + 3 else mp - 9) ≤ 2 then yoe + era * 400 +
        1 else yoe + era * 400,
        if mp < 10 then mp + 3 else mp - 9, doy - (153 * mp + 2) / 5 + 1) := by
  have hmp0 : 0 ≤ mp ∧ mp ≤ 11 := by omega
  have hday : 0 ≤ doy - (153 * mp + 2) / 5 ∧ doy - (153 * mp + 2) / 5 ≤ 30 := by omega
  have hz := @i64_eq (doe + era * 146097) (by omega)
  have hera := @i64_eq (era * 146097) (by omega)
  have hdoe := @i64_eq doe (by omega)
  have hcast := @asU64_eq doe (by omega)
  have hq1 := @u64_eq (doe - doe / 1460) (by omega)
  have hq2 := @u64_eq (doe - doe / 1460 + doe / 36524 - doe / 146096) (by omega)
  have hera' := @i64_eq (era * 400) (by omega)
  have hcast' := @asI64_eq yoe (by omega)
  have hy := @i64_eq (yoe + era * 400) (by omega)
  have hs := @u64_eq (365 * yoe + yoe / 4 - yoe / 100) (by omega)
  have hdoy' := @u64_eq doy (by omega)
  have hfive := @u64_eq (5 * doy + 2) (by omega)
  have hday1 := @u64_eq (doy - (153 * mp + 2) / 5) (by omega)
  have hday2 := @u64_eq (doy - (153 * mp + 2) / 5 + 1) (by omega)
  have hday3 := @asU32_eq (doy - (153 * mp + 2) / 5 + 1) (by omega)
  have hdiv : (doe + era * 146097) / 146097 = era := by omega
  have hmonth : (if mp < 10 then u64 (mp + 3) else u64 (mp - 9)) =
    .ok (if mp < 10 then mp + 3 else mp - 9) := by
    split <;> exact u64_eq (by omega)
  generalize hmo : (if mp < 10 then mp + 3 else mp - 9) = month at hmonth ⊢
  have hmonth' := @asU32_eq month (by split at hmo <;> omega)
  have hyear : (if month ≤ 2 then i64 (yoe + era * 400 + 1) else .ok (yoe + era * 400)) =
      .ok (if month ≤ 2 then yoe + era * 400 + 1 else yoe + era * 400) := by
    split
    · exact i64_eq (by omega)
    · rfl
  intro hdays hyoe hdoy
  simp only [civilFromDays, hdays, hz, ok_bind, hdiv, hera, Int.add_sub_cancel, hdoe, hcast, hq1,
    hq2, hyoe, hera',
    hcast', hy, hs, hdoy, hdoy', hfive, hmp, hday1, hday2, hday3, hmonth, hmonth', hyear, ok_pure]

/-- **The date of a day number.** -/
theorem civilFromDays_eq {days : Int} (hlo : -1000000000000 ≤ days) (hhi : days ≤ 1000000000000) :
    ∃ c : Civil, c.dayNumber = days ∧ civilFromDays days = .ok (c.year, c.month, c.day) := by
  obtain ⟨yoe, doy, hyoe, hdoe, hy0, hy399, hd0, hd365, hleap⟩ :=
    @yearOfEra_spec ((days + 719468) - (days + 719468) / 146097 * 146097) (by omega) (by omega)
  obtain ⟨c, hnum, hyear, hmonth, hday⟩ :=
    @exists_civil (yoe + (days + 719468) / 146097 * 400) doy _ hd0 hd365 (fun h => by
        have := hleap h
        unfold IsLeap at *
        omega) rfl
  refine ⟨c, ?_, ?_⟩
  · rw [hnum, marchStart_add _ _ hy0 hy399]
    omega
  · rw [hyear, hmonth, hday]
    exact civilFromDays_run (by omega) (by omega)
      (by omega) hy0 hy399 hd0 hd365 rfl (by omega) hyoe (by omega)

/-! ## Dates -/

/-- The years that openCypher allows are those of at most this magnitude. -/
def maxAbsYear : Int := 999999999

namespace Date

variable (d : Date)

def epochDays : Int := d.daysSinceEpoch.toInt

/-- `from_epoch_days`: any day count is accepted. -/
def fromEpochDays (days : Int) : Checked Date := .ok ⟨ofInt days⟩

def toYmd : Checked (Int × Int × Int) := civilFromDays d.epochDays

def year : Checked Int := do return (← d.toYmd).1

def month : Checked Int := do return (← d.toYmd).2.1

def day : Checked Int := do return (← d.toYmd).2.2

def quarter : Checked Int := do
  i64 ((← i64 ((← d.month) - 1)).tdiv 3 + 1)

def isoWeekPair : Checked (Int × Int) := do
  let days := d.epochDays
  let thursday ← i64 (days + (← i64 (4 - (← weekdayFromEpochDays days))))
  let (weekYear, _, _) ← civilFromDays thursday
  let week ← i64 ((← i64 (thursday - (← daysFromCivil weekYear 1 1))).tdiv 7 + 1)
  return (weekYear, week)

def week : Checked Int := do return (← d.isoWeekPair).2

def weekYear : Checked Int := do return (← d.isoWeekPair).1

def ordinalDay : Checked Int := do
  i64 ((← i64 (d.epochDays - (← daysFromCivil (← d.year) 1 1))) + 1)

def weekDay : Checked Int := weekdayFromEpochDays d.epochDays

def dayOfQuarter : Checked Int := do
  let (year, month, _) ← d.toYmd
  let firstMonth ← u32 ((← u32 (month - 1)) / 3 * 3 + 1)
  i64 ((← i64 (d.epochDays - (← daysFromCivil year firstMonth 1))) + 1)

end Date

/-! ## Formatting -/

/-- A decimal number, with zeros in front of it up to `width` digits. -/
def padded (width : Nat) (n : Nat) : Text :=
  let digits := (Nat.toDigits 10 n).map fun c => UInt8.ofNat c.toNat
  List.replicate (width - digits.length) 48 ++ digits

def formatYear (year : Int) : Text :=
  if year < 0 then text "-" ++ padded 4 year.natAbs
  else if 9999 < year then text "+" ++ padded 0 year.natAbs
  else padded 4 year.natAbs

def pushSubsecond (out : Text) (nanos : Nat) : Text :=
  if nanos = 0 then out
  else if nanos % 1000000 = 0 then out ++ text "." ++ padded 3 (nanos / 1000000)
  else if nanos % 1000 = 0 then out ++ text "." ++ padded 6 (nanos / 1000)
  else out ++ text "." ++ padded 9 nanos

def formatOffset (offsetSeconds : Int32) : Text :=
  if offsetSeconds = 0 then text "Z"
  else
    let sign := if offsetSeconds < 0 then text "-" else text "+"
    let abs := offsetSeconds.toInt.natAbs
    let hours := sign ++ padded 2 (abs / 3600) ++ text ":" ++ padded 2 (abs % 3600 / 60)
    if abs % 60 = 0 then hours else hours ++ text ":" ++ padded 2 (abs % 60)

def Date.toIsoString (d : Date) : Checked Text := do
  let (year, month, day) ← d.toYmd
  return formatYear year ++ text "-" ++ padded 2 month.toNat ++ text "-" ++ padded 2 day.toNat

/-! ## Times of day -/

def nanosPerSecond : Nat := 1000000000

namespace LocalTime

variable (t : LocalTime)

def hour : Int := asI64 (t.nanosOfDay.toNat / (3600 * nanosPerSecond) : Nat)

def minute : Int := asI64 (t.nanosOfDay.toNat / (60 * nanosPerSecond) % 60 : Nat)

def second : Int := asI64 (t.nanosOfDay.toNat / nanosPerSecond % 60 : Nat)

def nanosOfSecond : Nat := t.nanosOfDay.toNat % nanosPerSecond

def millisecond : Int := (t.nanosOfSecond / 1000000 : Nat)

def microsecond : Int := (t.nanosOfSecond / 1000 : Nat)

def nanosecond : Int := t.nanosOfSecond

def toIsoString : Text :=
  let out := padded 2 t.hour.toNat ++ text ":" ++ padded 2 t.minute.toNat
  if t.second ≠ 0 ∨ t.nanosOfSecond ≠ 0 then
    pushSubsecond (out ++ text ":" ++ padded 2 t.second.toNat) t.nanosOfSecond
  else out

end LocalTime

/-! ## Local date-times -/

def secondsPerDay : Int := 86400

/-- `saturating_add` and `saturating_mul` of `i64`. -/
def saturate (x : Int) : Int := max (-2 ^ 63) (min (2 ^ 63 - 1) x)

namespace LocalDateTime

def fromDateTime (date : Date) (time : LocalTime) : Checked LocalDateTime := do
  let epochSeconds ← i64 ((← i64 (date.epochDays * secondsPerDay)) +
    asI64 (time.nanosOfDay.toNat / nanosPerSecond : Nat))
  return ⟨ofInt epochSeconds, UInt32.ofNat (time.nanosOfDay.toNat % nanosPerSecond)⟩

def toDateTime (t : LocalDateTime) : Date × LocalTime :=
  let secondOfDay := asU64 (t.epochSeconds.toInt % secondsPerDay)
  let nanos := min t.nanos.toNat 999999999
  (⟨ofInt (t.epochSeconds.toInt / secondsPerDay)⟩,
    ⟨UInt64.ofNat (secondOfDay.toNat * nanosPerSecond + nanos)⟩)

/-- An accessor of the date part. -/
def ofDate (f : Date → Checked Int) (t : LocalDateTime) : Checked Int := f t.toDateTime.1

/-- An accessor of the time part. -/
def ofTime (f : LocalTime → Int) (t : LocalDateTime) : Checked Int := .ok (f t.toDateTime.2)

def year : LocalDateTime → Checked Int := ofDate Date.year
def month : LocalDateTime → Checked Int := ofDate Date.month
def day : LocalDateTime → Checked Int := ofDate Date.day
def quarter : LocalDateTime → Checked Int := ofDate Date.quarter
def week : LocalDateTime → Checked Int := ofDate Date.week
def weekYear : LocalDateTime → Checked Int := ofDate Date.weekYear
def ordinalDay : LocalDateTime → Checked Int := ofDate Date.ordinalDay
def weekDay : LocalDateTime → Checked Int := ofDate Date.weekDay
def dayOfQuarter : LocalDateTime → Checked Int := ofDate Date.dayOfQuarter
def hour : LocalDateTime → Checked Int := ofTime LocalTime.hour
def minute : LocalDateTime → Checked Int := ofTime LocalTime.minute
def second : LocalDateTime → Checked Int := ofTime LocalTime.second
def millisecond : LocalDateTime → Checked Int := ofTime LocalTime.millisecond
def microsecond : LocalDateTime → Checked Int := ofTime LocalTime.microsecond
def nanosecond : LocalDateTime → Checked Int := ofTime LocalTime.nanosecond

/-- Milliseconds of an epoch second and its nanoseconds, in saturating arithmetic. -/
def millisOf (epochSeconds : Int) (nanos : UInt32) : Int :=
  saturate (saturate (epochSeconds * 1000) + (min nanos.toNat 999999999 / 1000000 : Nat))

def epochMillis (t : LocalDateTime) : Checked Int := .ok (millisOf t.epochSeconds.toInt t.nanos)

def toIsoString (t : LocalDateTime) : Checked Text := do
  return (← t.toDateTime.1.toIsoString) ++ text "T" ++ t.toDateTime.2.toIsoString

end LocalDateTime

/-! ## Zoned date-times -/

namespace ZonedDateTime

/-- An accessor of the local part. -/
def ofLocal (f : LocalDateTime → Checked Int) (t : ZonedDateTime) : Checked Int := f t.localDateTime

def year : ZonedDateTime → Checked Int := ofLocal LocalDateTime.year
def month : ZonedDateTime → Checked Int := ofLocal LocalDateTime.month
def day : ZonedDateTime → Checked Int := ofLocal LocalDateTime.day
def quarter : ZonedDateTime → Checked Int := ofLocal LocalDateTime.quarter
def week : ZonedDateTime → Checked Int := ofLocal LocalDateTime.week
def weekYear : ZonedDateTime → Checked Int := ofLocal LocalDateTime.weekYear
def ordinalDay : ZonedDateTime → Checked Int := ofLocal LocalDateTime.ordinalDay
def weekDay : ZonedDateTime → Checked Int := ofLocal LocalDateTime.weekDay
def dayOfQuarter : ZonedDateTime → Checked Int := ofLocal LocalDateTime.dayOfQuarter
def hour : ZonedDateTime → Checked Int := ofLocal LocalDateTime.hour
def minute : ZonedDateTime → Checked Int := ofLocal LocalDateTime.minute
def second : ZonedDateTime → Checked Int := ofLocal LocalDateTime.second
def millisecond : ZonedDateTime → Checked Int := ofLocal LocalDateTime.millisecond
def microsecond : ZonedDateTime → Checked Int := ofLocal LocalDateTime.microsecond
def nanosecond : ZonedDateTime → Checked Int := ofLocal LocalDateTime.nanosecond

variable (t : ZonedDateTime)

def offsetString : Text := formatOffset t.offsetSeconds

def offsetMinutes : Checked Int := .ok (t.offsetSeconds.toInt.tdiv 60)

def epochSeconds : Checked Int := .ok t.utcSeconds

def epochMillis : Checked Int :=
  .ok (LocalDateTime.millisOf t.utcSeconds t.localDateTime.nanos)

def toIsoString (t : ZonedDateTime) : Checked Text := do
  let out := (← t.localDateTime.toIsoString) ++ t.offsetString
  return if t.zoneId = [] then out else out ++ text "[" ++ t.zoneId ++ text "]"

end ZonedDateTime

/-! ## Durations -/

namespace Duration

/-- `seconds_group_total_nanos`. -/
def secondsGroupTotalNanos (d : Duration) : Int := d.seconds.toInt * nanosPerSecond + d.nanos.toInt

/-- The number negated, where the type holds the result. -/
def negated (bits : Nat) (x : Int) : Checked Int :=
  if -x < 2 ^ (bits - 1) then .ok (-x) else .error (.error .overflow)

def checkedNeg (d : Duration) : Checked Duration := do
  let months ← negated 64 d.months.toInt
  let days ← negated 64 d.days.toInt
  let seconds ← negated 64 d.seconds.toInt
  let nanos ← negated 32 d.nanos.toInt
  return ⟨ofInt months, ofInt days, ofInt seconds, Int32.ofInt nanos⟩

end Duration

/-! ## Adding durations -/

/-- `checked_add` of `i64`. -/
def checkedAdd (x y : Int) : Checked Int :=
  if -2 ^ 63 ≤ x + y ∧ x + y < 2 ^ 63 then .ok (x + y) else .error (.error .overflow)

namespace Date

def addMonthsDaysClamped (d : Date) (months days : Int) : Checked Date := do
  let (year, month, day) ← d.toYmd
  let totalMonths := year * 12 + month - 1 + months
  let newYear ← (if -2 ^ 63 ≤ totalMonths / 12 ∧ totalMonths / 12 < 2 ^ 63 then
    .ok (totalMonths / 12) else .error (.error .overflow))
  if maxAbsYear < (← i64 newYear.natAbs) then .error (.error .overflow)
  else
    let newMonth ← u32 (asU32 (totalMonths % 12) + 1)
    let newDay := min day (daysInMonth newYear newMonth)
    let base ← daysFromCivil newYear newMonth newDay
    fromEpochDays (← checkedAdd base days)

def checkedAddDays (d : Date) (days : Int) : Checked Date := do
  fromEpochDays (← checkedAdd d.epochDays days)

def addDuration (d : Date) (δ : Duration) : Checked Date := do
  let withMd ← d.addMonthsDaysClamped δ.months.toInt δ.days.toInt
  let secDays := asI64 (δ.secondsGroupTotalNanos.tdiv nanosPerDay)
  withMd.checkedAddDays secDays

def subDuration (d : Date) (δ : Duration) : Checked Date := do
  d.addDuration (← δ.checkedNeg)

end Date

namespace LocalDateTime

def addDuration (t : LocalDateTime) (δ : Duration) : Checked LocalDateTime := do
  let (date, time) := t.toDateTime
  let date ← date.addMonthsDaysClamped δ.months.toInt δ.days.toInt
  let total := time.nanosOfDay.toNat + δ.secondsGroupTotalNanos
  let carryDays := asI64 (total / nanosPerDay)
  let nanosOfDay := asU64 (total % nanosPerDay)
  let date ← date.checkedAddDays carryDays
  fromDateTime date ⟨UInt64.ofNat nanosOfDay.toNat⟩

def subDuration (t : LocalDateTime) (δ : Duration) : Checked LocalDateTime := do
  t.addDuration (← δ.checkedNeg)

end LocalDateTime

namespace ZonedDateTime

def addDuration (t : ZonedDateTime) (δ : Duration) : Checked ZonedDateTime := do
  return { t with localDateTime := ← t.localDateTime.addDuration δ }

def subDuration (t : ZonedDateTime) (δ : Duration) : Checked ZonedDateTime := do
  t.addDuration (← δ.checkedNeg)

end ZonedDateTime

end Graphus
