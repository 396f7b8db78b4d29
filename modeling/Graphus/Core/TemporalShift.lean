import Graphus.Core.TemporalCalc

/-!
# Adding durations to dates

A duration moves a date by months, keeping the day of the month where it can, then by days, and then
by the nanoseconds of its seconds group, of which a plain date takes the whole days only. The dates
and date-times of openCypher lie in the years from -999999999 to 999999999.

**Theorem (`addDuration_exact_iff`).** On a date in those years, adding or subtracting a duration
either reports an overflow or gives the exact result, in those years and readable by every accessor,
exactly when the code has one of its three checks fail or the exact result lies in those years.

The year is checked after the months only. `addDuration_leaves_years` adds days: the sum leaves the
years, and the product by the seconds of a day leaves the 64-bit integers.
-/

namespace Graphus

open Calendar List
open Int64 (ofInt toInt_ofInt_of_le)
open UInt64 (ofNat size)

/-! ## The exact result -/

/-- The dates of openCypher. -/
def InYears (c : Civil) : Prop := -maxAbsYear ≤ c.year ∧ c.year ≤ maxAbsYear

instance : DecidablePred InYears := fun _ => inferInstanceAs (Decidable (_ ∧ _))

/-- A shift of a date: months first, then days, then nanoseconds. -/
structure Shift where
  months : Int
  days : Int
  nanos : Int

namespace Shift

variable (s : Shift)

def neg : Shift := ⟨-s.months, -s.days, -s.nanos⟩

/-- The day number after the months and the days. -/
def wholeDays (c : Civil) : Int := (c.addMonths s.months).dayNumber + s.days

/-- The day that a plain date reaches. -/
def day (c : Civil) : Int := s.wholeDays c + s.nanos.tdiv nanosPerDay

/-- The nanosecond that a date-time reaches. -/
def instant (c : Civil) (nanosOfDay : Int) : Int :=
  s.wholeDays c * nanosPerDay + nanosOfDay + s.nanos

/-- One of the checks of the code fails: the year after the months, or the sums of days. -/
def ReportsOverflow (c : Civil) (day : Int) : Prop :=
  ¬ InYears (c.addMonths s.months) ∨ ¬ (-2 ^ 63 ≤ s.wholeDays c ∧ s.wholeDays c < 2 ^ 63) ∨
    ¬ (-2 ^ 63 ≤ day ∧ day < 2 ^ 63)

/-- A check fails, or the day reached lies in the years of openCypher. -/
def Safe (c : Civil) (day : Int) : Prop :=
  s.ReportsOverflow c day ∨ ∃ c', InYears c' ∧ c'.dayNumber = day

end Shift

def Duration.shift (δ : Duration) :
    Shift := ⟨δ.months.toInt, δ.days.toInt, δ.secondsGroupTotalNanos⟩

/-- Every component has a negation of its type. -/
def Duration.Negatable (δ : Duration) : Prop :=
  δ.months.toInt ≠ -2 ^ 63 ∧ δ.days.toInt ≠ -2 ^ 63 ∧ δ.seconds.toInt ≠ -2 ^ 63 ∧
    δ.nanos.toInt ≠ -2 ^ 31

/-! ## Exact results -/

/-- An overflow is reported, or the value has the property. -/
def OverflowOr {α : Type} (r : Checked α) (Q : α → Prop) : Prop :=
  r = .error (.error .overflow) ∨ ∃ v, r = .ok v ∧ Q v

namespace Date

def accessors : List (Date → Checked Int) :=
  [year, month, day, quarter, week, weekYear, ordinalDay, weekDay, dayOfQuarter]

/-- The date lies on the calendar date `c`. -/
def IsOn (d : Date) (c : Civil) : Prop := d.epochDays = c.dayNumber

instance (d : Date) (c : Civil) : Decidable (d.IsOn c) := inferInstanceAs (Decidable (_ = _))

/-- No accessor and no formatter of the date wraps. -/
def Readable (d : Date) : Prop := (∀ f ∈ accessors, ∃ n, f d = .ok n) ∧ ∃ s, d.toIsoString = .ok s

/-- The date is the day `day`, in the years of openCypher, and readable. -/
def Exact (day : Int) (d : Date) :
    Prop := d.epochDays = day ∧ (∃ c, InYears c ∧ d.IsOn c) ∧ d.Readable

end Date

namespace LocalDateTime

def accessors : List (LocalDateTime → Checked Int) :=
  [year, month, day, quarter, week, weekYear, ordinalDay, weekDay, dayOfQuarter, hour,
    minute, second, millisecond, microsecond, nanosecond, epochMillis]

/-- The nanoseconds since 1970. -/
def instant (t : LocalDateTime) : Int := t.epochSeconds.toInt * nanosPerSecond + t.nanos.toNat

/-- The nanoseconds since midnight. -/
def nanosOfDay (t : LocalDateTime) : Int := t.instant % nanosPerDay

/-- The date-time lies on the calendar date `c`; its nanoseconds are those of a second. -/
def IsOn (t : LocalDateTime) (c : Civil) : Prop :=
  t.instant / nanosPerDay = c.dayNumber ∧ t.nanos.toNat < nanosPerSecond

instance (t : LocalDateTime) (c : Civil) : Decidable (t.IsOn c) :=
    inferInstanceAs (Decidable (_ ∧ _))

def Readable (t : LocalDateTime) :
    Prop := (∀ f ∈ accessors, ∃ n, f t = .ok n) ∧ ∃ s, t.toIsoString = .ok s

/-- The date-time is the instant `instant`, in the years of openCypher, and readable. -/
def Exact (instant : Int) (t : LocalDateTime) : Prop :=
  t.instant = instant ∧ (∃ c, InYears c ∧ t.IsOn c) ∧ t.Readable

end LocalDateTime

namespace ZonedDateTime

def accessors : List (ZonedDateTime → Checked Int) :=
  [year, month, day, quarter, week, weekYear, ordinalDay, weekDay, dayOfQuarter, hour,
    minute, second, millisecond, microsecond, nanosecond, offsetMinutes, epochSeconds, epochMillis]

def Readable (t : ZonedDateTime) :
    Prop := (∀ f ∈ accessors, ∃ n, f t = .ok n) ∧ ∃ s, t.toIsoString = .ok s

/-- The local part is exact, the zone is the one of `old`, and the whole is readable. -/
def Exact (instant : Int) (old t : ZonedDateTime) : Prop :=
  t.localDateTime.Exact instant ∧ t.offsetSeconds = old.offsetSeconds ∧
    t.zoneId = old.zoneId ∧ t.Readable

end ZonedDateTime

variable {c : Civil} {d : Date} {t : LocalDateTime} {months days : Int}

/-! ## Reading dates -/

lemma year_bounds (hlo : -1000000000000 ≤ c.dayNumber) (hhi : c.dayNumber ≤ 1000000000000) :
    -10000000000 ≤ c.year ∧ c.year ≤ 10000000000 := by
  have := c.yearStart_le
  have := c.lt_yearStart
  unfold yearStart at *
  omega

lemma InYears.bounds (h : InYears c) :
    -400000000000 ≤ c.dayNumber ∧ c.dayNumber ≤ 400000000000 := by
  have := c.yearStart_le
  have := c.lt_yearStart
  unfold InYears maxAbsYear at h
  unfold yearStart at *
  omega

lemma civilFromDays_dayNumber (hlo : -1000000000000 ≤ c.dayNumber)
    (hhi : c.dayNumber ≤ 1000000000000) :
    civilFromDays c.dayNumber = .ok (c.year, c.month, c.day) := by
  obtain ⟨c', hnum, heq⟩ := civilFromDays_eq hlo hhi
  rw [heq, Civil.dayNumber_injective hnum]

/-- The first day of a month. -/
def firstOf (y : Int) (m : Nat) (h1 : 1 ≤ m) (h12 : m ≤ 12) : Civil where
  year := y
  month := m
  day := 1
  month_pos := h1
  month_le := h12
  day_pos := Nat.le_refl 1
  day_le := monthLength_pos y m

lemma daysFromCivil_first {m : Nat} (h1 : 1 ≤ m) (h12 : m ≤ 12) {y : Int} (hlo : -10000000000 ≤ y)
    (hhi : y ≤ 10000000000) : daysFromCivil y m 1 = .ok (yearStart y + monthStart y m) := by
  have h := daysFromCivil_eq (firstOf y m h1 h12) hlo hhi
  simp only [firstOf, Civil.dayNumber, Nat.cast_one, Int.sub_self, Int.add_zero] at h
  exact h

lemma daysFromCivil_newYear {y : Int} (hlo : -10000000000 ≤ y) (hhi : y ≤ 10000000000) :
    daysFromCivil y 1 1 = .ok (yearStart y) :=
  (@daysFromCivil_first 1 (by decide) (by decide) y hlo hhi).trans (congrArg _ (Int.add_zero _))

lemma weekdayFromEpochDays_eq {n : Int} (hlo : -1000000000000 ≤ n) (hhi : n ≤ 1000000000000) :
    weekdayFromEpochDays n = .ok ((n + 3) % 7 + 1) := by
  rw [weekdayFromEpochDays, i64_eq (by omega)]
  rfl

namespace Date

section

variable (hc : InYears c) (hd : d.IsOn c)

include hc hd

lemma toYmd_eq : d.toYmd = .ok (c.year, ↑c.month, ↑c.day) := by
  have hb := hc.bounds
  rw [toYmd, hd, civilFromDays_dayNumber (by omega) (by omega)]

lemma year_eq : d.year = .ok c.year := by
  rw [year, toYmd_eq hc hd]
  rfl

lemma quarter_eq : d.quarter = .ok ((c.month - 1) / 3 + 1) := by
  have hm1 := c.month_pos
  have hm12 := c.month_le
  have hdiv := @Int.tdiv_eq_ediv_of_nonneg (c.month - 1) 3 (by omega)
  simp (disch := omega) only [quarter, month, toYmd_eq hc hd, ok_bind, ok_pure, i64_eq, hdiv]

lemma ordinalDay_eq : d.ordinalDay = .ok (d.epochDays - yearStart c.year + 1) := by
  have hle := c.yearStart_le
  have hlt := c.lt_yearStart
  have hleap := leapDay_le_one c.year
  rw [yearStart_succ] at hlt
  unfold InYears maxAbsYear at hc
  unfold IsOn at hd
  simp (disch := omega) only [ordinalDay, year_eq hc hd, ok_bind, daysFromCivil_newYear, i64_eq]

lemma dayOfQuarter_eq : d.dayOfQuarter =
    .ok (d.epochDays - (yearStart c.year + monthStart c.year ((c.month - 1) / 3 * 3 + 1)) + 1) := by
  have hm1 := c.month_pos
  have hm12 := c.month_le
  have hle := c.day_le
  have hq := monthStart_quarter hm1 hm12 c.year
  have hymd := toYmd_eq hc hd
  have hcast : ((c.month : Int) - 1) / 3 * 3 + 1 = ((c.month - 1) / 3 * 3 + 1 : Nat) := by omega
  unfold InYears maxAbsYear at hc
  unfold IsOn Civil.dayNumber at hd
  simp (disch := omega)
    only [dayOfQuarter, hymd, ok_bind, u32_eq, hcast, daysFromCivil_first, i64_eq]

/-- The week of a date is counted in the year of its Thursday. -/
lemma isoWeekPair_eq :
    ∃ c' : Civil, c'.dayNumber = d.epochDays + (4 - ((d.epochDays + 3) % 7 + 1)) ∧
    d.isoWeekPair = .ok (c'.year, (c'.dayNumber - yearStart c'.year) / 7 + 1) := by
  have hb := hc.bounds
  rw [← hd] at hb
  obtain ⟨c', hnum, -⟩ := @civilFromDays_eq (d.epochDays + (4 - ((d.epochDays + 3) % 7 + 1)))
    (by omega) (by omega)
  have hy := @year_bounds c' (by omega) (by omega)
  have hle := c'.yearStart_le
  have hlt := c'.lt_yearStart
  have hleap := leapDay_le_one c'.year
  rw [yearStart_succ] at hlt
  have hdiv := @Int.tdiv_eq_ediv_of_nonneg _ 7 (Int.sub_nonneg_of_le hle)
  refine ⟨c', hnum, ?_⟩
  simp (disch := omega)
    only [isoWeekPair, weekdayFromEpochDays_eq, ok_bind, i64_eq, ← hnum, civilFromDays_dayNumber,
    daysFromCivil_newYear, hdiv, ok_pure]

/-- **A date in the years of openCypher is readable.** -/
lemma readable : d.Readable := by
  have hb := hc.bounds
  rw [← hd] at hb
  have hymd := toYmd_eq hc hd
  obtain ⟨c', -, hweek⟩ := isoWeekPair_eq hc hd
  refine ⟨?_, _, by rw [toIsoString, hymd]; rfl⟩
  simp (disch := omega)
    [accessors, month, day, week, weekYear, weekDay, hymd, hweek, year_eq hc hd, quarter_eq hc hd,
    ordinalDay_eq hc hd, dayOfQuarter_eq hc hd, ok_bind, ok_pure, weekdayFromEpochDays_eq]

end

end Date
/-! ## Moving dates -/

namespace Date

/-- Months and days, with the two checks on the way. -/
lemma addMonthsDaysClamped_eq (hc : InYears c) (hd : d.IsOn c)
    (hm : -2 ^ 63 ≤ months ∧ months < 2 ^ 63) :
    d.addMonthsDaysClamped months days = if InYears (c.addMonths months) then
        checkedAdd (c.addMonths months).dayNumber days >>= fromEpochDays
      else .error (.error .overflow) := by
  have hyear : (c.addMonths months).year = (c.months + months) / 12 := rfl
  have hmonth : ((c.addMonths months).month : Int) = (c.months + months) % 12 + 1 := by
    simp only [Civil.addMonths]
    omega
  have hm12 := c.month_le
  have htotal : c.year * 12 + c.month - 1 + months = c.months + months := by
    unfold Civil.months
    omega
  have hrange : -2 ^ 62 ≤ (c.months + months) / 12 ∧ (c.months + months) / 12 < 2 ^ 62 := by
    unfold InYears maxAbsYear at hc
    omega
  rw [addMonthsDaysClamped, toYmd_eq hc hd, ok_bind]
  dsimp only
  rw [htotal, if_pos (by omega), ok_bind, i64_eq (by omega), ok_bind]
  by_cases hin : InYears (c.addMonths months)
  · have hlen := daysInMonth_eq (c.addMonths months).month_pos (c.addMonths months).month_le
      (c.addMonths months).year
    have hpos := monthLength_pos (c.addMonths months).year (c.addMonths months).month
    have hday : min (c.day : Int)
      (daysInMonth (c.addMonths months).year (c.addMonths months).month) =
        (c.addMonths months).day := by
      rw [hlen]
      simp only [Civil.addMonths] at hpos ⊢
      omega
    have hb := hin
    unfold InYears maxAbsYear at hb
    rw [if_pos hin, if_neg (by unfold maxAbsYear; omega), asU32_eq (by omega),
      u32_eq (by omega), ok_bind,
      ← hmonth, ← hyear, hday, daysFromCivil_eq _ (by omega) (by omega), ok_bind]
  · rw [if_neg hin, if_pos]
    unfold InYears maxAbsYear at *
    omega

lemma epochDays_ofInt {n : Int} (h : -2 ^ 63 ≤ n ∧ n < 2 ^ 63) : (⟨ofInt n⟩ : Date).epochDays = n :=
  toInt_ofInt_of_le h.1 h.2

lemma checkedAdd_eq {x y : Int} (h : -2 ^ 63 ≤ x + y ∧ x + y < 2 ^ 63) :
    checkedAdd x y = .ok (x + y) := if_pos h

lemma checkedAdd_overflow {x y : Int} (h : ¬ (-2 ^ 63 ≤ x + y ∧ x + y < 2 ^ 63)) :
    checkedAdd x y = .error (.error .overflow) := if_neg h

/-- The moves by months, by days and by a carry: an overflow exactly when a check fails. -/
lemma moved_cases (hc : InYears c) (hd : d.IsOn c) (s : Shift)
    (hm : -2 ^ 63 ≤ s.months ∧ s.months < 2 ^ 63) (carry : Int) :
    s.ReportsOverflow c (s.wholeDays c + carry) ∧
        (d.addMonthsDaysClamped s.months s.days >>= fun x => x.checkedAddDays carry) =
        .error (.error .overflow) ∨
      ¬ s.ReportsOverflow c (s.wholeDays c + carry) ∧
        (d.addMonthsDaysClamped s.months s.days >>= fun x => x.checkedAddDays carry) =
          .ok ⟨ofInt (s.wholeDays c + carry)⟩ := by
  rw [addMonthsDaysClamped_eq hc hd hm]
  by_cases hin : InYears (c.addMonths s.months)
  · rw [if_pos hin]
    by_cases hw : -2 ^ 63 ≤ s.wholeDays c ∧ s.wholeDays c < 2 ^ 63
    · have hadd : checkedAdd (c.addMonths s.months).dayNumber s.days = .ok (s.wholeDays c) :=
        checkedAdd_eq hw
      rw [hadd, ok_bind, fromEpochDays, ok_bind, checkedAddDays, epochDays_ofInt hw]
      by_cases hday : -2 ^ 63 ≤ s.wholeDays c + carry ∧ s.wholeDays c + carry < 2 ^ 63
      · rw [checkedAdd_eq hday]
        exact .inr ⟨fun h => h.elim (· hin) fun h => h.elim (· hw) (· hday), rfl⟩
      · rw [checkedAdd_overflow hday]
        exact .inl ⟨.inr (.inr hday), rfl⟩
    · have hadd : checkedAdd (c.addMonths s.months).dayNumber s.days = .error (.error .overflow) :=
        checkedAdd_overflow hw
      rw [hadd]
      exact .inl ⟨.inr (.inl hw), rfl⟩
  · rw [if_neg hin]
    exact .inl ⟨.inl hin, rfl⟩

lemma addDuration_iff (hc : InYears c) (hd : d.IsOn c) (δ : Duration) :
    OverflowOr (d.addDuration δ) (Exact (δ.shift.day c)) ↔ δ.shift.Safe c (δ.shift.day c) := by
  have hcarry : asI64 (δ.secondsGroupTotalNanos.tdiv nanosPerDay) =
    δ.shift.nanos.tdiv nanosPerDay := by
    have hs := δ.seconds.le_toInt
    have hs' := δ.seconds.toInt_lt
    have hn := δ.nanos.le_toInt
    have hn' := δ.nanos.toInt_lt
    refine asI64_eq ?_
    have habs : (δ.secondsGroupTotalNanos.tdiv nanosPerDay).natAbs =
        δ.secondsGroupTotalNanos.natAbs / 86400000000000 := Int.natAbs_tdiv _ _
    unfold Duration.secondsGroupTotalNanos nanosPerSecond at *
    omega
  have hm : -2 ^ 63 ≤ δ.shift.months ∧ δ.shift.months < 2 ^ 63 :=
    ⟨δ.months.le_toInt, δ.months.toInt_lt⟩
  have hadd : d.addDuration δ = (d.addMonthsDaysClamped δ.shift.months δ.shift.days >>= fun x =>
      x.checkedAddDays (δ.shift.nanos.tdiv nanosPerDay)) := by
    rw [addDuration, hcarry]
    rfl
  rw [hadd]
  rcases moved_cases hc hd δ.shift hm (δ.shift.nanos.tdiv nanosPerDay) with
    ⟨hrep, heq⟩ | ⟨hrep, heq⟩
  · exact ⟨fun _ => .inl hrep, fun _ => .inl heq⟩
  have hday : (⟨ofInt (δ.shift.day c)⟩ : Date).epochDays = δ.shift.day c :=
    epochDays_ofInt (by
      by_contra h
      exact hrep (.inr (.inr h)))
  rw [heq]
  constructor
  · rintro (h | ⟨v, h, -, ⟨c', hin, hon⟩, -⟩)
    · cases h
    · cases h
      exact .inr ⟨c', hin, hon.symm.trans hday⟩
  · rintro (h | ⟨c', hin, hnum⟩)
    · exact absurd h hrep
    · have hon : (⟨ofInt (δ.shift.day c)⟩ : Date).IsOn c' := hday.trans hnum.symm
      exact .inr ⟨_, rfl, hday, ⟨c', hin, hon⟩, readable hin hon⟩

end Date

namespace LocalDateTime

lemma toDateTime_isOn (h : t.IsOn c) :
    t.toDateTime.1.IsOn c ∧ (t.toDateTime.2.nanosOfDay.toNat : Int) = t.nanosOfDay := by
  obtain ⟨hday, hn⟩ := h
  have hlo := t.epochSeconds.le_toInt
  have hhi := t.epochSeconds.toInt_lt
  have hmod : asU64 (t.epochSeconds.toInt % secondsPerDay) = t.epochSeconds.toInt % secondsPerDay :=
    asU64_eq (by unfold secondsPerDay; omega)
  constructor
  · rw [Date.IsOn, toDateTime, Date.epochDays_ofInt (by unfold secondsPerDay; omega)]
    unfold instant nanosPerDay nanosPerSecond secondsPerDay at *
    omega
  simp only [toDateTime]
  rw [UInt64.toNat_ofNat_of_lt' (by unfold nanosPerSecond secondsPerDay size at *; omega)]
  unfold nanosOfDay instant nanosPerDay nanosPerSecond secondsPerDay at *
  omega

lemma readable (hc : InYears c) (h : t.IsOn c) : t.Readable := by
  obtain ⟨hacc, hiso⟩ := Date.readable hc (toDateTime_isOn h).1
  simp only [Date.accessors, forall_mem_cons] at hacc
  obtain ⟨hy, hm, hd, hq, hw, hwy, ho, hwd, hdq, -⟩ := hacc
  refine ⟨?_, ?_⟩
  · simp only [accessors, forall_mem_cons]
    exact ⟨hy, hm, hd, hq, hw, hwy, ho, hwd, hdq, ⟨_, rfl⟩, ⟨_, rfl⟩, ⟨_, rfl⟩, ⟨_, rfl⟩, ⟨_, rfl⟩,
      ⟨_, rfl⟩, ⟨_, rfl⟩, by simp⟩
  · obtain ⟨s, hs⟩ := hiso
    exact ⟨_, by rw [toIsoString, hs, ok_bind, ok_pure]⟩

variable {time : LocalTime} {v : LocalDateTime}

/-- The composition of a date and a time of day: exact, or a wrapped product or sum, which no date
in the years of openCypher gives. -/
lemma fromDateTime_cases (d : Date) (htime : time.nanosOfDay.toNat < nanosPerDay) :
    (fromDateTime d time = .error .wraps ∧ ∀ c, d.IsOn c → ¬ InYears c) ∨
      ∃ v, fromDateTime d time = .ok v ∧
        v.instant = d.epochDays * nanosPerDay + time.nanosOfDay.toNat ∧
        v.nanos.toNat < nanosPerSecond := by
  have hsec : asI64 (time.nanosOfDay.toNat / nanosPerSecond : Nat) =
    (time.nanosOfDay.toNat / nanosPerSecond : Nat) :=
    asI64_eq (by unfold nanosPerDay nanosPerSecond at *; omega)
  rw [fromDateTime, hsec]
  by_cases hmul : -2 ^ 63 ≤ d.epochDays * secondsPerDay ∧ d.epochDays * secondsPerDay < 2 ^ 63
  · rw [i64_eq hmul, ok_bind]
    by_cases hadd : -2 ^ 63 ≤ d.epochDays * secondsPerDay +
      (time.nanosOfDay.toNat / nanosPerSecond : Nat) ∧
        d.epochDays * secondsPerDay + (time.nanosOfDay.toNat / nanosPerSecond : Nat) < 2 ^ 63
    · rw [i64_eq hadd]
      have hn : time.nanosOfDay.toNat % nanosPerSecond < UInt32.size := by
        unfold nanosPerSecond UInt32.size
        omega
      refine .inr ⟨_, rfl, ?_, ?_⟩
      · rw [instant, toInt_ofInt_of_le hadd.1 hadd.2, UInt32.toNat_ofNat_of_lt' hn]
        unfold nanosPerDay nanosPerSecond secondsPerDay
        omega
      · rw [UInt32.toNat_ofNat_of_lt' hn]
        exact Nat.mod_lt _ (by decide)
    · rw [i64, if_neg hadd]
      refine .inl ⟨rfl, fun c hd hc => hadd ?_⟩
      have hb := hc.bounds
      unfold Date.IsOn at hd
      unfold secondsPerDay nanosPerSecond nanosPerDay at *
      omega
  · rw [i64, if_neg hmul]
    refine .inl ⟨rfl, fun c hd hc => hmul ?_⟩
    have hb := hc.bounds
    unfold Date.IsOn at hd
    unfold secondsPerDay
    omega

lemma addDuration_iff (hc : InYears c) (ht : t.IsOn c) (δ : Duration) :
    OverflowOr (t.addDuration δ) (Exact (δ.shift.instant c t.nanosOfDay)) ↔
      δ.shift.Safe c (δ.shift.instant c t.nanosOfDay / nanosPerDay) := by
  obtain ⟨hdate, htime⟩ := toDateTime_isOn ht
  rcases hsplit : t.toDateTime with ⟨date, time⟩
  rw [hsplit] at hdate htime
  have hnod : 0 ≤ t.nanosOfDay ∧ t.nanosOfDay < nanosPerDay := by
    unfold nanosOfDay nanosPerDay
    omega
  have hs := δ.seconds.le_toInt
  have hs' := δ.seconds.toInt_lt
  have hn := δ.nanos.le_toInt
  have hn' := δ.nanos.toInt_lt
  have hm : -2 ^ 63 ≤ δ.shift.months ∧ δ.shift.months < 2 ^ 63 :=
    ⟨δ.months.le_toInt, δ.months.toInt_lt⟩
  generalize htotal : t.nanosOfDay + δ.secondsGroupTotalNanos = total
  have hcarry : asI64 (total / nanosPerDay) = total / nanosPerDay := asI64_eq (by
    unfold Duration.secondsGroupTotalNanos nanosPerSecond nanosPerDay at *
    omega)
  have hrest : asU64 (total % nanosPerDay) = total % nanosPerDay := asU64_eq (by
    unfold nanosPerDay
    omega)
  have hinstant : δ.shift.instant c t.nanosOfDay = δ.shift.wholeDays c * nanosPerDay + total := by
    rw [← htotal, Shift.instant, Int.add_assoc]
    rfl
  have hday : δ.shift.instant c t.nanosOfDay / nanosPerDay = δ.shift.wholeDays c +
    total / nanosPerDay := by
    rw [hinstant]
    unfold nanosPerDay
    omega
  have hadd : t.addDuration δ = (date.addMonthsDaysClamped δ.shift.months δ.shift.days >>= fun x =>
      x.checkedAddDays (total / nanosPerDay)) >>= fun x =>
      fromDateTime x ⟨ofNat (total % nanosPerDay).toNat⟩ := by
    rw [addDuration, hsplit]
    dsimp only at htime ⊢
    rw [htime, htotal, hcarry, hrest, bind_assoc]
    rfl
  have hfit : (ofNat (total % nanosPerDay).toNat).toNat = (total % nanosPerDay).toNat :=
    UInt64.toNat_ofNat_of_lt' (by unfold nanosPerDay size; omega)
  have hlt : ((⟨ofNat (total % nanosPerDay).toNat⟩ : LocalTime).nanosOfDay.toNat : Int) <
    nanosPerDay := by
    rw [hfit]
    unfold nanosPerDay
    omega
  rw [hadd, hday]
  rcases Date.moved_cases hc hdate δ.shift hm (total / nanosPerDay) with ⟨hrep, heq⟩ | ⟨hrep, heq⟩
  · rw [heq]
    exact ⟨fun _ => .inl hrep, fun _ => .inl rfl⟩
  have hdays := @Date.epochDays_ofInt (δ.shift.wholeDays c + total / nanosPerDay) (by
      by_contra h
      exact hrep (.inr (.inr h)))
  rw [heq]
  -- The instant composed from the day and the rest of the nanoseconds is the exact one.
  have hexact : ∀ v : LocalDateTime,
    v.instant = (⟨ofInt (δ.shift.wholeDays c + total / nanosPerDay)⟩ :
      Date).epochDays * nanosPerDay + (ofNat (total % nanosPerDay).toNat).toNat →
      v.instant = δ.shift.instant c t.nanosOfDay := fun v hv => by
    rw [hv, hdays, hfit, hinstant]
    unfold nanosPerDay
    omega
  constructor
  · rintro (h | ⟨v, h, hv, ⟨c', hin, hon⟩, -⟩)
    · rcases fromDateTime_cases _ hlt with ⟨hw, -⟩ | ⟨w, hw, -⟩ <;> cases hw.symm.trans h
    · exact .inr ⟨c', hin, by rw [← hon.1, hv, hday]⟩
  · rintro (h | ⟨c', hin, hnum⟩)
    · exact absurd h hrep
    · rcases fromDateTime_cases _ hlt with ⟨-, hw⟩ | ⟨v, hv, hins, hnanos⟩
      · exact absurd hin (hw c' (hdays.trans hnum.symm))
      · have hon : v.IsOn c' := ⟨by rw [hexact v hins, hday, hnum], hnanos⟩
        exact .inr ⟨v, hv, hexact v hins, ⟨c', hin, hon⟩, readable hin hon⟩

end LocalDateTime

namespace ZonedDateTime

variable {z : ZonedDateTime}

lemma readable (h : z.localDateTime.Readable) : z.Readable := by
  obtain ⟨hacc, s, hs⟩ := h
  simp only [LocalDateTime.accessors, forall_mem_cons] at hacc
  obtain ⟨hy, hm, hd, hq, hw, hwy, ho, hwd, hdq, hh, hmi, hse, hms, hus, hns, -⟩ := hacc
  refine ⟨?_, _, by rw [toIsoString, hs, ok_bind, ok_pure]⟩
  simp only [accessors, forall_mem_cons]
  exact ⟨hy, hm, hd, hq, hw, hwy, ho, hwd, hdq, hh, hmi, hse, hms, hus, hns, ⟨_, rfl⟩, ⟨_, rfl⟩,
    ⟨_, rfl⟩, by simp⟩

lemma addDuration_iff (hc : InYears c) (hz : z.localDateTime.IsOn c) (δ : Duration) :
    OverflowOr (z.addDuration δ) (z.Exact (δ.shift.instant c z.localDateTime.nanosOfDay)) ↔
      δ.shift.Safe c (δ.shift.instant c z.localDateTime.nanosOfDay / nanosPerDay) := by
  rw [← LocalDateTime.addDuration_iff hc hz, addDuration]
  rcases z.localDateTime.addDuration δ with e | v
  · rw [error_bind]
    constructor
    all_goals
      rintro (h | ⟨v, h, -⟩) <;> cases h
      exact .inl rfl
  · rw [ok_bind]
    constructor
    · rintro (h | ⟨w, h, hw, -⟩)
      · cases h
      · cases h
        exact .inr ⟨v, rfl, hw⟩
    · rintro (h | ⟨w, h, hw⟩)
      · cases h
      · cases h
        exact .inr ⟨_, rfl, hw, rfl, rfl, readable hw.2.2⟩

end ZonedDateTime

/-! ## Subtraction -/

namespace Duration

variable {δ : Duration}

lemma negated_eq {bits : Nat} {x : Int} (h : -x < 2 ^ (bits - 1)) :
    negated bits x = .ok (-x) := if_pos h

lemma checkedNeg_cases (δ : Duration) : ¬ δ.Negatable ∧ δ.checkedNeg = .error (.error .overflow) ∨
      δ.Negatable ∧ ∃ δ', δ.checkedNeg = .ok δ' ∧ δ'.shift = δ.shift.neg := by
  have h1 := δ.months.le_toInt
  have h2 := δ.days.le_toInt
  have h3 := δ.seconds.le_toInt
  have h4 := δ.nanos.le_toInt
  have h1' := δ.months.toInt_lt
  have h2' := δ.days.toInt_lt
  have h3' := δ.seconds.toInt_lt
  have h4' := δ.nanos.toInt_lt
  by_cases hneg : δ.Negatable
  · obtain ⟨hm, hd, hs, hn⟩ := hneg
    refine .inr ⟨⟨hm, hd, hs, hn⟩, ⟨ofInt (-δ.months.toInt), ofInt (-δ.days.toInt),
      ofInt (-δ.seconds.toInt), Int32.ofInt (-δ.nanos.toInt)⟩, ?_, ?_⟩
    · rw [checkedNeg, negated_eq (by omega), ok_bind, negated_eq (by omega), ok_bind,
        negated_eq (by omega), ok_bind, negated_eq (by omega), ok_bind, ok_pure]
    simp only [shift, secondsGroupTotalNanos, Shift.neg, Shift.mk.injEq]
    rw [toInt_ofInt_of_le (by omega) (by omega), toInt_ofInt_of_le (by omega) (by omega),
      toInt_ofInt_of_le (by omega) (by omega), Int32.toInt_ofInt_of_le (by omega) (by omega)]
    refine ⟨rfl, rfl, ?_⟩
    unfold nanosPerSecond
    omega
  · refine .inl ⟨hneg, ?_⟩
    unfold Negatable at hneg
    unfold checkedNeg negated
    split_ifs
    · omega
    all_goals rfl

/-- What holds of adding every duration holds of subtracting one that can be negated. -/
lemma sub_iff {α : Type} {f : Duration → Checked α} {Q : Shift → α → Prop} {S : Shift → Prop}
    (h : ∀ δ : Duration, OverflowOr (f δ) (Q δ.shift) ↔ S δ.shift) (δ : Duration) :
    OverflowOr (δ.checkedNeg >>= f) (Q δ.shift.neg) ↔ ¬ δ.Negatable ∨ S δ.shift.neg := by
  rcases checkedNeg_cases δ with ⟨hneg, heq⟩ | ⟨hneg, δ', heq, hshift⟩
  · rw [heq]
    exact ⟨fun _ => .inl hneg, fun _ => .inl rfl⟩
  · rw [heq, ok_bind, ← hshift, h δ']
    exact ⟨.inr, fun hs => hs.resolve_left (not_not.2 hneg)⟩

end Duration

/-! ## Whole durations -/

/-- **Adding and subtracting durations** on a calendar date in the years of openCypher. -/
theorem addDuration_exact_iff (δ : Duration) {d : Date} {t : LocalDateTime} {z : ZonedDateTime}
    (hc : InYears c) (hd : d.IsOn c) (ht : t.IsOn c) (hz : z.localDateTime.IsOn c) :
    (OverflowOr (d.addDuration δ) (Date.Exact (δ.shift.day c)) ↔ δ.shift.Safe c (δ.shift.day c)) ∧
    (OverflowOr (d.subDuration δ) (Date.Exact (δ.shift.neg.day c)) ↔
      ¬ δ.Negatable ∨ δ.shift.neg.Safe c (δ.shift.neg.day c)) ∧
    (OverflowOr (t.addDuration δ) (LocalDateTime.Exact (δ.shift.instant c t.nanosOfDay)) ↔
      δ.shift.Safe c (δ.shift.instant c t.nanosOfDay / nanosPerDay)) ∧
    (OverflowOr (t.subDuration δ) (LocalDateTime.Exact (δ.shift.neg.instant c t.nanosOfDay)) ↔
      ¬ δ.Negatable ∨ δ.shift.neg.Safe c (δ.shift.neg.instant c t.nanosOfDay / nanosPerDay)) ∧
    (OverflowOr (z.addDuration δ) (z.Exact (δ.shift.instant c z.localDateTime.nanosOfDay)) ↔
      δ.shift.Safe c (δ.shift.instant c z.localDateTime.nanosOfDay / nanosPerDay)) ∧
    (OverflowOr (z.subDuration δ) (z.Exact (δ.shift.neg.instant c z.localDateTime.nanosOfDay)) ↔
      ¬ δ.Negatable ∨
        δ.shift.neg.Safe c (δ.shift.neg.instant c z.localDateTime.nanosOfDay / nanosPerDay)) :=
  ⟨Date.addDuration_iff hc hd δ,
    Duration.sub_iff (Q := fun s => Date.Exact (s.day c)) (S := fun s => s.Safe c (s.day c))
      (Date.addDuration_iff hc hd) δ,
    LocalDateTime.addDuration_iff hc ht δ,
    Duration.sub_iff (Q := fun s => LocalDateTime.Exact (s.instant c t.nanosOfDay))
      (S := fun s => s.Safe c (s.instant c t.nanosOfDay / nanosPerDay))
        (LocalDateTime.addDuration_iff hc ht) δ,
    ZonedDateTime.addDuration_iff hc hz δ,
    Duration.sub_iff (Q := fun s => z.Exact (s.instant c z.localDateTime.nanosOfDay))
      (S := fun s => s.Safe c (s.instant c z.localDateTime.nanosOfDay / nanosPerDay))
      (ZonedDateTime.addDuration_iff hc hz) δ⟩

/-- The first of January 1970. -/
def epoch : Civil := firstOf 1970 1 (by decide) (by decide)

/-- A month after midnight of the first of January 1970, by each of the types. -/
theorem addDuration_exact_iff_month :
    OverflowOr ((⟨0⟩ : Date).addDuration ⟨1, 0, 0, 0⟩) (Date.Exact 31) ∧
      OverflowOr ((⟨0, 0⟩ : LocalDateTime).addDuration ⟨1, 0, 0, 0⟩)
        (LocalDateTime.Exact (31 * nanosPerDay)) := by
  have h := @addDuration_exact_iff epoch ⟨1, 0, 0, 0⟩ ⟨0⟩ ⟨0, 0⟩ ⟨⟨0, 0⟩, 0, []⟩ (by decide)
    (by decide +kernel) (by decide +kernel) (by decide +kernel)
  have hfeb : ∃ c', InYears c' ∧ c'.dayNumber = 31 :=
    ⟨firstOf 1970 2 (by decide) (by decide), by decide, by decide⟩
  exact ⟨h.1.2 (.inr hfeb), h.2.2.1.2 (.inr hfeb)⟩

/-- Days are added without a look at the year: a date leaves the years of openCypher, and the
seconds of a date-time leave the 64-bit integers. -/
theorem addDuration_leaves_years :
    (¬ OverflowOr ((⟨0⟩ : Date).addDuration ⟨0, 365241780472, 0, 0⟩) (Date.Exact 365241780472)) ∧
      (⟨0, 0⟩ : LocalDateTime).addDuration ⟨0, 200000000000000, 0, 0⟩ = .error .wraps := by
  refine ⟨?_, by decide +kernel⟩
  have hsum : (⟨0⟩ : Date).addDuration ⟨0, 365241780472, 0, 0⟩ = .ok ⟨365241780472⟩ := by
    decide +kernel
  rw [hsum]
  rintro (h | ⟨v, h, hday, ⟨c, hin, hon⟩, -⟩)
  · cases h
  have hnum : c.dayNumber = 365241780472 := hon.symm.trans hday
  have hlt := c.lt_yearStart
  unfold InYears maxAbsYear at hin
  unfold yearStart at hlt
  omega

end Graphus
