import TinyCLR.Library.Calendar

/-!
# Calendar time

`TimeDriver` counts time in units of 100 ns from the first of January 1601 on. `ToSystemTime` takes
the year to be as many as there are times 365 days, and the month as many as there are times
31 days, and then corrects each by one. The first correction is enough only as long as the leap
days since 1601 and the days of the year together are fewer than those of two years.
-/

namespace TinyCLR.PAL.TimeDriver

open Calendar

structure SystemTime where
  wYear : ℕ
  wMonth : ℕ
  wDayOfWeek : ℕ
  wDay : ℕ
  wHour : ℕ
  wMinute : ℕ
  wSecond : ℕ
  wMilliseconds : ℕ
  deriving DecidableEq

/-- The conversion to `WORD`. -/
def word (x : ℤ) : ℕ := (x % 2 ^ 16).toNat

/-- `BASE_YEAR` -/
def baseYear : ℕ := 1601

/-- `BASE_YEAR_LEAPYEAR_ADJUST` -/
def baseYearLeapyearAdjust : ℤ := 388

/-- `DAYS_IN_NORMAL_YEAR` -/
def daysInNormalYear : ℤ := 365

/-- `BASE_YEAR_DAYOFWEEK_SHIFT` -/
def baseYearDayofweekShift : ℤ := 1

def cummulativeDaysForMonth : List ℤ :=
  [0, 31, 59, 90, 120, 151, 181, 212, 243, 273, 304, 334, 365]

/-- `IS_LEAP_YEAR` -/
def isLeapYear (y : ℤ) : Bool := (y.tmod 4 = 0 ∧ y.tmod 100 ≠ 0) ∨ y.tmod 400 = 0

/-- `NUMBER_OF_LEAP_YEARS` -/
def numberOfLeapYears (y : ℤ) : ℤ :=
  (y - 1).tdiv 4 - (y - 1).tdiv 100 + (y - 1).tdiv 400 - baseYearLeapyearAdjust

/-- `YEARS_TO_DAYS` -/
def yearsToDays (y : ℤ) : ℤ := (y - baseYear) * daysInNormalYear + numberOfLeapYears y

/-- `MONTH_TO_DAYS`; `none` where it reads outside the table. -/
def monthToDays (y m : ℤ) : Option ℤ :=
  if m - 1 < 0 then none
  else cummulativeDaysForMonth[(m - 1).toNat]?.map (· + if isLeapYear y ∧ m > 2 then 1 else 0)

/-- The year of `ToSystemTime`. -/
def yearOf (days : ℤ) : ℕ :=
  let wYear := word (days.tdiv daysInNormalYear + baseYear)
  if yearsToDays wYear > days then word (wYear - 1) else wYear

/-- The month and the day of `ToSystemTime`, for the days since the year began. -/
def monthAndDayOf (wYear : ℕ) (days : ℤ) : Option (ℕ × ℕ) := do
  let wMonth := word (days.tdiv 31 + 1)
  let mtd ← monthToDays wYear (wMonth + 1)
  let wMonth := if mtd ≤ days then word (wMonth + 1) else wMonth
  let mtd ← monthToDays wYear wMonth
  return (wMonth, word (days - mtd + 1))

/-- `ToSystemTime` -/
def toSystemTime (time : ℤ) : Option SystemTime := do
  let milliseconds := time.tdiv 10000
  let seconds := milliseconds.tdiv 1000
  let minutes := seconds.tdiv 60
  let hours := minutes.tdiv 60
  let days := hours.tdiv 24
  let wYear := yearOf days
  let (wMonth, wDay) ← monthAndDayOf wYear (days - yearsToDays wYear)
  return {
    wYear, wMonth, wDay
    wDayOfWeek := word ((days + baseYearDayofweekShift).tmod 7)
    wHour := word (hours.tmod 24)
    wMinute := word (minutes.tmod 60)
    wSecond := word (seconds.tmod 60)
    wMilliseconds := word (milliseconds.tmod 1000) }

/-- `FromSystemTime` -/
def fromSystemTime (s : SystemTime) : Option ℤ := do
  let mtd ← monthToDays s.wYear s.wMonth
  let r := yearsToDays s.wYear + mtd + s.wDay - 1
  return ((((r * 24 + s.wHour) * 60 + s.wMinute) * 60 + s.wSecond) * 1000 + s.wMilliseconds) * 10000

/-! ## Dates and times of day -/

/-- A date with a time of day, from 1601 up to 9999. -/
structure Moment where
  date : Date
  hour : ℕ
  minute : ℕ
  second : ℕ
  millisecond : ℕ
  year_ge : baseYear ≤ date.year
  year_le : date.year ≤ 9999
  hour_lt : hour < 24
  minute_lt : minute < 60
  second_lt : second < 60
  millisecond_lt : millisecond < 1000

namespace Moment

/-- The days since the first of January 1601, which was a Monday. -/
def days (m : Moment) : ℕ := m.date.number baseYear

def milliseconds (m : Moment) : ℕ :=
  (((m.days * 24 + m.hour) * 60 + m.minute) * 60 + m.second) * 1000 + m.millisecond

/-- The fields that show it; the days of the week are counted from Sunday on. -/
def systemTime (m : Moment) : SystemTime where
  wYear := m.date.year
  wMonth := m.date.month
  wDay := m.date.day
  wDayOfWeek := (m.days + 1) % 7
  wHour := m.hour
  wMinute := m.minute
  wSecond := m.second
  wMilliseconds := m.millisecond

/-- The leap days since 1601 and the days since the year began are fewer than those of two years. -/
def Early (m : Moment) : Prop :=
  leapYearsBefore baseYear m.date.year + m.date.dayOfYear < 2 * 365

end Moment

/-- The first of January 10000. -/
def endOfTime : ℤ := daysBeforeYear baseYear 10000 * (24 * 60 * 60 * 1000 * 10000)

/-- The time is shown as the moment, from which it comes back without the part of a millisecond. -/
def Converted (time : ℤ) (m : Moment) : Prop :=
  toSystemTime time = some m.systemTime ∧
    fromSystemTime m.systemTime = some (time - time % 10000)

/-! ## The tables -/

section Tables

variable {year month : ℕ}

theorem isLeapYear_eq (year : ℕ) : isLeapYear year = decide (IsLeap year) := by
  have htmod : ∀ k : ℕ, (year : ℤ).tmod k = (year % k : ℕ) := fun k => rfl
  have h4 := htmod 4
  have h100 := htmod 100
  have h400 := htmod 400
  push_cast at h4 h100 h400
  rw [isLeapYear, h4, h100, h400]
  apply decide_eq_decide.mpr
  rw [IsLeap]
  omega

/-- The leap years up to a year, by the divisors that make one. -/
theorem leapYears_count (h : baseYear ≤ year) :
    (year - 1) / 4 + (year - 1) / 400 =
      388 + leapYearsBefore baseYear year + (year - 1) / 100 := by
  induction year, h using Nat.le_induction with
  | base => simp [leapYearsBefore, baseYear]
  | succ year h ih =>
      obtain ⟨n, rfl⟩ : ∃ n, year = n + 1 := ⟨year - 1, by rw [baseYear] at h; omega⟩
      have h4 := @Nat.succ_div n 4
      have h100 := @Nat.succ_div n 100
      have h400 := @Nat.succ_div n 400
      rw [leapYearsBefore_succ h]
      simp only [Nat.add_sub_cancel] at ih ⊢
      rw [h4, h100, h400]
      by_cases hleap : IsLeap (n + 1)
      · rw [if_pos hleap]
        rw [IsLeap] at hleap
        split_ifs <;> omega
      · rw [if_neg hleap]
        rw [IsLeap] at hleap
        split_ifs <;> omega

theorem numberOfLeapYears_eq (h : baseYear ≤ year) :
    numberOfLeapYears year = leapYearsBefore baseYear year := by
  have hcount := leapYears_count h
  have hsub : ((year : ℤ) - 1) = (year - 1 : ℕ) := by
    rw [baseYear] at h
    omega
  have htdiv : ∀ k : ℕ, ((year - 1 : ℕ) : ℤ).tdiv k = ((year - 1) / k : ℕ) := fun k => rfl
  rw [numberOfLeapYears, hsub, baseYearLeapyearAdjust]
  rw [show (4 : ℤ) = (4 : ℕ) from rfl, show (100 : ℤ) = (100 : ℕ) from rfl,
    show (400 : ℤ) = (400 : ℕ) from rfl, htdiv, htdiv, htdiv]
  omega

theorem yearsToDays_eq (h : baseYear ≤ year) :
    yearsToDays year = daysBeforeYear baseYear year := by
  rw [yearsToDays, numberOfLeapYears_eq h, daysBeforeYear_eq h, daysInNormalYear]
  omega

/-- The months before the first one and before the one after the last are in the table as well. -/
theorem monthToDays_eq (year : ℕ) (hpos : 1 ≤ month) (hle : month ≤ 13) :
    monthToDays year month = some (daysBeforeMonth (IsLeap year) month : ℤ) := by
  rw [monthToDays, if_neg (by omega), isLeapYear_eq]
  by_cases h : IsLeap year <;> interval_cases month <;>
    simp [h, cummulativeDaysForMonth, daysBeforeMonth, daysInMonth, Finset.sum_Ico_succ_top]

end Tables

theorem word_natCast {n : ℕ} (h : n < 2 ^ 16) : word n = n := by
  rw [word]
  omega

/-! ## The corrections -/

section Corrections

variable (d : Date)

/-- The year is estimated too late by a year for every 365 leap days and days since it began. -/
theorem number_div (h : baseYear ≤ d.year) :
    d.number baseYear / 365 + baseYear =
      d.year + (leapYearsBefore baseYear d.year + d.dayOfYear) / 365 := by
  rw [Date.number, daysBeforeYear_eq h]
  omega

/-- A year is over before the day, or begins after it. -/
theorem daysBeforeYear_le_iff {year : ℕ} (h : baseYear ≤ d.year) :
    daysBeforeYear baseYear year ≤ d.number baseYear ↔ year ≤ d.year := by
  constructor
  · intro hle
    by_contra hlater
    have hmono := daysBeforeYear_mono baseYear (show d.year + 1 ≤ year by omega)
    have hlt := d.number_lt h
    omega
  · intro hle
    exact (daysBeforeYear_mono baseYear hle).trans (Nat.le_add_right _ _)

theorem leapYearsBefore_le (base year : ℕ) : leapYearsBefore base year ≤ year - base := by
  rw [leapYearsBefore]
  exact (Finset.card_filter_le _ _).trans_eq (Nat.card_Ico _ _)

theorem yearOf_number (h : baseYear ≤ d.year) (hle : d.year ≤ 9999) :
    yearOf (d.number baseYear : ℕ) =
      if (leapYearsBefore baseYear d.year + d.dayOfYear) / 365 = 0 then d.year
      else d.year + (leapYearsBefore baseYear d.year + d.dayOfYear) / 365 - 1 := by
  have hdiv := number_div d h
  have hleap := leapYearsBefore_le baseYear d.year
  have hday := d.dayOfYear_lt
  have hyear : daysInYear d.year ≤ 366 := by
    rw [daysInYear]
    split_ifs <;> omega
  generalize hlate : (leapYearsBefore baseYear d.year + d.dayOfYear) / 365 = late at hdiv
  have hestimate : ((d.number baseYear : ℕ) : ℤ).tdiv daysInNormalYear + baseYear =
      (d.year + late : ℕ) := by
    rw [← hdiv]
    rfl
  rw [yearOf, hestimate, word_natCast (by rw [baseYear] at *; omega)]
  simp only [yearsToDays_eq (show baseYear ≤ d.year + late by omega)]
  by_cases hzero : late = 0
  · rw [if_pos hzero, hzero, if_neg]
    · rfl
    · have hle := (daysBeforeYear_le_iff d h).mpr (le_refl d.year)
      rw [Nat.add_zero]
      omega
  · have hlater : ¬daysBeforeYear baseYear (d.year + late) ≤ d.number baseYear := by
      rw [daysBeforeYear_le_iff d h]
      omega
    have hpred : ((d.year + late : ℕ) : ℤ) - 1 = (d.year + late - 1 : ℕ) := by omega
    rw [if_neg hzero, if_pos (by omega), hpred, word_natCast (by rw [baseYear] at *; omega)]

/-- The month is estimated too early by one at most. -/
theorem month_estimate :
    d.dayOfYear / 31 + 1 = d.month ∨ d.dayOfYear / 31 + 1 + 1 = d.month := by
  obtain ⟨year, month, day, hpos, hle, hday, hdays⟩ := d
  simp only [Date.dayOfYear]
  by_cases h : IsLeap year <;> interval_cases month <;>
    simp [h, daysBeforeMonth, daysInMonth, Finset.sum_Ico_succ_top] at hdays ⊢ <;> omega

theorem monthAndDayOf_dayOfYear :
    monthAndDayOf d.year (d.dayOfYear : ℕ) = some (d.month, d.day) := by
  have hpos := d.month_pos
  have hle := d.month_le
  have hday := d.day_pos
  have hmonth := month_estimate d
  have hmonthDays := daysBeforeMonth_succ (IsLeap d.year) hpos
  have hdays := d.day_le
  have hnumber : d.dayOfYear = daysBeforeMonth (IsLeap d.year) d.month + (d.day - 1) := rfl
  have hestimate : ((d.dayOfYear : ℕ) : ℤ).tdiv 31 + 1 = (d.dayOfYear / 31 + 1 : ℕ) := rfl
  have hshort : d.day < 2 ^ 16 := by
    have hmax : daysInMonth (IsLeap d.year) d.month ≤ 31 := by
      rw [daysInMonth]
      split_ifs <;> omega
    omega
  have hshown : word (((d.dayOfYear : ℕ) : ℤ) -
      (daysBeforeMonth (IsLeap d.year) d.month : ℕ) + 1) = d.day := by
    have heq : ((d.dayOfYear : ℕ) : ℤ) - (daysBeforeMonth (IsLeap d.year) d.month : ℕ) + 1 =
        (d.day : ℕ) := by omega
    rw [heq, word_natCast hshort]
  have hlast := monthToDays_eq d.year hpos (by omega)
  rw [monthAndDayOf, hestimate, word_natCast (by omega)]
  rcases hmonth with hright | hearly
  · have hnext := monthToDays_eq d.year (show 1 ≤ d.month + 1 by omega) (by omega)
    push_cast at hnext
    simp only [hright, hnext, Option.bind_eq_bind, Option.bind_some]
    rw [if_neg (by omega), hlast]
    simp only [Option.bind_some, hshown]
    rfl
  · have hcast : ((d.dayOfYear / 31 + 1 : ℕ) : ℤ) + 1 = (d.month : ℕ) := by omega
    simp only [hcast, hlast, Option.bind_eq_bind, Option.bind_some]
    rw [if_pos (by omega), word_natCast (by omega), hlast]
    simp only [Option.bind_some, hshown]
    rfl

end Corrections

/-! ## Both conversions -/

section Conversions

variable (m : Moment)

theorem tdiv_mul_add {a b k : ℕ} (hb : b < k) : ((a * k + b : ℕ) : ℤ).tdiv k = a := by
  have htdiv : ((a * k + b : ℕ) : ℤ).tdiv k = ((a * k + b) / k : ℕ) := rfl
  rw [htdiv, Nat.mul_comm, Nat.mul_add_div (by omega), Nat.div_eq_of_lt hb, Nat.add_zero]

theorem tmod_mul_add {a b k : ℕ} (hb : b < k) : ((a * k + b : ℕ) : ℤ).tmod k = b := by
  have htmod : ((a * k + b : ℕ) : ℤ).tmod k = ((a * k + b) % k : ℕ) := rfl
  rw [htmod, Nat.mul_comm, Nat.mul_add_mod, Nat.mod_eq_of_lt hb]

/-- The time of day is taken off unit by unit. -/
theorem toSystemTime_eq {rest : ℕ} (hrest : rest < 10000) :
    toSystemTime (m.milliseconds * 10000 + rest : ℕ) = do
      let wYear := yearOf m.days
      let (wMonth, wDay) ← monthAndDayOf wYear (m.days - yearsToDays wYear)
      return { m.systemTime with wYear, wMonth, wDay } := by
  have hhour := m.hour_lt
  have hminute := m.minute_lt
  have hsecond := m.second_lt
  have hmillisecond := m.millisecond_lt
  have hmilliseconds : ((m.milliseconds * 10000 + rest : ℕ) : ℤ).tdiv 10000 = m.milliseconds :=
    tdiv_mul_add hrest
  have hseconds : (m.milliseconds : ℤ).tdiv 1000 =
      (((m.days * 24 + m.hour) * 60 + m.minute) * 60 + m.second : ℕ) := tdiv_mul_add hmillisecond
  have hminutes : ((((m.days * 24 + m.hour) * 60 + m.minute) * 60 + m.second : ℕ) : ℤ).tdiv 60 =
      ((m.days * 24 + m.hour) * 60 + m.minute : ℕ) := tdiv_mul_add hsecond
  have hhours : (((m.days * 24 + m.hour) * 60 + m.minute : ℕ) : ℤ).tdiv 60 =
      (m.days * 24 + m.hour : ℕ) := tdiv_mul_add hminute
  have hdays : ((m.days * 24 + m.hour : ℕ) : ℤ).tdiv 24 = m.days := tdiv_mul_add hhour
  have hms : (m.milliseconds : ℤ).tmod 1000 = m.millisecond := tmod_mul_add hmillisecond
  have hs : ((((m.days * 24 + m.hour) * 60 + m.minute) * 60 + m.second : ℕ) : ℤ).tmod 60 =
      m.second := tmod_mul_add hsecond
  have hmin : (((m.days * 24 + m.hour) * 60 + m.minute : ℕ) : ℤ).tmod 60 = m.minute :=
    tmod_mul_add hminute
  have hh : ((m.days * 24 + m.hour : ℕ) : ℤ).tmod 24 = m.hour := tmod_mul_add hhour
  have hweek : ((m.days : ℤ) + baseYearDayofweekShift).tmod 7 = ((m.days + 1) % 7 : ℕ) := rfl
  simp only [toSystemTime, hmilliseconds, hseconds, hminutes, hhours, hdays, hms, hs, hmin, hh,
    hweek, Moment.systemTime]
  rw [word_natCast (by omega), word_natCast (by omega), word_natCast (by omega),
    word_natCast (by omega), word_natCast (by omega)]

theorem fromSystemTime_systemTime :
    fromSystemTime m.systemTime = some ((m.milliseconds : ℤ) * 10000) := by
  have hmonth := monthToDays_eq m.date.year m.date.month_pos (by have := m.date.month_le; omega)
  have hday := m.date.day_pos
  have hdays : yearsToDays m.date.year + daysBeforeMonth (IsLeap m.date.year) m.date.month +
      m.date.day - 1 = m.days := by
    rw [yearsToDays_eq m.year_ge, Moment.days, Date.number, Date.dayOfYear]
    omega
  simp only [fromSystemTime, Moment.systemTime, hmonth, Option.bind_eq_bind, Option.bind_some,
    hdays, Moment.milliseconds]
  push_cast
  rfl

theorem yearOf_days_of_early (h : m.Early) : yearOf m.days = m.date.year := by
  rw [Moment.Early] at h
  rw [Moment.days, yearOf_number m.date m.year_ge m.year_le]
  split_ifs <;> omega

theorem yearOf_days_of_late (h : ¬m.Early) : m.date.year < yearOf m.days := by
  rw [Moment.Early] at h
  rw [Moment.days, yearOf_number m.date m.year_ge m.year_le]
  split_ifs <;> omega

/-- The fields are right as long as the year is. -/
theorem toSystemTime_iff {rest : ℕ} (hrest : rest < 10000) :
    toSystemTime (m.milliseconds * 10000 + rest : ℕ) = some m.systemTime ↔ m.Early := by
  rw [toSystemTime_eq m hrest]
  constructor
  · intro h
    by_contra hlate
    have hyear := yearOf_days_of_late m hlate
    obtain ⟨⟨wMonth, wDay⟩, -, hfields⟩ := Option.bind_eq_some_iff.mp h
    have hwYear := congrArg (Option.map SystemTime.wYear) hfields
    simp only [Option.map_some, Moment.systemTime] at hwYear
    have heq : yearOf m.days = m.date.year := by simpa using hwYear
    omega
  · intro h
    have hsplit : (m.days : ℤ) - yearsToDays m.date.year = (m.date.dayOfYear : ℕ) := by
      rw [yearsToDays_eq m.year_ge, Moment.days, Date.number]
      omega
    simp only [yearOf_days_of_early m h, hsplit, monthAndDayOf_dayOfYear]
    rfl

/-- Every time up to the end of 9999 shows a moment. -/
theorem exists_moment {time : ℤ} (h₀ : 0 ≤ time) (h : time < endOfTime) :
    ∃ m : Moment, time / 10000 = m.milliseconds := by
  obtain ⟨n, rfl⟩ := Int.eq_ofNat_of_zero_le h₀
  obtain ⟨d, hbase, hnumber⟩ := exists_date baseYear (n / (24 * 60 * 60 * 1000 * 10000))
  have hlast : d.year ≤ 9999 := by
    have hday : ¬daysBeforeYear baseYear 10000 ≤ d.number baseYear := by
      rw [hnumber]
      rw [endOfTime] at h
      omega
    rw [daysBeforeYear_le_iff d hbase] at hday
    omega
  refine ⟨⟨d, n / (60 * 60 * 1000 * 10000) % 24, n / (60 * 1000 * 10000) % 60,
    n / (1000 * 10000) % 60, n / 10000 % 1000, hbase, hlast, Nat.mod_lt _ (by decide),
    Nat.mod_lt _ (by decide), Nat.mod_lt _ (by decide), Nat.mod_lt _ (by decide)⟩, ?_⟩
  simp only [Moment.milliseconds, Moment.days, hnumber]
  omega

end Conversions

/-- A time is shown as the moment it is, and comes back, if and only if that is an early one; and
these are the moments whose fields are converted to a time and back. -/
theorem conversion_iff_early (time : ℤ) (m : Moment) :
    (0 ≤ time → time < endOfTime → ∃ m : Moment, time / 10000 = m.milliseconds) ∧
    (time / 10000 = m.milliseconds → (Converted time m ↔ m.Early)) ∧
    ((fromSystemTime m.systemTime).bind toSystemTime = some m.systemTime ↔ m.Early) := by
  refine ⟨fun h₀ h => exists_moment h₀ h, ?_, ?_⟩
  · intro hm
    have htime : time = (m.milliseconds * 10000 + (time % 10000).toNat : ℕ) := by omega
    have hrest : (time % 10000).toNat < 10000 := by omega
    have hback : fromSystemTime m.systemTime = some (time - time % 10000) := by
      rw [fromSystemTime_systemTime]
      congr 1
      omega
    rw [Converted, and_iff_left hback, htime]
    exact toSystemTime_iff m hrest
  · have hwhole := toSystemTime_iff m (show 0 < 10000 by decide)
    rw [Nat.add_zero] at hwhole
    rw [fromSystemTime_systemTime, Option.bind_some, ← hwhole]
    push_cast
    rfl

theorem conversion_iff_early_start :
    Converted 15000 ⟨⟨1601, 1, 1, by decide, by decide, by decide, by decide⟩, 0, 0, 0, 1,
      by decide, by decide, by decide, by decide, by decide, by decide⟩ := by
  apply ((conversion_iff_early 15000 _).2.1 (by decide +kernel)).mpr
  unfold Moment.Early
  decide +kernel

/-- On the last day of 9999 the month is read far outside the table. -/
theorem not_converted_last :
    ¬∀ time : ℤ, 0 ≤ time → time < endOfTime →
      ∃ m : Moment, time / 10000 = m.milliseconds ∧ Converted time m := by
  intro hall
  have hlast : (2650466880000000000 : ℤ) < endOfTime := by decide +kernel
  obtain ⟨m, -, hshown, -⟩ := hall 2650466880000000000 (by decide) hlast
  have hnone : toSystemTime 2650466880000000000 = none := by decide +kernel
  rw [hnone] at hshown
  cases hshown

end TinyCLR.PAL.TimeDriver
