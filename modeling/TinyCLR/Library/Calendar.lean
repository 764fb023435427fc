import Mathlib

/-!
# The Gregorian calendar

The calendar by its rules: which years are leap years, and how many days a month has. Days are
counted by adding up those of the years and months before. Each number of days from the first of
January of some year on is that of one date.
-/

namespace Calendar

open Finset

def IsLeap (year : ℕ) : Prop := (year % 4 = 0 ∧ year % 100 ≠ 0) ∨ year % 400 = 0

instance (year : ℕ) : Decidable (IsLeap year) := inferInstanceAs (Decidable (_ ∨ _))

def daysInYear (year : ℕ) : ℕ := if IsLeap year then 366 else 365

/-- The days of a month, counted from 1, of a year that is a leap year or is none. -/
def daysInMonth (leap : Prop) [Decidable leap] (month : ℕ) : ℕ :=
  if month = 2 then if leap then 29 else 28
  else if month = 4 ∨ month = 6 ∨ month = 9 ∨ month = 11 then 30
  else 31

/-- The days of the years before one, from another on. -/
def daysBeforeYear (base year : ℕ) : ℕ := ∑ y ∈ Ico base year, daysInYear y

/-- The leap years among them. -/
def leapYearsBefore (base year : ℕ) : ℕ := #{y ∈ Ico base year | IsLeap y}

/-- The days of the months before one. -/
def daysBeforeMonth (leap : Prop) [Decidable leap] (month : ℕ) : ℕ :=
  ∑ m ∈ Ico 1 month, daysInMonth leap m

structure Date where
  year : ℕ
  month : ℕ
  day : ℕ
  month_pos : 1 ≤ month
  month_le : month ≤ 12
  day_pos : 1 ≤ day
  day_le : day ≤ daysInMonth (IsLeap year) month

namespace Date

/-- The days of the year before this one. -/
def dayOfYear (d : Date) : ℕ := daysBeforeMonth (IsLeap d.year) d.month + (d.day - 1)

/-- The days from the first of January of some year on. -/
def number (base : ℕ) (d : Date) : ℕ := daysBeforeYear base d.year + d.dayOfYear

end Date

variable {base year : ℕ}

theorem daysInMonth_pos (leap : Prop) [Decidable leap] (month : ℕ) :
    0 < daysInMonth leap month := by
  rw [daysInMonth]
  split_ifs <;> decide

@[simp] theorem daysBeforeMonth_one (leap : Prop) [Decidable leap] :
    daysBeforeMonth leap 1 = 0 := by
  simp [daysBeforeMonth]

theorem daysBeforeMonth_succ (leap : Prop) [Decidable leap] {month : ℕ} (h : 1 ≤ month) :
    daysBeforeMonth leap (month + 1) = daysBeforeMonth leap month + daysInMonth leap month := by
  rw [daysBeforeMonth, sum_Ico_succ_top h, daysBeforeMonth]

/-- The months make up the year. -/
theorem daysBeforeMonth_thirteen (year : ℕ) :
    daysBeforeMonth (IsLeap year) 13 = daysInYear year := by
  by_cases h : IsLeap year <;> simp [daysBeforeMonth, daysInYear, daysInMonth, h, sum_Ico_succ_top]

@[simp] theorem daysBeforeYear_self (base : ℕ) : daysBeforeYear base base = 0 := by
  simp [daysBeforeYear]

theorem daysBeforeYear_succ (h : base ≤ year) :
    daysBeforeYear base (year + 1) = daysBeforeYear base year + daysInYear year := by
  rw [daysBeforeYear, sum_Ico_succ_top h, daysBeforeYear]

theorem leapYearsBefore_succ (h : base ≤ year) :
    leapYearsBefore base (year + 1) =
      leapYearsBefore base year + if IsLeap year then 1 else 0 := by
  rw [leapYearsBefore, Nat.Ico_succ_right_eq_insert_Ico h, filter_insert, leapYearsBefore]
  by_cases hleap : IsLeap year
  · rw [if_pos hleap, if_pos hleap, card_insert_of_notMem]
    simp
  · rw [if_neg hleap, if_neg hleap, Nat.add_zero]

/-- A leap year has a day more. -/
theorem daysBeforeYear_eq (h : base ≤ year) :
    daysBeforeYear base year = 365 * (year - base) + leapYearsBefore base year := by
  induction year, h using Nat.le_induction with
  | base => simp [leapYearsBefore]
  | succ year h ih =>
      rw [daysBeforeYear_succ h, leapYearsBefore_succ h, ih, daysInYear]
      split_ifs <;> omega

theorem daysBeforeYear_mono (base : ℕ) {a b : ℕ} (h : a ≤ b) :
    daysBeforeYear base a ≤ daysBeforeYear base b :=
  sum_le_sum_of_subset (Ico_subset_Ico_right h)

theorem Date.dayOfYear_lt (d : Date) : d.dayOfYear < daysInYear d.year := by
  have hmonth := daysBeforeMonth_succ (IsLeap d.year) d.month_pos
  have hmono : daysBeforeMonth (IsLeap d.year) (d.month + 1) ≤
      daysBeforeMonth (IsLeap d.year) 13 :=
    sum_le_sum_of_subset (Ico_subset_Ico_right (by have := d.month_le; omega))
  rw [daysBeforeMonth_thirteen] at hmono
  have hday := d.day_le
  have hpos := d.day_pos
  rw [dayOfYear]
  omega

theorem Date.number_lt {d : Date} (h : base ≤ d.year) :
    d.number base < daysBeforeYear base (d.year + 1) := by
  rw [number, daysBeforeYear_succ h]
  have := d.dayOfYear_lt
  omega

/-- The month of a day of the year. -/
theorem exists_month {n : ℕ} (hn : n < daysInYear year) :
    ∃ month, 1 ≤ month ∧ month ≤ 12 ∧ daysBeforeMonth (IsLeap year) month ≤ n ∧
      n < daysBeforeMonth (IsLeap year) (month + 1) := by
  -- the last month that does not begin after the day
  have hfirst : daysBeforeMonth (IsLeap year) 1 ≤ n := by
    rw [daysBeforeMonth_one]
    exact Nat.zero_le n
  have hend : n < daysBeforeMonth (IsLeap year) 13 := by rwa [daysBeforeMonth_thirteen]
  by_contra hnone
  push Not at hnone
  have hall : ∀ k ≤ 12, daysBeforeMonth (IsLeap year) (k + 1) ≤ n := by
    intro k hk
    induction k with
    | zero => exact hfirst
    | succ k ih => exact hnone (k + 1) (by omega) hk (ih (by omega))
  exact absurd (hall 12 le_rfl) (not_le.mpr hend)

theorem exists_year (base n : ℕ) :
    ∃ year, base ≤ year ∧ daysBeforeYear base year ≤ n ∧ n < daysBeforeYear base (year + 1) := by
  induction n with
  | zero =>
      refine ⟨base, le_rfl, by simp, ?_⟩
      rw [daysBeforeYear_succ le_rfl, daysInYear]
      split_ifs <;> omega
  | succ n ih =>
      obtain ⟨year, hbase, hle, hlt⟩ := ih
      by_cases hsame : n + 1 < daysBeforeYear base (year + 1)
      · exact ⟨year, hbase, by omega, hsame⟩
      · refine ⟨year + 1, by omega, by omega, ?_⟩
        rw [daysBeforeYear_succ (by omega), daysInYear]
        split_ifs <;> omega

/-- Every day has a date. -/
theorem exists_date (base n : ℕ) : ∃ d : Date, base ≤ d.year ∧ d.number base = n := by
  obtain ⟨year, hbase, hle, hlt⟩ := exists_year base n
  rw [daysBeforeYear_succ hbase] at hlt
  obtain ⟨month, hpos, hmonth, hfirst, hlast⟩ :=
    exists_month (show n - daysBeforeYear base year < daysInYear year by omega)
  rw [daysBeforeMonth_succ _ hpos] at hlast
  have hday : n - daysBeforeYear base year - daysBeforeMonth (IsLeap year) month + 1 ≤
      daysInMonth (IsLeap year) month := by omega
  refine ⟨⟨year, month, _, hpos, hmonth, by omega, hday⟩, hbase, ?_⟩
  simp only [Date.number, Date.dayOfYear]
  omega

end Calendar
