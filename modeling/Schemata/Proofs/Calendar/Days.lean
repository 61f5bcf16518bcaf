import Schemata.Calendar.Date
import Mathlib.Order.Monotone.Basic

/-!
# Counting Days

The number of a day, counted from the beginning of 1970.

A date walks to the day beside it in cases, within a month, over the end of a
month and over the end of a year. Counted, all of them are one step. The count
is a closed formula for the years and a sum for the months, and a date cannot
be beyond its month nor a month beyond its year, so no two dates have the same
number.

## Main definitions

* `yearStart`: The number of the first day of a year.
* `monthStart`: The days of a year in front of a month.
* `Date.number`: The number of a day.

## Theorems

* `yearStart_succ`: A year is as long as its months are.
* `Date.number_next`, `Date.number_previous`: The days beside a day.
* `Date.number_injective`: A day is known by its number.
-/

namespace Schemata

/-- The number of the first day of a year. That of 1970 has the number zero, and in front of it
    there are 477 leap days. -/
def yearStart (year : Int) : Int :=
  365 * (year - 1970) + ((year - 1) / 4 - (year - 1) / 100 + (year - 1) / 400) - 477

/-- The days of a year in front of a month. -/
def monthStart (year : Int) : Nat → Nat
  | 0 => 0
  | month + 1 => monthStart year month + daysInMonth year month

/-- The number of a day, from the first day of 1970 on. -/
def Date.number (date : Date) : Int :=
  yearStart date.year + monthStart date.year date.month + date.day - 1

example : (Date.mk 1970 1 1 (by decide) (by decide)).number = 0 := rfl

/-! ### Years and months -/

theorem monthStart_one (year : Int) : monthStart year 1 = 0 :=
  rfl

theorem monthStart_sub_one (year : Int) (month : Nat) (h : 1 ≤ month) :
    monthStart year month = monthStart year (month - 1) + daysInMonth year (month - 1) := by
  rw [← monthStart, Nat.succ_eq_add_one, Nat.sub_add_cancel h]

theorem daysInMonth_le (year : Int) (month : Nat) : daysInMonth year month ≤ 31 := by
  unfold daysInMonth
  split
  case h_12 => split <;> decide
  all_goals decide

/-- All months together are 365 days long, or 366. -/
theorem monthStart_thirteen (year : Int) :
    monthStart year 13 = if isLeapYear year = true then 366 else 365 := by
  simp only [monthStart, daysInMonth]
  split <;> rfl

theorem isLeapYear_iff (year : Int) :
    isLeapYear year = true ↔ year % 4 = 0 ∧ (year % 100 ≠ 0 ∨ year % 400 = 0) := by
  simp only [isLeapYear, Bool.and_eq_true, Bool.or_eq_true, beq_iff_eq, bne_iff_ne]

/-- A year is as long as its months are. -/
theorem yearStart_succ (year : Int) :
    yearStart (year + 1) = yearStart year + monthStart year 13 := by
  rw [monthStart_thirteen, yearStart, yearStart]
  split
  · next h =>
      rw [isLeapYear_iff] at h
      omega
  · next h =>
      rw [isLeapYear_iff] at h
      omega

theorem monthStart_mono (year : Int) : Monotone (monthStart year) :=
  monotone_nat_of_le_succ fun _ => Nat.le_add_right _ _

theorem yearStart_mono (a b : Int) (h : a ≤ b) : yearStart a ≤ yearStart b := by
  rw [yearStart, yearStart]
  omega

namespace Date

/-! ### The days beside a day -/

theorem number_next (date : Date) : date.next.number = date.number + 1 := by
  have hday := date.day_range
  have hmonth := date.month_range
  unfold next
  split
  · simp only [number]
    omega
  · next hend =>
      split
      · simp only [number, monthStart]
        omega
      · next hlast =>
          -- December is over, and with it the year.
          have hdecember : date.month = 12 := by omega
          have hyear := yearStart_succ date.year
          rw [monthStart, ← hdecember] at hyear
          simp only [number, monthStart_one]
          omega

theorem number_previous (date : Date) : date.previous.number = date.number - 1 := by
  have hday := date.day_range
  have hmonth := date.month_range
  unfold previous
  split
  · simp only [number]
    omega
  · next hfirst =>
      split
      · next hmonth' =>
          have hbefore := monthStart_sub_one date.year date.month hmonth.1
          simp only [number, hbefore]
          omega
      · next hjanuary =>
          -- The year has just begun, and the day before is the last of another one.
          have hone : date.month = 1 := by omega
          have hyear := yearStart_succ (date.year - 1)
          have hlast : daysInMonth (date.year - 1) 12 = 31 := rfl
          rw [Int.sub_add_cancel, monthStart, hlast] at hyear
          simp only [number, hone, monthStart_one]
          omega

/-! ### Days by their number -/

/-- A day is not beyond its month. -/
theorem number_lt_monthStart (date : Date) :
    date.number < yearStart date.year + monthStart date.year (date.month + 1) := by
  have hday := date.day_range
  rw [number, monthStart]
  omega

theorem monthStart_le_number (date : Date) :
    yearStart date.year + monthStart date.year date.month ≤ date.number := by
  have hday := date.day_range
  rw [number]
  omega

/-- A day is not beyond its year. -/
theorem number_lt_yearStart (date : Date) : date.number < yearStart (date.year + 1) := by
  have hlt := date.number_lt_monthStart
  have hle : monthStart date.year (date.month + 1) ≤ monthStart date.year 13 :=
    monthStart_mono date.year (Nat.succ_le_succ date.month_range.2)
  rw [yearStart_succ]
  omega

theorem yearStart_le_number (date : Date) : yearStart date.year ≤ date.number := by
  have hle := date.monthStart_le_number
  omega

/-- Days with the same number do not lie in different years. -/
theorem year_le_of_number_eq (a b : Date) (h : a.number = b.number) : a.year ≤ b.year := by
  -- Otherwise the year of the one is over before that of the other begins.
  by_contra hlt
  have hmono := yearStart_mono (b.year + 1) a.year (by omega)
  have ha := a.yearStart_le_number
  have hb := b.number_lt_yearStart
  omega

/-- Days of a year with the same number do not lie in different months. -/
theorem month_le_of_number_eq (a b : Date) (hy : a.year = b.year) (h : a.number = b.number) :
    a.month ≤ b.month := by
  by_contra hlt
  have hmono := monthStart_mono b.year (show b.month + 1 ≤ a.month by omega)
  have ha := a.monthStart_le_number
  have hb := b.number_lt_monthStart
  rw [hy] at ha
  omega

/-- A day is known by its number. -/
theorem number_injective : Function.Injective number := by
  intro a b h
  -- The year and the month are compared both ways. What is left of the number is the day.
  have hy : a.year = b.year :=
    le_antisymm (year_le_of_number_eq a b h) (year_le_of_number_eq b a h.symm)
  have hm : a.month = b.month :=
    le_antisymm (month_le_of_number_eq a b hy h) (month_le_of_number_eq b a hy.symm h.symm)
  have hd : a.day = b.day := by
    rw [number, number, hy, hm] at h
    omega
  rcases a with ⟨year, month, day, _, _⟩
  rcases b with ⟨year', month', day', _, _⟩
  cases hy
  cases hm
  cases hd
  rfl

end Date

end Schemata
