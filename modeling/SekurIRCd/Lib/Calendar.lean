/-
# The Gregorian calendar

Days are counted from the first of January of the year 0, in the calendar as it is now.  The count
of a date is the days of the years before it, those of the months before it, and those of its month
(`dayNumber`); and every count is that of a date (`dateOfDay_spec`).
-/
import Mathlib.Tactic.IntervalCases
import Mathlib.Data.Nat.Notation

namespace Calendar

/-! ## 1. Years and months

A year has 365 days or 366, a month what the table says. The count of a date is a sum over years
and months; the two formulas that programs use instead are proved equal to it. -/

def IsLeap (y : Nat) : Prop := y % 4 = 0 ∧ (y % 100 ≠ 0 ∨ y % 400 = 0)

instance : DecidablePred IsLeap := fun y =>
  inferInstanceAs (Decidable (y % 4 = 0 ∧ (y % 100 ≠ 0 ∨ y % 400 = 0)))

def daysInYear (y : Nat) : Nat := if IsLeap y then 366 else 365

/-- The days of a month; there is no month 0. -/
def daysInMonth (y : Nat) : Nat → Nat
  | 0 => 0
  | 2 => if IsLeap y then 29 else 28
  | 4 | 6 | 9 | 11 => 30
  | _ => 31

/-- The days of the years before a year. -/
def daysBeforeYear : Nat → Nat
  | 0 => 0
  | y + 1 => daysBeforeYear y + daysInYear y

/-- The days of the months before a month. -/
def daysBeforeMonth (y : Nat) : Nat → Nat
  | 0 => 0
  | m + 1 => daysBeforeMonth y m + daysInMonth y m

/-- A date of the calendar. -/
structure IsDate (y m d : Nat) : Prop where
  month_pos : 1 ≤ m
  month_le : m ≤ 12
  day_pos : 1 ≤ d
  day_le : d ≤ daysInMonth y m

/-- The days before a date: the years, the months of its year, and the days of its month that are
over. -/
def dayNumber (y m d : Nat) : Nat := daysBeforeYear y + daysBeforeMonth y m + (d - 1)

/-- The multiples of a number below a year are one more behind a year that is one. -/
theorem multiples_succ (y k : Nat) :
    (y + 1 + k) / (k + 1) = (y + k) / (k + 1) + if y % (k + 1) = 0 then 1 else 0 := by
  rw [Nat.add_right_comm, Nat.succ_div, Nat.add_assoc]
  simp only [Nat.dvd_iff_mod_eq_zero, Nat.add_mod_right]

/-- The days before a year, as a formula: each year has 365, and each leap year one more. -/
theorem daysBeforeYear_eq (y : Nat) :
    daysBeforeYear y + (y + 99) / 100 = 365 * y + (y + 3) / 4 + (y + 399) / 400 := by
  induction y with
  | zero => rfl
  | succ y ih =>
    have hyear : daysInYear y + (if y % 100 = 0 then 1 else 0) =
        365 + (if y % 4 = 0 then 1 else 0) + (if y % 400 = 0 then 1 else 0) := by
      have h100 : y % 100 = 0 → y % 4 = 0 := by omega
      have h400 : y % 400 = 0 → y % 100 = 0 := by omega
      rw [daysInYear]
      by_cases hcentury : y % 100 = 0
      · by_cases hfour : y % 400 = 0 <;> simp [IsLeap, hcentury, hfour, h100 hcentury]
      · have hfour := mt h400 hcentury
        by_cases hleap : y % 4 = 0 <;> simp [IsLeap, hcentury, hfour, hleap]
    have hcount4 : (y + 1 + 3) / 4 = (y + 3) / 4 + if y % 4 = 0 then 1 else 0 :=
      multiples_succ y 3
    have hcount100 : (y + 1 + 99) / 100 = (y + 99) / 100 + if y % 100 = 0 then 1 else 0 :=
      multiples_succ y 99
    have hcount400 : (y + 1 + 399) / 400 = (y + 399) / 400 + if y % 400 = 0 then 1 else 0 :=
      multiples_succ y 399
    rw [daysBeforeYear, hcount4, hcount100, hcount400]
    omega

theorem daysBeforeMonth_eq (y : Nat) {m : Nat} (hm : 1 ≤ m) (hle : m ≤ 12) :
    daysBeforeMonth y m + (if m ≤ 2 then 0 else if IsLeap y then 1 else 2) =
      (367 * m - 362) / 12 := by
  by_cases hleap : IsLeap y <;> interval_cases m <;>
    simp [daysBeforeMonth, daysInMonth, hleap]

theorem daysBeforeYear_le (y : Nat) : daysBeforeYear y ≤ 366 * y := by
  have hyear := daysBeforeYear_eq y
  omega

theorem daysInMonth_le (y m : Nat) : daysInMonth y m ≤ 31 := by
  unfold daysInMonth
  split
  · decide
  · split <;> decide
  all_goals decide

theorem daysBeforeMonth_le (y : Nat) {m : Nat} (hm : 1 ≤ m) (hle : m ≤ 12) :
    daysBeforeMonth y m ≤ 335 := by
  have hmonth := daysBeforeMonth_eq y hm hle
  have hq : (367 * m - 362) / 12 ≤ 336 := by omega
  split at hmonth
  · omega
  · split at hmonth <;> omega

/-- The days before a date of a year are not many more than those before the year. -/
theorem dayNumber_lt (y : Nat) {m d : Nat} (h : IsDate y m d) :
    dayNumber y m d < daysBeforeYear y + 366 := by
  have hmonth := daysBeforeMonth_le y h.month_pos h.month_le
  have hday := h.day_le.trans (daysInMonth_le y m)
  rw [dayNumber]
  omega

theorem daysBeforeMonth_thirteen (y : Nat) : daysBeforeMonth y 13 = daysInYear y := by
  simp only [daysBeforeMonth, daysInMonth, daysInYear]
  split <;> rfl

/-! ## 2. The date of a day

The way back takes the years off first and then the months. A year is found from an estimate, which
is right or one too many. -/

theorem daysInYear_pos (y : Nat) : 0 < daysInYear y := by
  unfold daysInYear
  split <;> decide

/-- The year that is so many days behind the start of a year, and how far into it. -/
def splitYear (y n : Nat) : Nat × Nat :=
  if n < daysInYear y then (y, n) else splitYear (y + 1) (n - daysInYear y)
termination_by n
decreasing_by
  have hpos := daysInYear_pos y
  omega

/-- The month that is so many days behind the start of a month, and the day. -/
def splitMonth (y m n : Nat) : Nat × Nat :=
  if n < daysInMonth y m ∨ 12 ≤ m then (m, n + 1)
  else splitMonth y (m + 1) (n - daysInMonth y m)
termination_by 12 - m
decreasing_by omega

/-- The date of a day behind the start of a year. -/
def dateOfDay (y n : Nat) : Nat × Nat × Nat :=
  ((splitYear y n).1, splitMonth (splitYear y n).1 1 (splitYear y n).2)

theorem splitYear_spec (y n : Nat) :
    daysBeforeYear (splitYear y n).1 + (splitYear y n).2 = daysBeforeYear y + n ∧
      (splitYear y n).2 < daysInYear (splitYear y n).1 := by
  fun_induction splitYear y n with
  | case1 y n h => exact ⟨rfl, h⟩
  | case2 y n h ih =>
    rw [daysBeforeYear] at ih
    omega

theorem splitMonth_spec (y m n : Nat) (hm : 1 ≤ m) (hle : m ≤ 12)
    (hn : daysBeforeMonth y m + n < daysBeforeMonth y 13) :
    1 ≤ (splitMonth y m n).1 ∧ (splitMonth y m n).1 ≤ 12 ∧ 1 ≤ (splitMonth y m n).2 ∧
      (splitMonth y m n).2 ≤ daysInMonth y (splitMonth y m n).1 ∧
      daysBeforeMonth y (splitMonth y m n).1 + ((splitMonth y m n).2 - 1) =
        daysBeforeMonth y m + n := by
  fun_induction splitMonth y m n with
  | case1 m n h =>
    have hday : n < daysInMonth y m := by
      rcases h with h | h
      · exact h
      · -- what is left in the last month
        rw [show m = 12 by omega] at hn ⊢
        rw [daysBeforeMonth.eq_2 y 12] at hn
        omega
    exact ⟨hm, hle, Nat.succ_pos n, hday, rfl⟩
  | case2 m n h ih =>
    have hstep : daysBeforeMonth y (m + 1) + (n - daysInMonth y m) = daysBeforeMonth y m + n := by
      rw [daysBeforeMonth]
      omega
    rw [hstep] at ih
    exact ih (by omega) (by omega) hn

/-- **Every day has a date**, which is that many days behind. Together with the formulas this makes
the conversion of a count to a date and back a bijection. -/
theorem dateOfDay_spec (y n : Nat) :
    IsDate (dateOfDay y n).1 (dateOfDay y n).2.1 (dateOfDay y n).2.2 ∧
      dayNumber (dateOfDay y n).1 (dateOfDay y n).2.1 (dateOfDay y n).2.2 =
        daysBeforeYear y + n := by
  obtain ⟨hyear, hday⟩ := splitYear_spec y n
  have hone : daysBeforeMonth (splitYear y n).1 1 = 0 := rfl
  obtain ⟨hm, hle, hd, hdle, hsum⟩ := splitMonth_spec (splitYear y n).1 1 (splitYear y n).2 le_rfl
    (by decide) (by rwa [daysBeforeMonth_thirteen, hone, Nat.zero_add])
  refine ⟨⟨hm, hle, hd, hdle⟩, ?_⟩
  show daysBeforeYear (splitYear y n).1 + daysBeforeMonth (splitYear y n).1 _ + (_ - 1) = _
  rw [Nat.add_assoc]
  exact (congrArg _ hsum).trans (by rw [hone, Nat.zero_add, hyear])

end Calendar
