import Mathlib.Algebra.GroupWithZero.Nat
import Mathlib.Data.Nat.Find
import Mathlib.Data.List.Basic
import Mathlib.Order.Monotone.Basic

/-!
# The Gregorian calendar

Days since the first day of the year 0, and the year, the month and the day of the month that a
number of days stands for.
-/

namespace Nanonet.Gregorian

/-- The days before the first one of the year `y`. -/
def daysBeforeYear (y : ℕ) : ℕ := 365 * y + (y + 3) / 4 - (y + 99) / 100 + (y + 399) / 400

def isLeap (y : ℕ) : Bool := y % 4 == 0 && (y % 100 != 0 || y % 400 == 0)

def monthLengths (leap : Bool) : List ℕ :=
  [31, if leap then 29 else 28, 31, 30, 31, 30, 31, 31, 30, 31, 30, 31]

/-- The days of the year before the first one of its month `m`, which counts from 0. -/
def daysBeforeMonth (leap : Bool) (m : ℕ) : ℕ := ((monthLengths leap).take m).sum

def yearOf (day : ℕ) : ℕ := Nat.findGreatest (fun y => daysBeforeYear y ≤ day) day

/-- The month that a day of the year is in. -/
def monthOf (leap : Bool) (yday : ℕ) : ℕ :=
  Nat.findGreatest (fun m => daysBeforeMonth leap m ≤ yday) 11

theorem daysBeforeYear_succ (y : ℕ) :
    daysBeforeYear (y + 1) = daysBeforeYear y + if isLeap y then 366 else 365 := by
  have hleap : isLeap y = true ↔ y % 4 = 0 ∧ (y % 100 ≠ 0 ∨ y % 400 = 0) := by simp [isLeap]
  -- each of the three quotients goes up by one where its divisor divides the year
  have h4 : (y + 1 + 3) / 4 = (y + 3) / 4 + if y % 4 = 0 then 1 else 0 := by split_ifs <;> omega
  have h100 : (y + 1 + 99) / 100 = (y + 99) / 100 + if y % 100 = 0 then 1 else 0 := by
    split_ifs <;> omega
  have h400 : (y + 1 + 399) / 400 = (y + 399) / 400 + if y % 400 = 0 then 1 else 0 := by
    split_ifs <;> omega
  have hbound : (y + 99) / 100 ≤ y := by omega
  have hdvd100 : y % 100 = 0 → y % 4 = 0 := by omega
  have hdvd400 : y % 400 = 0 → y % 100 = 0 := by omega
  simp only [daysBeforeYear, hleap, h4, h100, h400]
  clear h4 h100 h400
  generalize (y + 3) / 4 = a at *
  generalize (y + 99) / 100 = b at *
  generalize (y + 399) / 400 = c at *
  split_ifs <;> omega

theorem daysBeforeYear_mono : Monotone daysBeforeYear := by
  refine monotone_nat_of_le_succ fun y => ?_
  rw [daysBeforeYear_succ]
  exact Nat.le_add_right _ _

theorem daysBeforeYear_yearOf_le (day : ℕ) : daysBeforeYear (yearOf day) ≤ day :=
  Nat.findGreatest_spec (P := fun y => daysBeforeYear y ≤ day) (Nat.zero_le day) (Nat.zero_le day)

theorem lt_daysBeforeYear_succ (day : ℕ) : day < daysBeforeYear (yearOf day + 1) := by
  by_cases hle : yearOf day + 1 ≤ day
  · exact not_le.1 (Nat.findGreatest_is_greatest (P := fun y => daysBeforeYear y ≤ day)
      (Nat.lt_succ_self _) hle)
  · have hgrows : yearOf day + 1 ≤ daysBeforeYear (yearOf day + 1) := by
      unfold daysBeforeYear
      omega
    omega

theorem yday_lt (day : ℕ) :
    day - daysBeforeYear (yearOf day) < if isLeap (yearOf day) then 366 else 365 := by
  have hlt := lt_daysBeforeYear_succ day
  have hle := daysBeforeYear_yearOf_le day
  rw [daysBeforeYear_succ] at hlt
  omega

theorem yearOf_lt {y day : ℕ} (h : day < daysBeforeYear y) : yearOf day < y := by
  by_contra hle
  have hmono := daysBeforeYear_mono (not_lt.1 hle)
  have hday := daysBeforeYear_yearOf_le day
  omega

theorem monthOf_le (leap : Bool) (yday : ℕ) : monthOf leap yday ≤ 11 := Nat.findGreatest_le 11

theorem daysBeforeMonth_monthOf_le (leap : Bool) (yday : ℕ) :
    daysBeforeMonth leap (monthOf leap yday) ≤ yday :=
  Nat.findGreatest_spec (P := fun m => daysBeforeMonth leap m ≤ yday) (Nat.zero_le 11)
    (by cases leap <;> exact Nat.zero_le yday)

theorem mday_lt {leap : Bool} {yday : ℕ} (h : yday < if leap then 366 else 365) :
    yday - daysBeforeMonth leap (monthOf leap yday) < 31 := by
  have hmonth := monthOf_le leap yday
  have hnext : yday < daysBeforeMonth leap (monthOf leap yday + 1) := by
    by_cases hlast : monthOf leap yday + 1 ≤ 11
    · exact not_le.1 (Nat.findGreatest_is_greatest
        (P := fun m => daysBeforeMonth leap m ≤ yday) (Nat.lt_succ_self _) hlast)
    · have heq : monthOf leap yday = 11 := by omega
      rw [heq]
      cases leap <;> exact h
  have hlength : ∀ m ≤ 11, daysBeforeMonth leap (m + 1) ≤ daysBeforeMonth leap m + 31 := by
    cases leap <;> decide
  have hstep := hlength _ hmonth
  omega

end Nanonet.Gregorian
