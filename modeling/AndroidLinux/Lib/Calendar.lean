import Mathlib.Tactic

/-!
# The Gregorian calendar

Days are counted from the first of January 1970, in both directions; months and the days of
a month are counted from zero.
-/

namespace AndroidLinux
namespace Lib
namespace Calendar

def isLeap (y : Int) : Bool := y % 4 == 0 && (y % 100 != 0 || y % 400 == 0)

def yearLength (y : Int) : Int := if isLeap y then 366 else 365

/-- The leap years up to a year, counted from the year zero. -/
def leapsThrough (y : Int) : Int := y / 4 - y / 100 + y / 400

/-- The first day of a year. -/
def yearStart (y : Int) : Int := 365 * (y - 1970) + leapsThrough (y - 1) - leapsThrough 1969

def monthLengths (leap : Bool) : List Int :=
  [31, if leap then 29 else 28, 31, 30, 31, 30, 31, 31, 30, 31, 30, 31]

def monthLength (leap : Bool) (m : Nat) : Int := (monthLengths leap).getD m 0

/-- The day of the year on which a month starts. -/
def monthStart (leap : Bool) (m : Nat) : Int := ((monthLengths leap).take m).sum

/-- The first day of a month. -/
def monthDay (y : Int) (m : Nat) : Int := yearStart y + monthStart (isLeap y) m

/-- Sunday is zero. -/
def weekday (day : Int) : Int := (day + 4) % 7

theorem isLeap_iff (y : Int) : isLeap y = true ↔ y % 4 = 0 ∧ (y % 100 ≠ 0 ∨ y % 400 = 0) := by
  simp only [isLeap, Bool.and_eq_true, beq_iff_eq, Bool.or_eq_true, bne_iff_ne, ne_eq]

theorem leapsThrough_succ (y : Int) :
    leapsThrough (y + 1) = leapsThrough y + if isLeap (y + 1) then 1 else 0 := by
  unfold leapsThrough
  split
  next h =>
    obtain ⟨h4, h100⟩ := (isLeap_iff _).mp h
    omega
  next h =>
    rw [isLeap_iff] at h
    omega

theorem yearLength_pos (y : Int) : 365 ≤ yearLength y ∧ yearLength y ≤ 366 := by
  unfold yearLength
  split <;> omega

theorem yearStart_succ (y : Int) : yearStart (y + 1) = yearStart y + yearLength y := by
  have h := leapsThrough_succ (y - 1)
  rw [show y - 1 + 1 = y from by omega] at h
  unfold yearStart yearLength
  rw [show y + 1 - 1 = y from by omega, h]
  split <;> omega

theorem yearStart_epoch : yearStart 1970 = 0 := by decide

/-- Years have 365 days and a fraction. -/
theorem yearStart_add (y : Int) (n : Nat) :
    yearStart y + 365 * n ≤ yearStart (y + n) ∧ yearStart (y + n) ≤ yearStart y + 366 * n := by
  induction n with
  | zero => simp
  | succ n ih =>
      have hnext := yearStart_succ (y + n)
      have hlen := yearLength_pos (y + n)
      rw [Nat.cast_succ, ← Int.add_assoc, hnext]
      omega

theorem yearStart_le {y z : Int} (h : y ≤ z) :
    yearStart y + 365 * (z - y) ≤ yearStart z ∧ yearStart z ≤ yearStart y + 366 * (z - y) := by
  obtain ⟨n, hn⟩ := Int.eq_ofNat_of_zero_le (show 0 ≤ z - y by omega)
  have hadd := yearStart_add y n
  rw [show y + (n : Int) = z by omega] at hadd
  omega

/-- An earlier year ends before a later one starts. -/
theorem yearStart_of_lt {y z : Int} (h : y < z) : yearStart y + yearLength y ≤ yearStart z := by
  have hle := yearStart_le (show y + 1 ≤ z by omega)
  rw [yearStart_succ] at hle
  omega

/-! ## Months -/

theorem monthStart_year (leap : Bool) : monthStart leap 12 = if leap then 366 else 365 := by
  cases leap <;> decide

theorem monthStart_succ (leap : Bool) {m : Nat} (h : m < 12) :
    monthStart leap (m + 1) = monthStart leap m + monthLength leap m := by
  cases leap <;> interval_cases m <;> decide

theorem monthLength_bounds (leap : Bool) {m : Nat} (h : m < 12) :
    28 ≤ monthLength leap m ∧ monthLength leap m ≤ 31 := by
  cases leap <;> interval_cases m <;> decide

theorem monthStart_bounds (leap : Bool) {m : Nat} (h : m < 12) :
    0 ≤ monthStart leap m ∧
      monthStart leap m + monthLength leap m ≤ if leap then 366 else 365 := by
  cases leap <;> interval_cases m <;> decide

/-- An earlier month ends before a later one starts. -/
theorem monthStart_of_lt (leap : Bool) {m n : Nat} (h : m < n) (hn : n < 12) :
    monthStart leap m + monthLength leap m ≤ monthStart leap n := by
  cases leap <;> interval_cases n <;> interval_cases m <;> decide

/-- From a month of a year to the same month of the next one: the day that is put into leap
years lies in between when the first year has it behind the month, or the second before. -/
theorem monthDay_succ_year (y : Int) {m : Nat} (h : m < 12) :
    monthDay (y + 1) m = monthDay y m + yearLength (if 1 < m then y + 1 else y) := by
  have hshift : ∀ leap next : Bool, monthStart next m + (if leap then 366 else 365) =
      monthStart leap m + if (if 1 < m then next else leap) then 366 else 365 := by
    intro leap next
    cases leap <;> cases next <;> interval_cases m <;> decide
  have hboth := hshift (isLeap y) (isLeap (y + 1))
  unfold monthDay
  rw [yearStart_succ]
  split
  next hm =>
    rw [if_pos hm] at hboth
    unfold yearLength
    omega
  next hm =>
    rw [if_neg hm] at hboth
    unfold yearLength
    omega

/-- The first day of the month behind a month. -/
theorem monthDay_succ (y : Int) {m : Nat} (h : m < 11) :
    monthDay y (m + 1) = monthDay y m + monthLength (isLeap y) m := by
  unfold monthDay
  rw [monthStart_succ _ (by omega), Int.add_assoc]

theorem monthDay_december (y : Int) :
    monthDay (y + 1) 0 = monthDay y 11 + monthLength (isLeap y) 11 := by
  have hstart := monthStart_succ (isLeap y) (show 11 < 12 by omega)
  rw [monthStart_year] at hstart
  have hzero : monthStart (isLeap (y + 1)) 0 = 0 := rfl
  unfold monthDay
  rw [yearStart_succ, hzero, yearLength]
  omega

/-- A day stands in its year. -/
theorem monthDay_bounds (y : Int) {m : Nat} (h : m < 12) :
    yearStart y ≤ monthDay y m ∧
      monthDay y m + monthLength (isLeap y) m ≤ yearStart y + yearLength y := by
  have hbounds := monthStart_bounds (isLeap y) h
  unfold monthDay yearLength
  omega

/-- A month that comes before another one ends before that one starts. -/
theorem monthDay_of_lt {y z : Int} {m n : Nat} (hm : m < 12) (hn : n < 12)
    (h : y < z ∨ y = z ∧ m < n) : monthDay y m + monthLength (isLeap y) m ≤ monthDay z n := by
  rcases h with hlt | ⟨rfl, hlt⟩
  · have hfirst := monthDay_bounds y hm
    have hsecond := monthDay_bounds z hn
    have hyears := yearStart_of_lt hlt
    omega
  · unfold monthDay
    have hmonths := monthStart_of_lt (isLeap y) hlt hn
    omega

end Calendar
end Lib
end AndroidLinux
