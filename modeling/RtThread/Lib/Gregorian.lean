import Mathlib.Data.Int.Init

/-! Dates of the proleptic Gregorian calendar, and their numbers as days. -/

set_option autoImplicit false
namespace RtThread.Lib

/-- Every fourth year is a leap year, except for the centuries that 400 does not divide. -/
def leapYear (year : Int) : Bool := year % 4 = 0 && (year % 100 ≠ 0 || year % 400 = 0)

def yearDays (year : Int) : Int := if leapYear year then 366 else 365

/-- The days from the first of January of the year 1 to that of `year`. -/
def yearStart (year : Int) : Int := 365 * (year - 1) + (year - 1) / 4 - (year - 1) / 100 + (year - 1) / 400

/-- The lengths of the months, from January with the number 0. -/
def monthDays (leap : Bool) : Nat → Int
  | 1 => if leap then 29 else 28
  | 3 | 5 | 8 | 10 => 30
  | _ => 31

def monthStart (leap : Bool) : Nat → Int
  | 0 => 0
  | mon + 1 => monthStart leap mon + monthDays leap mon

/-- A date, its month counted from 0 and its day from 1. -/
structure Date where
  year : Int
  mon : Nat
  mday : Int
  deriving DecidableEq, Repr

namespace Date

structure Valid (d : Date) : Prop where
  mon : d.mon < 12
  first : 1 ≤ d.mday
  last : d.mday ≤ monthDays (leapYear d.year) d.mon

/-- The day of the year, from 0. -/
def yday (d : Date) : Int := monthStart (leapYear d.year) d.mon + d.mday - 1

/-- The days from the first of January 1970 to the date. -/
def number (d : Date) : Int := yearStart d.year - yearStart 1970 + d.yday

/-- The day of the week, from Sunday. The first of January 1970 was a Thursday. -/
def wday (d : Date) : Int := (d.number + 4) % 7

end Date

section
variable {year year' : Int} {leap : Bool} {mon mon' : Nat}

theorem yearStart_succ (year : Int) : yearStart (year + 1) = yearStart year + yearDays year := by
  unfold yearDays
  split
  case isTrue leap =>
    simp only [leapYear, Bool.and_eq_true, Bool.or_eq_true, decide_eq_true_eq] at leap
    simp only [yearStart]
    omega
  case isFalse common =>
    simp only [leapYear, Bool.and_eq_true, Bool.or_eq_true, decide_eq_true_eq] at common
    simp only [yearStart]
    omega

theorem yearDays_pos (year : Int) : 365 ≤ yearDays year := by
  unfold yearDays
  split <;> omega

theorem yearStart_add (n : Nat) (year : Int) : yearStart year ≤ yearStart (year + n) := by
  simp only [yearStart]
  omega

theorem yearStart_le (before : year < year') : yearStart year + yearDays year ≤ yearStart year' := by
  rw [← yearStart_succ]
  have later := yearStart_add (year' - (year + 1)).toNat (year + 1)
  have whole : year + 1 + ((year' - (year + 1)).toNat : Int) = year' := by omega
  rwa [whole] at later

theorem monthDays_pos (leap : Bool) (mon : Nat) : 0 < monthDays leap mon := by
  unfold monthDays
  repeat' split
  all_goals omega

theorem monthStart_le (leap : Bool) (before : mon < mon') : monthStart leap mon + monthDays leap mon ≤ monthStart leap mon' := by
  induction mon' with
  | zero => omega
  | succ mon' ih =>
    have positive := monthDays_pos leap mon'
    rw [monthStart]
    rcases Nat.lt_succ_iff_lt_or_eq.mp before with less | rfl
    · have le := ih less
      omega
    · omega

theorem monthStart_nonneg (leap : Bool) (mon : Nat) : 0 ≤ monthStart leap mon := by
  cases mon with
  | zero => exact Int.le_refl 0
  | succ mon =>
    have le : 0 + monthDays leap 0 ≤ monthStart leap (mon + 1) := monthStart_le leap (Nat.succ_pos mon)
    have positive := monthDays_pos leap 0
    omega

theorem monthStart_year (year : Int) : monthStart (leapYear year) 12 = yearDays year := by
  unfold yearDays
  cases leapYear year <;> rfl

end

namespace Date
variable {d d' : Date}

theorem yday_nonneg (valid : d.Valid) : 0 ≤ d.yday := by
  have start := monthStart_nonneg (leapYear d.year) d.mon
  have first := valid.first
  rw [yday]
  omega

theorem yday_lt (valid : d.Valid) : d.yday < yearDays d.year := by
  have le := monthStart_le (leapYear d.year) valid.mon
  have last := valid.last
  rw [monthStart_year] at le
  rw [yday]
  omega

theorem year_le (valid : d.Valid) (valid' : d'.Valid) (same : d.number = d'.number) : ¬d.year < d'.year := by
  intro before
  have le := yearStart_le before
  have less := yday_lt valid
  have nonneg := yday_nonneg valid'
  rw [number, number] at same
  omega

theorem mon_le (valid : d.Valid) (valid' : d'.Valid) (year : d.year = d'.year) (same : d.yday = d'.yday) :
    ¬d.mon < d'.mon := by
  intro before
  have le := monthStart_le (leapYear d.year) before
  have last := valid.last
  have first := valid'.first
  rw [yday, yday, ← year] at same
  omega

theorem number_injective (valid : d.Valid) (valid' : d'.Valid) (same : d.number = d'.number) : d = d' := by
  have year : d.year = d'.year := by
    have le := year_le valid valid' same
    have ge := year_le valid' valid same.symm
    omega
  have yday : d.yday = d'.yday := by
    rw [number, number, year] at same
    omega
  have mon : d.mon = d'.mon := by
    have le := mon_le valid valid' year yday
    have ge := mon_le valid' valid year.symm yday.symm
    omega
  have mday : d.mday = d'.mday := by
    rw [Date.yday, Date.yday, year, mon] at yday
    omega
  cases d
  cases d'
  simp only at year mon mday
  rw [year, mon, mday]

theorem number_nonneg (valid : d.Valid) : 0 ≤ d.number ↔ 1970 ≤ d.year := by
  have first := yday_nonneg valid
  have last := yday_lt valid
  rw [number]
  constructor
  · intro nonneg
    apply Int.not_lt.mp
    intro early
    have le : yearStart d.year + yearDays d.year ≤ yearStart 1970 := yearStart_le (by omega)
    omega
  · intro late
    rcases Int.lt_or_eq_of_le late with less | same
    · have le := yearStart_le less
      have days := yearDays_pos 1970
      omega
    · rw [← same]
      omega

end Date

end RtThread.Lib
