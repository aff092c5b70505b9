import Mathlib.Data.UInt

/-! Broken-down times: `gmtime_r` and `timegm` of `ctime.c`, and what they do with the time of day. -/

set_option autoImplicit false
namespace RtThread.Rtc

/-- The fields of `struct tm` that the alarms read. -/
structure Tm where
  sec : Int
  min : Int
  hour : Int
  mday : Int
  mon : Int
  year : Int
  wday : Int
  deriving DecidableEq

def isleap (year : Int) : Bool := year % 4 = 0 && (year % 100 ≠ 0 || year % 400 = 0)

/-- `__spm`: the days before each month -/
def spm (mon : Int) : Int := [0, 31, 59, 90, 120, 151, 181, 212, 243, 273, 304, 334, 365].getD mon.toNat 0

/-- The loop over the years. A year has more than one day, so that the days themselves are enough fuel. -/
def yearLoop : Nat → Int → Int → Int × Int
  | 0, i, work => (i, work)
  | fuel + 1, i, work =>
    let k := if isleap i then 366 else 365
    if work ≥ k then yearLoop fuel (i + 1) (work - k) else (i, work)

/-- `for (i = 11; i && (__spm[i] > work); --i)` -/
def monLoop (work : Int) : Nat → Nat
  | 0 => 0
  | i + 1 => if spm (i + 1) > work then monLoop work i else i + 1

def mdayStep (t : Tm) : Tm :=
  let mday := if t.mon = 1 ∧ isleap (t.year + 1900) then t.mday - 1 else t.mday
  if t.mon + 1 > 11 then { t with mday := mday - spm t.mon, mon := 0, year := t.year + 1 }
  else { t with mday := mday - spm t.mon, mon := t.mon + 1 }

def mdayLoop : Nat → Tm → Tm
  | 0, t => t
  | fuel + 1, t => if t.mday > spm (1 + t.mon) then mdayLoop fuel (mdayStep t) else t

/-- The first part of `timegm`, which brings the fields into their ranges. -/
def tmNormal (t : Tm) : Tm :=
  let t := if t.sec > 60 then { t with min := t.min + t.sec.tdiv 60, sec := t.sec.tmod 60 } else t
  let t := if t.min ≥ 60 then { t with hour := t.hour + t.min.tdiv 60, min := t.min.tmod 60 } else t
  let t := if t.hour ≥ 24 then { t with mday := t.mday + t.hour.tdiv 24, hour := t.hour.tmod 24 } else t
  let t := if t.mon ≥ 12 then { t with year := t.year + t.mon.tdiv 12, mon := t.mon.tmod 12 } else t
  -- twelve turns take a year of days off
  mdayLoop (12 * (t.mday.toNat + 1)) t

/-- `timegm`, which writes to its argument. -/
def timegm (t : Tm) : Int × Tm :=
  let years := t.year - 70
  let t := tmNormal t
  if t.year < 70 then (-1, t)
  else
    let day := years * 365 + (years + 1).tdiv 4
    let day :=
      if years ≥ 131 then
        let years := (years - 131).tdiv 100
        let day := day - (years / 4 * 3 + 1)
        let years := years % 4
        day - (if years = 3 then years - 1 else years)
      else day
    let yday := spm t.mon + t.mday - 1 + (if isleap (t.year + 1900) ∧ t.mon > 1 then 1 else 0)
    let day := day + yday
    (((day * 24 + t.hour) * 60 + t.min) * 60 + t.sec, { t with wday := (day + 4).tmod 7 })

structure Tm.InRange (t : Tm) : Prop where
  sec : 0 ≤ t.sec ∧ t.sec ≤ 59
  min : 0 ≤ t.min ∧ t.min ≤ 59
  hour : 0 ≤ t.hour ∧ t.hour ≤ 23

def Tm.SameClock (t u : Tm) : Prop := t.sec = u.sec ∧ t.min = u.min ∧ t.hour = u.hour

namespace Tm.SameClock
variable {t u v : Tm}

theorem refl (t : Tm) : t.SameClock t := ⟨rfl, rfl, rfl⟩

theorem trans (first : t.SameClock u) (second : u.SameClock v) : t.SameClock v :=
  ⟨first.1.trans second.1, first.2.1.trans second.2.1, first.2.2.trans second.2.2⟩

theorem inRange (same : t.SameClock u) (range : u.InRange) : t.InRange := by
  obtain ⟨sec, min, hour⟩ := same
  exact ⟨sec ▸ range.sec, min ▸ range.min, hour ▸ range.hour⟩

end Tm.SameClock

theorem mdayStep_clock (t : Tm) : (mdayStep t).SameClock t := by
  unfold mdayStep
  simp only
  split <;> exact ⟨rfl, rfl, rfl⟩

theorem mdayLoop_clock (fuel : Nat) (t : Tm) : (mdayLoop fuel t).SameClock t := by
  induction fuel generalizing t with
  | zero => exact .refl t
  | succ fuel ih =>
    rw [mdayLoop]
    split
    · exact (ih _).trans (mdayStep_clock t)
    · exact .refl t

end RtThread.Rtc
