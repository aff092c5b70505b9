import RtThread.Rtc.Ctime
import RtThread.Lib.Gregorian

/-! The whole of `gmtime_r`, with the widths of its integers, and what it has to do with `timegm`, `localtime_r` and
`mktime`. -/

set_option autoImplicit false
namespace RtThread.Rtc
open Lib

/-- `struct tm` -/
structure TmFull extends Tm where
  yday : Int
  isdst : Int

def toInt (value : Int) : Int := value.bmod (2 ^ 32)

def tzIsDst : Int := 0

/-- `gmtime_r` of a `time_t` that is wider than an int. -/
def gmtime (timep : Int) : TmFull :=
  let day := toInt (timep.tmod (24 * 60 * 60))
  let work := toInt (timep.tdiv (24 * 60 * 60))
  let (i, yday) := yearLoop (work.toNat + 1) 1970 work
  let late := isleap i && yday > 58
  let mday := if late && yday = 59 then 2 else 1
  let rest := if late then yday - 1 else yday
  let mon := monLoop rest 11
  { sec := day.tmod 60
    min := (day.tdiv 60).tmod 60
    hour := (day.tdiv 60).tdiv 60
    mday := mday + (rest - spm mon)
    mon
    year := i - 1900
    wday := (toInt (4 + work)).tmod 7
    yday
    isdst := tzIsDst }

/-- `localtime_r` in a time zone -/
def localtime (tz : Int8) (timep : Int) : TmFull := gmtime (timep + tz.toInt * 3600)

/-- `mktime` in a time zone -/
def mktime (tz : Int8) (t : Tm) : Int := (timegm t).1 - 3600 * tz.toInt

def Tm.date (t : Tm) : Date := ⟨t.year + 1900, t.mon.toNat, t.mday⟩

def Tm.clock (t : Tm) : Int := (t.hour * 60 + t.min) * 60 + t.sec

structure Tm.Valid (t : Tm) : Prop where
  range : t.InRange
  mon : 0 ≤ t.mon
  date : t.date.Valid

structure Tm.Tells (t : Tm) (timep : Int) : Prop where
  valid : t.Valid
  number : t.date.number = timep / 86400
  clock : t.clock = timep % 86400

structure TmFull.Tells (t : TmFull) (timep : Int) : Prop where
  time : t.toTm.Tells timep
  wday : t.wday = t.date.wday
  yday : t.yday = t.date.yday

def Tm.SameTime (t u : Tm) : Prop :=
  t.year = u.year ∧ t.mon = u.mon ∧ t.mday = u.mday ∧ t.hour = u.hour ∧ t.min = u.min ∧ t.sec = u.sec

section
variable {t u : Tm} {timep work yday i : Int}

theorem toInt_eq (low : -2 ^ 31 ≤ work) (high : work < 2 ^ 31) : toInt work = work := by
  exact Int.bmod_eq_of_le (by omega) (by omega)

theorem toInt_wraps (low : 2 ^ 31 ≤ work) (high : work < 2 ^ 32 + 2 ^ 31) : toInt work = work - 2 ^ 32 := by
  rw [toInt, ← Int.sub_bmod_right]
  exact Int.bmod_eq_of_le (by omega) (by omega)

/-! ## From a timestamp to a date -/

theorem yearLoop_spec (fuel : Nat) (enough : work < fuel) (nonneg : 0 ≤ work) :
    yearStart (yearLoop fuel i work).1 + (yearLoop fuel i work).2 = yearStart i + work ∧
      0 ≤ (yearLoop fuel i work).2 ∧ (yearLoop fuel i work).2 < yearDays (yearLoop fuel i work).1 := by
  induction fuel generalizing i work with
  | zero => omega
  | succ fuel ih =>
    have days : (if isleap i then 366 else 365) = yearDays i := rfl
    have positive := yearDays_pos i
    rw [yearLoop]
    simp only [days]
    by_cases more : work ≥ yearDays i
    · have next := yearStart_succ i
      rw [if_pos more]
      obtain ⟨sum, rest⟩ := ih (i := i + 1) (by omega : work - yearDays i < fuel) (by omega)
      exact ⟨by omega, rest⟩
    · rw [if_neg more]
      exact ⟨rfl, nonneg, Int.lt_of_not_ge more⟩

theorem yearLoop_negative (fuel : Nat) (negative : work < 0) : yearLoop fuel i work = (i, work) := by
  have days : (if isleap i then 366 else 365) = yearDays i := rfl
  have positive := yearDays_pos i
  cases fuel with
  | zero => rfl
  | succ fuel =>
    rw [yearLoop]
    simp only [days]
    exact if_neg (by omega)

theorem monLoop_spec (start : Nat) (first : 0 ≤ work) :
    monLoop work start ≤ start ∧ spm (monLoop work start) ≤ work ∧
      ∀ j : Nat, monLoop work start < j → j ≤ start → work < spm j := by
  induction start with
  | zero => exact ⟨Nat.le_refl _, first, fun j low high => by omega⟩
  | succ start ih =>
    rw [monLoop]
    split
    case isTrue late =>
      obtain ⟨le, start', after⟩ := ih
      refine ⟨by omega, start', fun j low high => ?_⟩
      by_cases last : j = start + 1
      · rw [last]
        exact late
      · exact after j low (by omega)
    case isFalse here => exact ⟨Nat.le_refl _, by push_cast; omega, fun j low high => by omega⟩

theorem monLoop_negative (negative : work < 0) (start : Nat) (low : start < 12) : monLoop work start = 0 := by
  have positive : ∀ j < 12, 0 ≤ spm (j : Nat) := by decide
  induction start with
  | zero => rfl
  | succ start ih =>
    have nonneg := positive (start + 1) low
    rw [monLoop, if_pos (by push_cast at nonneg; omega)]
    exact ih (by omega)

theorem spm_eq : ∀ mon < 12, spm (mon : Nat) = monthStart false mon := by decide

theorem monthStart_leap : ∀ mon < 12, monthStart true mon = monthStart false mon + if 1 < mon then 1 else 0 := by decide

theorem monthDays_leap : ∀ mon < 12, monthDays true mon = monthDays false mon + if mon = 1 then 1 else 0 := by decide

theorem monthStart_march : ∀ mon < 12, if 1 < mon then 59 ≤ monthStart false mon
    else monthStart false mon + monthDays false mon ≤ 31 + 28 * mon := by decide

theorem monLoop_common (first : 0 ≤ work) (last : work < 365) :
    monLoop work 11 < 12 ∧ monthStart false (monLoop work 11) ≤ work ∧
      work < monthStart false (monLoop work 11) + monthDays false (monLoop work 11) := by
  obtain ⟨le, start, after⟩ := monLoop_spec 11 first
  have next := after (monLoop work 11 + 1) (Nat.lt_succ_self _)
  generalize monLoop work 11 = mon at *
  rw [spm_eq mon (by omega)] at start
  refine ⟨by omega, start, ?_⟩
  by_cases more : mon < 11
  · have less := next more
    rw [spm_eq (mon + 1) (by omega), monthStart] at less
    exact less
  · have december : mon = 11 := by omega
    subst december
    exact last

structure Dated (leap : Bool) (yday : Int) (mon : Nat) (mday : Int) : Prop where
  month : mon < 12
  first : 1 ≤ mday
  last : mday ≤ monthDays leap mon
  day : monthStart leap mon + mday - 1 = yday

theorem dated_common (first : 0 ≤ yday) (last : yday < 365) :
    Dated false yday (monLoop yday 11) (1 + (yday - spm (monLoop yday 11))) := by
  obtain ⟨less, start, stop⟩ := monLoop_common first last
  rw [spm_eq _ less]
  exact ⟨less, by omega, by omega, by omega⟩

theorem dated_early (first : 0 ≤ yday) (early : yday ≤ 58) :
    Dated true yday (monLoop yday 11) (1 + (yday - spm (monLoop yday 11))) := by
  obtain ⟨less, start, stop⟩ := monLoop_common first (by omega)
  have march := monthStart_march _ less
  have leapStart := monthStart_leap _ less
  have leapDays := monthDays_leap _ less
  have before : ¬1 < monLoop yday 11 := fun late => by rw [if_pos late] at march; omega
  rw [if_neg before] at march leapStart
  rw [spm_eq _ less]
  refine ⟨less, by omega, ?_, by omega⟩
  split at leapDays <;> omega

theorem dated_leapDay : Dated true 59 (monLoop 58 11) (2 + (58 - spm (monLoop 58 11))) := by
  constructor <;> decide

theorem dated_late (late : 59 < yday) (last : yday < 366) :
    Dated true yday (monLoop (yday - 1) 11) (1 + (yday - 1 - spm (monLoop (yday - 1) 11))) := by
  have first : 0 ≤ yday - 1 := by omega
  obtain ⟨less, start, stop⟩ := monLoop_common first (by omega)
  have march := monthStart_march _ less
  have leapStart := monthStart_leap _ less
  have leapDays := monthDays_leap _ less
  have after : 1 < monLoop (yday - 1) 11 := by
    by_contra before
    rw [if_neg before] at march
    omega
  have other : monLoop (yday - 1) 11 ≠ 1 := by omega
  rw [if_pos after] at leapStart
  rw [if_neg other] at leapDays
  rw [spm_eq _ less]
  exact ⟨less, by omega, by omega, by omega⟩

theorem dated (leap : Bool) (first : 0 ≤ yday) (last : yday < if leap then 366 else 365) :
    Dated leap yday (monLoop (if leap && decide (yday > 58) then yday - 1 else yday) 11)
      ((if (leap && decide (yday > 58)) && decide (yday = 59) then 2 else 1) +
        ((if leap && decide (yday > 58) then yday - 1 else yday) -
          spm (monLoop (if leap && decide (yday > 58) then yday - 1 else yday) 11))) := by
  cases leap with
  | false => simpa using dated_common first (by simpa using last)
  | true =>
    by_cases late : yday > 58
    · by_cases day : yday = 59
      · subst day
        exact dated_leapDay
      · simpa [late, day] using dated_late (by omega) (by simpa using last)
    · simpa [late] using dated_early first (by omega)

section
variable (nonneg : 0 ≤ timep)
include nonneg

theorem gmtime_clock :
    (gmtime timep).InRange ∧ (gmtime timep).clock = timep % 86400 := by
  have day : toInt (timep.tmod (24 * 60 * 60)) = timep % 86400 := by
    rw [Int.tmod_eq_emod_of_nonneg nonneg, toInt_eq (by omega) (by omega)]
    rfl
  have sec : (gmtime timep).sec = timep % 86400 % 60 := by
    simp only [gmtime, day]
    exact Int.tmod_eq_emod_of_nonneg (by omega)
  have rest : (timep % 86400).tdiv 60 = timep % 86400 / 60 := Int.tdiv_eq_ediv_of_nonneg (by omega)
  have min : (gmtime timep).min = timep % 86400 / 60 % 60 := by
    simp only [gmtime, day, rest]
    exact Int.tmod_eq_emod_of_nonneg (by omega)
  have hour : (gmtime timep).hour = timep % 86400 / 60 / 60 := by
    simp only [gmtime, day, rest]
    exact Int.tdiv_eq_ediv_of_nonneg (by omega)
  refine ⟨⟨?_, ?_, ?_⟩, ?_⟩
  · omega
  · omega
  · omega
  · rw [Tm.clock]
    omega

theorem gmtime_work : toInt (timep.tdiv (24 * 60 * 60)) = toInt (timep / 86400) := by
  rw [Int.tdiv_eq_ediv_of_nonneg nonneg]
  rfl

theorem gmtime_dated (positive : 0 ≤ toInt (timep / 86400)) :
    0 ≤ (gmtime timep).mon ∧ (gmtime timep).date.Valid ∧ (gmtime timep).date.number = toInt (timep / 86400) ∧
      (gmtime timep).yday = (gmtime timep).date.yday := by
  have work := gmtime_work nonneg
  have enough : toInt (timep / 86400) < ((toInt (timep / 86400)).toNat + 1 : Nat) := by omega
  have loop := yearLoop_spec (i := 1970) _ enough positive
  simp only [gmtime, work] at *
  generalize yearLoop ((toInt (timep / 86400)).toNat + 1) 1970 (toInt (timep / 86400)) = found at *
  obtain ⟨year, yday⟩ := found
  obtain ⟨sum, first, last⟩ := loop
  simp only at sum first last ⊢
  have so := dated (isleap year) first last
  have whole : year - 1900 + 1900 = year := by omega
  have day : monthStart (leapYear year) _ + _ - 1 = yday := so.day
  refine ⟨Int.natCast_nonneg _, ⟨so.month, so.first, ?_⟩, ?_, ?_⟩
  · simp only [Tm.date, whole]
    exact so.last
  · simp only [Tm.date, Date.number, Date.yday, whole, Int.toNat_natCast]
    omega
  · simp only [Tm.date, Date.yday, whole, Int.toNat_natCast]
    omega

theorem gmtime_negative (negative : toInt (timep / 86400) < 0) :
    (gmtime timep).year = 70 ∧ (gmtime timep).mon = 0 ∧ (gmtime timep).mday = 1 + toInt (timep / 86400) := by
  have work := gmtime_work nonneg
  have early : ¬toInt (timep / 86400) > 58 := by omega
  simp only [gmtime, work, yearLoop_negative _ negative, early, decide_false, Bool.and_false, Bool.false_and,
    Bool.false_eq_true, if_false]
  rw [monLoop_negative negative 11 (by omega)]
  exact ⟨rfl, rfl, by simp [spm]⟩

theorem toInt_fits (fits : timep / 86400 < 2 ^ 31) : toInt (timep / 86400) = timep / 86400 :=
  toInt_eq (by omega) fits

theorem gmtime_tells (fits : timep / 86400 < 2 ^ 31) :
    (gmtime timep).toTm.Tells timep ∧ (gmtime timep).yday = (gmtime timep).date.yday := by
  have whole := toInt_fits nonneg fits
  obtain ⟨mon, date, number, yday⟩ := gmtime_dated nonneg (by omega)
  obtain ⟨range, clock⟩ := gmtime_clock nonneg
  exact ⟨⟨⟨range, mon, date⟩, number.trans whole, clock⟩, yday⟩

theorem gmtime_wday (fits : timep / 86400 < 2 ^ 31) :
    (gmtime timep).wday = (gmtime timep).date.wday ↔ 4 + timep / 86400 < 2 ^ 31 := by
  have number := (gmtime_tells nonneg fits).1.number
  have work := gmtime_work nonneg
  have whole := toInt_fits nonneg fits
  have same : (gmtime timep).wday = (toInt (4 + timep / 86400)).tmod 7 := by
    simp only [gmtime, work, whole]
  rw [same, Date.wday, number]
  constructor
  · intro equal
    by_contra far
    rw [toInt_wraps (by omega) (by omega)] at equal
    have opposite : (4 + timep / 86400 - 2 ^ 32).tmod 7 = -((2 ^ 32 - (4 + timep / 86400)) % 7) := by
      rw [← Int.tmod_eq_emod_of_nonneg (by omega), ← Int.neg_tmod, Int.neg_sub]
    omega
  · intro near
    rw [toInt_eq (by omega) near, Int.tmod_eq_emod_of_nonneg (by omega)]
    omega

end

theorem mdayLoop_id (fuel : Nat) (inside : t.mday ≤ spm (1 + t.mon)) : mdayLoop fuel t = t := by
  cases fuel with
  | zero => rfl
  | succ fuel => exact if_neg (by omega)

theorem tmNormal_id (range : t.InRange) (mon : t.mon < 12) (inside : t.mday ≤ spm (1 + t.mon)) : tmNormal t = t := by
  obtain ⟨sec, min, hour⟩ := range
  simp only [tmNormal, if_neg (by omega : ¬t.sec > 60), if_neg (by omega : ¬t.min ≥ 60),
    if_neg (by omega : ¬t.hour ≥ 24), if_neg (by omega : ¬t.mon ≥ 12)]
  exact mdayLoop_id _ inside

/-- The days of the years, with the correction for the centuries after 2100. -/
def yearsDay (years : Int) : Int :=
  let day := years * 365 + (years + 1).tdiv 4
  if years ≥ 131 then
    let years := (years - 131).tdiv 100
    let day := day - (years / 4 * 3 + 1)
    let years := years % 4
    day - (if years = 3 then years - 1 else years)
  else day

theorem yearsDay_eq {years : Int} (nonneg : 0 ≤ years) : yearsDay years = yearStart (years + 1970) - yearStart 1970 := by
  simp only [yearsDay, yearStart]
  rw [Int.tdiv_eq_ediv_of_nonneg (by omega)]
  split
  case isTrue late =>
    rw [Int.tdiv_eq_ediv_of_nonneg (by omega)]
    split <;> omega
  case isFalse => omega

theorem timegm_value (range : t.InRange) (mon : t.mon < 12) (inside : t.mday ≤ spm (1 + t.mon)) (year : 70 ≤ t.year) :
    (timegm t).1 = (yearStart (t.year + 1900) - yearStart 1970 + (spm t.mon + t.mday - 1 +
      if isleap (t.year + 1900) ∧ t.mon > 1 then 1 else 0)) * 86400 + t.clock := by
  have years := yearsDay_eq (by omega : 0 ≤ t.year - 70)
  have whole : t.year - 70 + 1970 = t.year + 1900 := by omega
  have code : (timegm t).1 = (((yearsDay (t.year - 70) + (spm t.mon + t.mday - 1 +
      if isleap (t.year + 1900) ∧ t.mon > 1 then 1 else 0)) * 24 + t.hour) * 60 + t.min) * 60 + t.sec := by
    simp only [timegm, tmNormal_id range mon inside, if_neg (by omega : ¬t.year < 70)]
    rfl
  rw [whole] at years
  rw [code, years, Tm.clock]
  omega

theorem Tm.Valid.month (valid : t.Valid) : t.mon < 12 := by
  have less : t.mon.toNat < 12 := valid.date.mon
  omega

theorem Tm.Valid.date_yday (valid : t.Valid) :
    t.date.yday = spm t.mon + t.mday - 1 + if isleap (t.year + 1900) ∧ t.mon > 1 then 1 else 0 := by
  have less : t.mon.toNat < 12 := valid.date.mon
  have table := spm_eq _ less
  have whole : (t.mon.toNat : Int) = t.mon := Int.toNat_of_nonneg valid.mon
  rw [whole] at table
  have day : t.date.yday = monthStart (isleap (t.year + 1900)) t.mon.toNat + t.mday - 1 := rfl
  rw [day, table]
  cases leap : isleap (t.year + 1900) with
  | false => simp
  | true =>
    rw [monthStart_leap _ less]
    by_cases late : t.mon > 1
    · rw [if_pos (by omega), if_pos ⟨rfl, late⟩]
      omega
    · rw [if_neg (by omega), if_neg (fun both => late both.2)]
      omega

theorem Tm.Valid.inside (valid : t.Valid) : t.mday ≤ spm (1 + t.mon) := by
  have bound : ∀ mon < 12, monthDays true mon ≤ spm (1 + (mon : Nat)) ∧ monthDays false mon ≤ spm (1 + (mon : Nat)) := by
    decide
  have less : t.mon.toNat < 12 := valid.date.mon
  have whole : (t.mon.toNat : Int) = t.mon := Int.toNat_of_nonneg valid.mon
  obtain ⟨leap, common⟩ := bound _ less
  have last : t.mday ≤ monthDays (leapYear (t.year + 1900)) t.mon.toNat := valid.date.last
  rw [whole] at leap common
  cases here : leapYear (t.year + 1900) with
  | false | true =>
    rw [here] at last
    omega

theorem timegm_valid (valid : t.Valid) (year : 70 ≤ t.year) : (timegm t).1 = t.date.number * 86400 + t.clock := by
  rw [timegm_value valid.range valid.month valid.inside year, ← valid.date_yday]
  rfl

theorem Tm.Tells.timegm (tells : t.Tells timep) (nonneg : 0 ≤ timep) : (timegm t).1 = timep := by
  have number := tells.number
  have year : 1970 ≤ t.year + 1900 := by
    refine (Date.number_nonneg tells.valid.date).mp ?_
    omega
  rw [timegm_valid tells.valid (by omega), number, tells.clock]
  omega

theorem Tm.Valid.timestamp (valid : t.Valid) (year : 70 ≤ t.year) :
    0 ≤ (Rtc.timegm t).1 ∧ (Rtc.timegm t).1 / 86400 = t.date.number ∧ (Rtc.timegm t).1 % 86400 = t.clock := by
  have value := timegm_valid valid year
  have number := (Date.number_nonneg valid.date).mpr (by simp only [Tm.date]; omega)
  obtain ⟨sec, min, hour⟩ := valid.range
  have clock : t.clock = (t.hour * 60 + t.min) * 60 + t.sec := rfl
  omega

theorem Tm.Tells.same (tells : t.Tells timep) (tells' : u.Tells timep) : t.SameTime u := by
  have date := Date.number_injective tells.valid.date tells'.valid.date (tells.number.trans tells'.number.symm)
  have clock : t.clock = u.clock := tells.clock.trans tells'.clock.symm
  obtain ⟨sec, min, hour⟩ := tells.valid.range
  obtain ⟨sec', min', hour'⟩ := tells'.valid.range
  have mon := tells.valid.mon
  have mon' := tells'.valid.mon
  simp only [Tm.date, Date.mk.injEq] at date
  simp only [Tm.clock] at clock
  refine ⟨?_, ?_, date.2.2, ?_, ?_, ?_⟩ <;> omega

/-! ## Both directions -/

structure Converts (timep : Int) (tz : Int8) : Prop where
  utc : (gmtime timep).Tells timep
  back : (timegm (gmtime timep).toTm).1 = timep
  zone : 0 ≤ timep + 3600 * tz.toInt → mktime tz (localtime tz timep).toTm = timep

def ReadsBack (t : Tm) : Prop := (gmtime (timegm t).1).toTm.SameTime t

theorem mktime_localtime (tz : Int8) (nonneg : 0 ≤ timep + 3600 * tz.toInt)
    (fits : (timep + 3600 * tz.toInt) / 86400 < 2 ^ 31) : mktime tz (localtime tz timep).toTm = timep := by
  have place : timep + tz.toInt * 3600 = timep + 3600 * tz.toInt := by omega
  have back := (gmtime_tells nonneg fits).1.timegm nonneg
  rw [mktime, localtime, place, back]
  omega

theorem mktime_lost (tz : Int8) (nonneg : 0 ≤ timep + 3600 * tz.toInt) (fits : timep / 86400 < 2 ^ 31)
    (far : 2 ^ 31 ≤ (timep + 3600 * tz.toInt) / 86400) : mktime tz (localtime tz timep).toTm ≠ timep := by
  have place : timep + tz.toInt * 3600 = timep + 3600 * tz.toInt := by omega
  have small := tz.toInt_lt
  have wrapped := toInt_wraps far (by omega)
  obtain ⟨year, mon, mday⟩ := gmtime_negative nonneg (by omega)
  obtain ⟨range, clock⟩ := gmtime_clock nonneg
  have january : spm (1 + 0) = 31 := rfl
  have value := timegm_value range (by omega) (by rw [mon, mday, january]; omega) (by omega)
  have early : ¬(isleap ((gmtime (timep + 3600 * tz.toInt)).year + 1900) ∧ (gmtime (timep + 3600 * tz.toInt)).mon > 1) := by
    omega
  have first : spm 0 = 0 := rfl
  rw [if_neg early, year, mon, mday, first, clock, wrapped] at value
  rw [mktime, localtime, place, value]
  have start : yearStart (70 + 1900) = yearStart 1970 := rfl
  omega

theorem readsBack_iff (valid : t.Valid) (year : 70 ≤ t.year) : ReadsBack t ↔ t.date.number < 2 ^ 31 := by
  obtain ⟨nonneg, number, clock⟩ := valid.timestamp year
  constructor
  · intro same
    rcases Int.lt_or_le (toInt ((timegm t).1 / 86400)) 0 with negative | positive
    · have mday := (gmtime_negative nonneg negative).2.2
      have first : 1 ≤ t.mday := valid.date.first
      have equal := same.2.2.1
      omega
    · have found := (gmtime_dated nonneg positive).2.2.1
      have date : (gmtime (timegm t).1).date = t.date := by
        rw [Tm.date, Tm.date, same.1, same.2.1, same.2.2.1]
      have bound : toInt t.date.number < (2 ^ 32 + 1) / 2 := Int.bmod_lt (by decide)
      rw [date, number] at found
      omega
  · intro fits
    have tells := (gmtime_tells nonneg (by omega)).1
    exact tells.same ⟨valid, number.symm, clock.symm⟩

theorem converts_iff (tz : Int8) (nonneg : 0 ≤ timep) (fits : timep / 86400 < 2 ^ 31) :
    Converts timep tz ↔ 4 + timep / 86400 < 2 ^ 31 ∧
      (0 ≤ timep + 3600 * tz.toInt → (timep + 3600 * tz.toInt) / 86400 < 2 ^ 31) := by
  constructor
  · intro converts
    refine ⟨(gmtime_wday nonneg fits).mp converts.utc.wday, fun local_ => ?_⟩
    by_contra far
    exact mktime_lost tz local_ fits (by omega) (converts.zone local_)
  · rintro ⟨near, local_⟩
    obtain ⟨time, yday⟩ := gmtime_tells nonneg fits
    exact ⟨⟨time, (gmtime_wday nonneg fits).mpr near, yday⟩, time.timegm nonneg,
      fun later => mktime_localtime tz later (local_ later)⟩

end

/-- A timestamp is converted and converted back, in UTC and in every time zone, but for the last four days that an int
can number, and where the time zone leads behind the last. And every date and time from 1970 on is found again, if its
day has a number in an int. -/
theorem calendar (timep : Int) (tz : Int8) (t : Tm) :
    (0 ≤ timep → timep / 86400 < 2 ^ 31 →
      (Converts timep tz ↔ 4 + timep / 86400 < 2 ^ 31 ∧
        (0 ≤ timep + 3600 * tz.toInt → (timep + 3600 * tz.toInt) / 86400 < 2 ^ 31))) ∧
    (t.Valid → 70 ≤ t.year → (ReadsBack t ↔ t.date.number < 2 ^ 31)) :=
  ⟨converts_iff tz, readsBack_iff⟩

/-- 29 February 2000, 12:30:59 -/
def leapDay : Tm := ⟨59, 30, 12, 29, 1, 100, 0⟩

theorem calendar_leapDay : Converts 951827459 8 ∧ ReadsBack leapDay :=
  ⟨((calendar 951827459 8 leapDay).1 (by decide) (by decide)).mpr (by decide),
    ((calendar 951827459 8 leapDay).2 ⟨⟨by decide, by decide, by decide⟩, by decide, ⟨by decide, by decide, by decide⟩⟩
      (by decide)).mpr (by decide)⟩

theorem calendar_lastDay : ¬Converts ((2 ^ 31 - 1) * 86400) 0 := fun converts =>
  absurd ((gmtime_wday (by decide) (by decide)).mp converts.utc.wday) (by decide)

end RtThread.Rtc
