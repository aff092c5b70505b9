import RtThread.Rtc.Calendar

/-! `timegm` of fields beyond their ranges, with all the fields that it writes. -/

set_option autoImplicit false
namespace RtThread.Rtc
open Lib

/-- `timegm`, which leaves `tm_isdst` alone. -/
def timegmFull (t : TmFull) : Int × TmFull :=
  let (value, tm) := timegm t.toTm
  let yday :=
    if tm.year < 70 then t.yday
    else spm tm.mon + tm.mday - 1 + (if isleap (tm.year + 1900) ∧ tm.mon > 1 then 1 else 0)
  (value, { toTm := tm, yday, isdst := t.isdst })

structure Tm.Spread (t : Tm) : Prop where
  sec : 0 ≤ t.sec
  min : 0 ≤ t.min
  hour : 0 ≤ t.hour
  mday : 1 ≤ t.mday
  mon : 0 ≤ t.mon
  year : 70 ≤ t.year

/-- The first instant of the month, with months carried into years, and the days and the time of day after it. -/
def Tm.instant (t : Tm) : Int :=
  (Date.number ⟨t.year + 1900 + t.mon / 12, (t.mon % 12).toNat, 1⟩ + (t.mday - 1)) * 86400 + t.clock

/-- Two times with the same fields, apart from `tm_isdst`. -/
def TmFull.SameFields (t u : TmFull) : Prop := t.SameTime u.toTm ∧ t.wday = u.wday ∧ t.yday = u.yday

def Normalises (t : TmFull) : Prop :=
  (timegmFull t).1 = t.instant ∧ (timegmFull t).2.SameFields (gmtime (timegmFull t).1)

/-- The second is not 60, the day with the hours, minutes and seconds carried into it is one of the month, and the days
up to it fit in an int. -/
structure Tm.InMonth (t : Tm) : Prop where
  sec : t.sec ≠ 60
  mon : t.mon ≤ 11
  mday : t.mday + t.clock / 86400 ≤ monthDays (leapYear (t.year + 1900)) t.mon.toNat
  day : 4 + t.instant / 86400 < 2 ^ 31

section
variable {t u : Tm} {timep : Int}

/-! ## The time of day -/

def clockNormal (t : Tm) : Tm :=
  let t := if t.sec > 60 then { t with min := t.min + t.sec.tdiv 60, sec := t.sec.tmod 60 } else t
  let t := if t.min ≥ 60 then { t with hour := t.hour + t.min.tdiv 60, min := t.min.tmod 60 } else t
  if t.hour ≥ 24 then { t with mday := t.mday + t.hour.tdiv 24, hour := t.hour.tmod 24 } else t

def monNormal (t : Tm) : Tm :=
  if t.mon ≥ 12 then { t with year := t.year + t.mon.tdiv 12, mon := t.mon.tmod 12 } else t

theorem tmNormal_eq (t : Tm) : tmNormal t =
    mdayLoop (12 * ((monNormal (clockNormal t)).mday.toNat + 1)) (monNormal (clockNormal t)) := rfl

theorem carry_sec (nonneg : 0 ≤ t.sec) (other : t.sec ≠ 60) :
    (if t.sec > 60 then { t with min := t.min + t.sec.tdiv 60, sec := t.sec.tmod 60 } else t) =
      { t with min := t.min + t.sec / 60, sec := t.sec % 60 } := by
  split
  case isTrue => rw [Int.tdiv_eq_ediv_of_nonneg nonneg, Int.tmod_eq_emod_of_nonneg nonneg]
  case isFalse =>
    rw [Int.ediv_eq_zero_of_lt nonneg (by omega), Int.emod_eq_of_lt nonneg (by omega), Int.add_zero]

theorem carry_min (nonneg : 0 ≤ t.min) :
    (if t.min ≥ 60 then { t with hour := t.hour + t.min.tdiv 60, min := t.min.tmod 60 } else t) =
      { t with hour := t.hour + t.min / 60, min := t.min % 60 } := by
  split
  case isTrue => rw [Int.tdiv_eq_ediv_of_nonneg nonneg, Int.tmod_eq_emod_of_nonneg nonneg]
  case isFalse =>
    rw [Int.ediv_eq_zero_of_lt nonneg (by omega), Int.emod_eq_of_lt nonneg (by omega), Int.add_zero]

theorem carry_hour (nonneg : 0 ≤ t.hour) :
    (if t.hour ≥ 24 then { t with mday := t.mday + t.hour.tdiv 24, hour := t.hour.tmod 24 } else t) =
      { t with mday := t.mday + t.hour / 24, hour := t.hour % 24 } := by
  split
  case isTrue => rw [Int.tdiv_eq_ediv_of_nonneg nonneg, Int.tmod_eq_emod_of_nonneg nonneg]
  case isFalse =>
    rw [Int.ediv_eq_zero_of_lt nonneg (by omega), Int.emod_eq_of_lt nonneg (by omega), Int.add_zero]

theorem clockNormal_eq (spread : t.Spread) (other : t.sec ≠ 60) : clockNormal t =
    { t with
      sec := t.sec % 60
      min := (t.min + t.sec / 60) % 60
      hour := (t.hour + (t.min + t.sec / 60) / 60) % 24
      mday := t.mday + (t.hour + (t.min + t.sec / 60) / 60) / 24 } := by
  obtain ⟨sec, min, hour⟩ := spread
  simp only [clockNormal]
  rw [carry_sec sec other, carry_min, carry_hour]
  · dsimp only
    omega
  · dsimp only
    omega

theorem clockNormal_mon (t : Tm) : (clockNormal t).mon = t.mon ∧ (clockNormal t).year = t.year := by
  simp only [clockNormal]
  split <;> split <;> split <;> exact ⟨rfl, rfl⟩

theorem clockNormal_sixty (sixty : t.sec = 60) : (clockNormal t).sec = 60 := by
  simp only [clockNormal, if_neg (by omega : ¬t.sec > 60)]
  split <;> split <;> exact sixty

theorem clockNormal_clock (spread : t.Spread) (other : t.sec ≠ 60) : (clockNormal t).InRange ∧
    (clockNormal t).mday = t.mday + t.clock / 86400 ∧ (clockNormal t).clock = t.clock % 86400 := by
  rw [clockNormal_eq spread other]
  refine ⟨⟨?_, ?_, ?_⟩, ?_, ?_⟩ <;> simp only [Tm.clock] <;> omega

theorem clock_nonneg (spread : t.Spread) : 0 ≤ t.clock := by
  obtain ⟨sec, min, hour⟩ := spread
  rw [Tm.clock]
  omega

/-! ## The months -/

theorem monNormal_id (mon : t.mon ≤ 11) : monNormal t = t := if_neg (by omega)

theorem monNormal_mon (nonneg : 0 ≤ t.mon) : 0 ≤ (monNormal t).mon ∧ (monNormal t).mon ≤ 11 ∧
    t.year ≤ (monNormal t).year ∧ (11 < t.mon → t.year < (monNormal t).year) := by
  simp only [monNormal]
  split
  case isTrue =>
    simp only [Int.tdiv_eq_ediv_of_nonneg nonneg, Int.tmod_eq_emod_of_nonneg nonneg]
    omega
  case isFalse => omega

def taken : Nat → Int
  | 0 => 0
  | mon + 1 => taken mon + spm mon

def Tm.loopDay (t : Tm) : Int := t.mday + taken t.mon.toNat + if leapYear (t.year + 1900) ∧ 1 < t.mon then 1 else 0

theorem mdayStep_within (mon : 0 ≤ t.mon) (within : t.mon < 11) : (mdayStep t).mon = t.mon + 1 ∧
    (mdayStep t).year = t.year ∧ (mdayStep t).loopDay = t.loopDay := by
  have next : (t.mon + 1).toNat = t.mon.toNat + 1 := by omega
  have whole : (t.mon.toNat : Int) = t.mon := Int.toNat_of_nonneg mon
  have same : isleap (t.year + 1900) = leapYear (t.year + 1900) := rfl
  simp only [mdayStep, if_neg (by omega : ¬t.mon + 1 > 11), Tm.loopDay, next, taken, whole, same, true_and]
  cases leapYear (t.year + 1900) with
  | false => simp
  | true =>
    simp only [true_and, and_true]
    split <;> split <;> split <;> omega

theorem mdayStep_december (mon : t.mon = 11) : (mdayStep t).mon = 0 ∧ (mdayStep t).year = t.year + 1 := by
  simp only [mdayStep, if_pos (by omega : t.mon + 1 > 11), and_self]

theorem mdayStep_mday (t : Tm) :
    (mdayStep t).mday = t.mday - (if t.mon = 1 ∧ isleap (t.year + 1900) then 1 else 0) - spm t.mon := by
  simp only [mdayStep]
  split <;> split <;> simp

theorem spm_days : ∀ mon < 12, spm (1 + (mon : Nat)) = spm (mon : Nat) + monthDays false mon := by decide

theorem mdayStep_left (mon : 0 ≤ t.mon) (within : t.mon ≤ 11) (more : t.mday > spm (1 + t.mon)) :
    monthDays false t.mon.toNat < (mdayStep t).mday + if t.mon = 1 then 1 else 0 := by
  have whole : (t.mon.toNat : Int) = t.mon := Int.toNat_of_nonneg mon
  have days := spm_days t.mon.toNat (by omega)
  rw [whole] at days
  rw [mdayStep_mday]
  split <;> split <;> omega

/-- Where the loop ends in the year it began in: it did nothing, or the last turn left more days than the month before
has. -/
structure Within (t u : Tm) : Prop where
  mon : t.mon ≤ u.mon
  loopDay : u.loopDay = t.loopDay
  left : u = t ∨ t.mon < u.mon ∧ monthDays false (u.mon - 1).toNat < u.mday + if u.mon = 2 then 1 else 0

structure LoopEnd (t u : Tm) : Prop where
  year : t.year ≤ u.year
  mon : 0 ≤ u.mon ∧ u.mon ≤ 11
  first : 1 ≤ u.mday
  within : u.year = t.year → Within t u

theorem LoopEnd.refl (mon : 0 ≤ t.mon ∧ t.mon ≤ 11) (first : 1 ≤ t.mday) : LoopEnd t t :=
  ⟨Int.le_refl _, mon, first, fun _ => ⟨Int.le_refl _, rfl, .inl rfl⟩⟩

theorem LoopEnd.step (mon : 0 ≤ t.mon ∧ t.mon ≤ 11) (more : t.mday > spm (1 + t.mon)) (rest : LoopEnd (mdayStep t) u) :
    LoopEnd t u := by
  obtain ⟨year, mon', first, within⟩ := rest
  by_cases december : t.mon = 11
  · have next := mdayStep_december december
    exact ⟨by omega, mon', first, fun same => by omega⟩
  · obtain ⟨next, year', day⟩ := mdayStep_within mon.1 (by omega)
    refine ⟨by omega, mon', first, fun same => ?_⟩
    obtain ⟨later, loopDay, left⟩ := within (same.trans year'.symm)
    refine ⟨by omega, loopDay.trans day, .inr ⟨by omega, ?_⟩⟩
    rcases left with last | left
    · have more' := mdayStep_left mon.1 mon.2 more
      have before : u.mon - 1 = t.mon := by
        rw [last]
        omega
      rw [before]
      rw [← last] at more'
      split at more' <;> split <;> omega
    · exact left.2

theorem mdayLoop_end (fuel : Nat) (mon : 0 ≤ t.mon ∧ t.mon ≤ 11) (first : 1 ≤ t.mday) : LoopEnd t (mdayLoop fuel t) := by
  induction fuel generalizing t with
  | zero => exact .refl mon first
  | succ fuel ih =>
    rw [mdayLoop]
    split
    case isFalse => exact .refl mon first
    case isTrue more =>
      have left := mdayStep_left mon.1 mon.2 more
      have positive := monthDays_pos false t.mon.toNat
      apply LoopEnd.step mon more
      by_cases december : t.mon = 11
      · have next := (mdayStep_december december).1
        exact ih (by omega) (by split at left <;> omega)
      · have next := (mdayStep_within mon.1 (by omega)).1
        exact ih (by omega) (by split at left <;> omega)

theorem taken_same : ∀ mon < 12, ∀ mon' < mon,
    monthStart false mon' - taken mon' = monthStart false mon - taken mon → mon' = 0 ∧ mon = 3 := by decide

/-! ## The value and the fields -/

/-- The number of the day, as `timegm` finds it. -/
def dayOf (t : Tm) : Int :=
  yearsDay (t.year - 70) + (spm (tmNormal t).mon + (tmNormal t).mday - 1 +
    if isleap ((tmNormal t).year + 1900) ∧ (tmNormal t).mon > 1 then 1 else 0)

theorem timegm_dayOf (year : 70 ≤ (tmNormal t).year) : timegm t =
    (((dayOf t * 24 + (tmNormal t).hour) * 60 + (tmNormal t).min) * 60 + (tmNormal t).sec,
      { tmNormal t with wday := (dayOf t + 4).tmod 7 }) := by
  simp only [timegm, if_neg (by omega : ¬(tmNormal t).year < 70)]
  rfl

theorem dayOf_valid (valid : (tmNormal t).Valid) (year : 70 ≤ t.year) :
    dayOf t = yearStart (t.year + 1900) - yearStart 1970 + (tmNormal t).date.yday := by
  have years := yearsDay_eq (by omega : 0 ≤ t.year - 70)
  have whole : t.year - 70 + 1970 = t.year + 1900 := by omega
  rw [whole] at years
  rw [dayOf, valid.date_yday, years]

theorem first_valid (t : Tm) : (⟨t.year + 1900 + t.mon / 12, (t.mon % 12).toNat, 1⟩ : Date).Valid := by
  have positive := monthDays_pos (leapYear (t.year + 1900 + t.mon / 12)) (t.mon % 12).toNat
  exact ⟨by dsimp only; omega, Int.le_refl 1, by dsimp only; omega⟩

theorem instant_nonneg (spread : t.Spread) : 0 ≤ t.instant := by
  have number := (Date.number_nonneg (first_valid t)).mpr (by
    have := spread.mon
    have := spread.year
    dsimp only
    omega)
  have clock := clock_nonneg spread
  have mday := spread.mday
  rw [Tm.instant]
  omega

theorem instant_day (spread : t.Spread) (mon : t.mon ≤ 11) : t.instant / 86400 =
    yearStart (t.year + 1900) - yearStart 1970 + (monthStart (leapYear (t.year + 1900)) t.mon.toNat +
      (t.mday + t.clock / 86400) - 1) := by
  have year : t.mon / 12 = 0 := Int.ediv_eq_zero_of_lt spread.mon (by omega)
  have month : t.mon % 12 = t.mon := Int.emod_eq_of_lt spread.mon (by omega)
  simp only [Tm.instant, Date.number, Date.yday, year, month, Int.add_zero]
  omega

theorem tmNormal_inMonth (spread : t.Spread) (inside : t.InMonth) :
    tmNormal t = clockNormal t ∧ (clockNormal t).Valid := by
  obtain ⟨mon, year⟩ := clockNormal_mon t
  obtain ⟨range, mday, clock⟩ := clockNormal_clock spread inside.sec
  have nonneg := clock_nonneg spread
  have month := inside.mon
  have low := spread.mon
  have first := spread.mday
  have valid : (clockNormal t).Valid := by
    refine ⟨range, by omega, ⟨?_, ?_, ?_⟩⟩
    · simp only [Tm.date]
      omega
    · simp only [Tm.date]
      omega
    · simp only [Tm.date, mon, year, mday]
      exact inside.mday
  refine ⟨?_, valid⟩
  rw [tmNormal_eq, monNormal_id (by omega)]
  exact mdayLoop_id _ valid.inside

theorem Tm.SameTime.date (same : t.SameTime u) : t.date = u.date := by
  rw [Tm.date, Tm.date, same.1, same.2.1, same.2.2.1]

theorem Tm.SameTime.trans {v : Tm} (first : t.SameTime u) (second : u.SameTime v) : t.SameTime v := by
  obtain ⟨year, mon, mday, hour, min, sec⟩ := first
  rw [Tm.SameTime, year, mon, mday, hour, min, sec]
  exact second

theorem timegmFull_same (t : TmFull) : (timegmFull t).2.SameTime (tmNormal t.toTm) := by
  simp only [timegmFull, timegm]
  split <;> exact ⟨rfl, rfl, rfl, rfl, rfl, rfl⟩

theorem timegmFull_valid {t : TmFull} (year : 70 ≤ t.year) (valid : (tmNormal t.toTm).Valid)
    (later : t.year ≤ (tmNormal t.toTm).year) : (timegmFull t).1 = dayOf t.toTm * 86400 + (tmNormal t.toTm).clock ∧
      (timegmFull t).2.wday = (dayOf t.toTm + 4).tmod 7 ∧ (timegmFull t).2.yday = (tmNormal t.toTm).date.yday := by
  have code := timegm_dayOf (t := t.toTm) (by omega)
  simp only [timegmFull, code, if_neg (by omega : ¬(tmNormal t.toTm).year < 70), valid.date_yday, Tm.clock]
  exact ⟨by omega, trivial, trivial⟩

theorem normalises_of_inMonth {t : TmFull} (spread : t.Spread) (inside : t.InMonth) : Normalises t := by
  obtain ⟨normal, valid⟩ := tmNormal_inMonth spread inside
  obtain ⟨mon, year⟩ := clockNormal_mon t.toTm
  obtain ⟨range, mday, clock⟩ := clockNormal_clock spread inside.sec
  have nonneg := instant_nonneg spread
  have instant := instant_day spread inside.mon
  rw [← normal] at valid mon year range mday clock
  have day := dayOf_valid valid spread.year
  obtain ⟨value, wday, yday⟩ := timegmFull_valid spread.year valid (by omega)
  have number : (tmNormal t.toTm).date.number = t.instant / 86400 := by
    rw [Date.number, instant]
    simp only [Tm.date, Date.yday, mon, year, mday]
  have dayOf_eq : dayOf t.toTm = t.instant / 86400 := by
    rw [day, ← number, Date.number, Tm.date, year]
  have rest : t.instant % 86400 = t.clock % 86400 := by
    rw [Tm.instant]
    omega
  have whole : (timegmFull t).1 = t.instant := by
    rw [value, dayOf_eq, clock]
    omega
  have fits := inside.day
  obtain ⟨tells, gmtimeYday⟩ := gmtime_tells nonneg (by omega)
  have found : (tmNormal t.toTm).SameTime (gmtime t.instant).toTm :=
    Tm.Tells.same ⟨valid, number, clock.trans rest.symm⟩ tells
  refine ⟨whole, ?_⟩
  rw [whole]
  refine ⟨Tm.SameTime.trans (timegmFull_same t) found, ?_, ?_⟩
  · rw [wday, dayOf_eq, (gmtime_wday nonneg (by omega)).mpr fits, Date.wday, tells.number]
    exact Int.tmod_eq_emod_of_nonneg (by omega)
  · rw [yday, gmtimeYday, found.date]

theorem tmNormal_sec (t : Tm) : (tmNormal t).sec = (clockNormal t).sec := by
  rw [tmNormal_eq, (mdayLoop_clock _ _).1, monNormal]
  split <;> rfl

theorem tmNormal_end (spread : t.Spread) (sec : t.sec ≠ 60) : LoopEnd (monNormal (clockNormal t)) (tmNormal t) := by
  have mon := monNormal_mon (t := clockNormal t) (by rw [(clockNormal_mon t).1]; exact spread.mon)
  have nonneg := clock_nonneg spread
  have mday := (clockNormal_clock spread sec).2.1
  have same : (monNormal (clockNormal t)).mday = (clockNormal t).mday := by
    rw [monNormal]
    split <;> rfl
  have first := spread.mday
  exact mdayLoop_end _ ⟨mon.1, mon.2.1⟩ (by omega)

theorem tmNormal_year (spread : t.Spread) (sec : t.sec ≠ 60) : t.year ≤ (tmNormal t).year ∧
    ((tmNormal t).year = t.year → t.mon ≤ 11) := by
  obtain ⟨mon, year⟩ := clockNormal_mon t
  obtain ⟨low, high, later, december⟩ := monNormal_mon (t := clockNormal t) (by rw [mon]; exact spread.mon)
  have after := (tmNormal_end spread sec).year
  refine ⟨by omega, fun same => ?_⟩
  by_contra more
  have := december (by omega)
  omega

theorem tmNormal_within (spread : t.Spread) (sec : t.sec ≠ 60) (month : t.mon ≤ 11) (year : (tmNormal t).year = t.year) :
    Within (clockNormal t) (tmNormal t) := by
  obtain ⟨mon, year'⟩ := clockNormal_mon t
  have within := (tmNormal_end spread sec).within
  rw [monNormal_id (by omega), year', year] at within
  exact within rfl

theorem loopDay_eq (mon : 0 ≤ t.mon) (last : t.mon ≤ 11) : t.loopDay =
    t.mday + (monthStart (leapYear (t.year + 1900)) t.mon.toNat - (monthStart false t.mon.toNat - taken t.mon.toNat)) := by
  have start := monthStart_leap t.mon.toNat (by omega)
  rw [Tm.loopDay]
  cases leapYear (t.year + 1900) with
  | false => simp
  | true =>
    rw [start]
    simp only [true_and]
    split <;> split <;> omega

/-- A loop that took off the lengths of the months took none off: in April, the only month where the sums agree, it left
too many days. -/
theorem Within.unmoved (within : Within t u) (low : 0 ≤ t.mon) (valid : u.Valid)
    (day : monthStart (leapYear (t.year + 1900)) t.mon.toNat + t.mday =
      monthStart (leapYear (u.year + 1900)) u.mon.toNat + u.mday) : u = t := by
  obtain ⟨mon, loopDay, same | ⟨moved, left⟩⟩ := within
  · exact same
  · have high := valid.month
    rw [loopDay_eq low (by omega), loopDay_eq valid.mon (by omega)] at loopDay
    have agree := taken_same u.mon.toNat (by omega) t.mon.toNat (by omega) (by omega)
    have april : u.mon = 3 := by omega
    have march : monthDays false (3 - 1 : Int).toNat = 31 := rfl
    have days : ∀ leap, monthDays leap 3 = 30 := fun leap => rfl
    have last : u.mday ≤ monthDays (leapYear (u.year + 1900)) u.mon.toNat := valid.date.last
    rw [agree.2, days] at last
    rw [april, march, if_neg (by decide)] at left
    omega

theorem Normalises.valid {t : TmFull} (spread : t.Spread) (normal : Normalises t) : t.sec ≠ 60 ∧ (tmNormal t.toTm).Valid ∧
    (tmNormal t.toTm).date.number = toInt (t.instant / 86400) := by
  obtain ⟨value, same, wday, yday⟩ := normal
  have nonneg := instant_nonneg spread
  have left := timegmFull_same t
  rw [value] at same
  obtain ⟨range, clock⟩ := gmtime_clock nonneg
  obtain ⟨yearEq, monEq, mdayEq, hourEq, minEq, secEq⟩ := same
  obtain ⟨yearEq', monEq', mdayEq', hourEq', minEq', secEq'⟩ := left
  have other : t.sec ≠ 60 := fun sixty => by
    have kept := (tmNormal_sec t.toTm).trans (clockNormal_sixty sixty)
    have := range.sec
    omega
  have first := (tmNormal_end spread other).first
  have positive : 0 ≤ toInt (t.instant / 86400) := by
    by_contra negative
    have mday := (gmtime_negative nonneg (by omega)).2.2
    omega
  obtain ⟨mon, date, number, yday'⟩ := gmtime_dated nonneg positive
  have shown : (tmNormal t.toTm).SameTime (gmtime t.instant).toTm :=
    ⟨yearEq'.symm.trans yearEq, monEq'.symm.trans monEq, mdayEq'.symm.trans mdayEq, hourEq'.symm.trans hourEq,
      minEq'.symm.trans minEq, secEq'.symm.trans secEq⟩
  have clockSame : (tmNormal t.toTm).SameClock (gmtime t.instant).toTm :=
    ⟨shown.2.2.2.2.2, shown.2.2.2.2.1, shown.2.2.2.1⟩
  refine ⟨other, ⟨clockSame.inRange range, ?_, ?_⟩, ?_⟩
  · rw [shown.2.1]
    exact mon
  · rw [shown.date]
    exact date
  · rw [shown.date]
    exact number

theorem Normalises.year {t : TmFull} (spread : t.Spread) (normal : Normalises t) :
    (tmNormal t.toTm).year = t.year ∧ dayOf t.toTm = t.instant / 86400 ∧ 4 + t.instant / 86400 < 2 ^ 31 := by
  obtain ⟨other, valid, number⟩ := normal.valid spread
  obtain ⟨value, same, wday, yday⟩ := normal
  have nonneg := instant_nonneg spread
  have after := (tmNormal_year spread other).1
  have day := dayOf_valid valid spread.year
  obtain ⟨value', wday', yday'⟩ := timegmFull_valid spread.year valid after
  rw [value] at same wday
  have clock : 0 ≤ (tmNormal t.toTm).clock ∧ (tmNormal t.toTm).clock < 86400 := by
    obtain ⟨sec, min, hour⟩ := valid.range
    rw [Tm.clock]
    omega
  have whole : dayOf t.toTm = t.instant / 86400 := by omega
  have bound : toInt (t.instant / 86400) < (2 ^ 32 + 1) / 2 := Int.bmod_lt (by decide)
  have days : (tmNormal t.toTm).date.number =
      yearStart ((tmNormal t.toTm).year + 1900) - yearStart 1970 + (tmNormal t.toTm).date.yday := rfl
  have year : (tmNormal t.toTm).year = t.year := by
    by_contra other
    have more : yearStart (t.year + 1900) + yearDays (t.year + 1900) ≤ yearStart ((tmNormal t.toTm).year + 1900) :=
      yearStart_le (by omega)
    have positive := yearDays_pos (t.year + 1900)
    have fits := toInt_fits nonneg (by omega)
    omega
  rw [year] at days
  have near : t.instant / 86400 < 2 ^ 31 := by omega
  refine ⟨year, whole, (gmtime_wday nonneg near).mp ?_⟩
  rw [← wday, wday', whole, Date.wday, (gmtime_tells nonneg near).1.number]
  exact Int.tmod_eq_emod_of_nonneg (by omega)

theorem inMonth_of_normalises {t : TmFull} (spread : t.Spread) (normal : Normalises t) : t.InMonth := by
  obtain ⟨other, valid, number⟩ := normal.valid spread
  obtain ⟨year, whole, near⟩ := normal.year spread
  have month := (tmNormal_year spread other).2 year
  obtain ⟨mon, year'⟩ := clockNormal_mon t.toTm
  have mday := (clockNormal_clock spread other).2.1
  have within := tmNormal_within spread other month year
  have day := dayOf_valid valid spread.year
  rw [whole, instant_day spread month, Date.yday] at day
  have unmoved := within.unmoved (by rw [mon]; exact spread.mon) valid (by
    rw [year', mon, mday, year]
    simp only [Tm.date, year] at day
    omega)
  refine ⟨other, month, ?_, near⟩
  have last := valid.date.last
  rw [unmoved] at last
  simp only [Tm.date, mon, year', mday] at last
  exact last

end

theorem timegm_normalises {t : TmFull} (spread : t.Spread) : Normalises t ↔ t.InMonth :=
  ⟨inMonth_of_normalises spread, normalises_of_inMonth spread⟩

/-- 28 January 1970, 23:59:3661 -/
def lateJanuary : TmFull := { sec := 3661, min := 59, hour := 23, mday := 28, mon := 0, year := 70, wday := 0, yday := 0, isdst := 0 }

theorem timegm_normalises_january : Normalises lateJanuary ↔ lateJanuary.InMonth :=
  timegm_normalises ⟨by decide, by decide, by decide, by decide, by decide, by decide⟩

/-- 32 January 1970 -/
def januaryOver : TmFull := { lateJanuary with sec := 0, min := 0, hour := 0, mday := 32 }

theorem timegm_januaryOver : (timegmFull januaryOver).2.mon = 1 ∧ (timegmFull januaryOver).2.mday = 32 ∧
    ¬Normalises januaryOver := by
  refine ⟨by decide, by decide, fun normal => ?_⟩
  have value : (timegmFull januaryOver).1 = januaryOver.instant := normal.1
  exact absurd value (by decide)

end RtThread.Rtc
