import Mathlib.Algebra.Group.Nat.Defs
import RtThread.Lib.Drift
import RtThread.Lib.Transition

/-! The on-chip RTC: a second is so many TICK events, an event so many cycles of the 32768 Hz clock. -/

set_option autoImplicit false
namespace RtThread.Rtc
open RtThread.Lib

structure RtcConfig where
  /-- `TICK_FREQUENCE_HZ`, which is `RT_TICK_PER_SECOND` -/
  tickFrequenceHz : UInt32
  -- `range 10 1000` of its entry in Kconfig
  range : 10 ≤ tickFrequenceHz ∧ tickFrequenceHz ≤ 1000
  /-- `NRFX_ROUNDED_DIV`, a macro of the nrfx package: the nearest integer to the quotient -/
  nrfxRoundedDiv : UInt32 → UInt32 → UInt32
  nearest : ∀ a b : UInt32, 0 < b → a.toNat + b.toNat < 2 ^ 32 →
    2 * (b.toNat * (nrfxRoundedDiv a b).toNat) ≤ 2 * a.toNat + b.toNat ∧
      2 * a.toNat ≤ 2 * (b.toNat * (nrfxRoundedDiv a b).toNat) + b.toNat

def systickClockHz : UInt32 := 32768

def RtcConfig.rtcPrescaler (cfg : RtcConfig) : UInt32 := cfg.nrfxRoundedDiv systickClockHz cfg.tickFrequenceHz - 1

def RtcConfig.period (cfg : RtcConfig) : Nat := cfg.rtcPrescaler.toNat + 1

structure OnChipRtc where
  initTime : Int
  tick : UInt32
  count : UInt32

inductive IntType where
  | tick
  | other

def rtcCallback (cfg : RtcConfig) (rtc : OnChipRtc) : IntType → OnChipRtc
  | .tick =>
    let count := rtc.count + 1
    { rtc with
      count := count
      tick := if count % cfg.tickFrequenceHz = 0 then rtc.tick + 1 else rtc.tick }
  | .other => rtc

inductive Command where
  | getTime
  | setTime (time : Int)
  | other

/-- `rt_rtc_control`, with what it writes through `args` -/
def rtRtcControl (rtc : OnChipRtc) : Command → OnChipRtc × Option Int
  | .getTime => (rtc, some (rtc.initTime + rtc.tick.toNat))
  | .setTime time => ({ rtc with initTime := time - rtc.tick.toNat }, none)
  | .other => (rtc, none)

/-- The device, the cycles of its clock so far, and the time last set with the cycle it was set at -/
structure Watch where
  rtc : OnChipRtc
  clock : Nat
  set : Int
  since : Nat

/-- `rt_hw_rtc_register` with the time it starts from -/
def Watch.started (initTime : Int) : Watch := ⟨⟨initTime, 0, 0⟩, 0, initTime, 0⟩

inductive Event where
  | cycle
  | control (command : Command)

def Watch.after (cfg : RtcConfig) (w : Watch) : Event → Watch
  | .cycle =>
    { w with
      clock := w.clock + 1
      rtc := if cfg.period ∣ w.clock + 1 then rtcCallback cfg w.rtc .tick else w.rtc }
  | .control (.setTime time) => { w with rtc := (rtRtcControl w.rtc (.setTime time)).1, set := time, since := w.clock }
  | .control command => { w with rtc := (rtRtcControl w.rtc command).1 }

def Watch.Step (cfg : RtcConfig) (w : Watch) (event : Event) (w' : Watch) : Prop := w.after cfg event = w'

/-- What GET_TIME returns is the time last set and the whole seconds since, within one second. -/
def OnTime (w : Watch) : Prop :=
  ∃ time, (rtRtcControl w.rtc .getTime).2 = some time ∧
    time ≤ w.set + ((w.clock - w.since) / 32768 : Nat) + 1 ∧ w.set + ((w.clock - w.since) / 32768 : Nat) ≤ time + 1

/-- Every GET_TIME is on time in every run of at most `n` cycles. -/
def KeepsTime (cfg : RtcConfig) (n : Nat) : Prop :=
  ∀ initTime events w, Run (Watch.Step cfg) (.started initTime) events w → w.clock ≤ n → OnTime w

def RtcConfig.second (cfg : RtcConfig) : Nat := cfg.period * cfg.tickFrequenceHz.toNat

/-- The first cycle by which GET_TIME may be more than a second off -/
def RtcConfig.keepsFor (cfg : RtcConfig) : Nat := if cfg.second = 32768 then 2 ^ 47 else apart cfg.second 32768

variable {cfg : RtcConfig} {w w' : Watch} {n : Nat}

theorem RtcConfig.rate_bounds (cfg : RtcConfig) : 10 ≤ cfg.tickFrequenceHz.toNat ∧ cfg.tickFrequenceHz.toNat ≤ 1000 :=
  cfg.range

theorem RtcConfig.second_bounds (cfg : RtcConfig) : 0 < cfg.second ∧ cfg.second ≤ 33268 := by
  obtain ⟨least, most⟩ := cfg.rate_bounds
  have clock : systickClockHz.toNat = 32768 := rfl
  have positive : 0 < cfg.tickFrequenceHz := UInt32.lt_iff_toNat_lt.mpr (Nat.lt_of_lt_of_le (by decide) least)
  obtain ⟨below, above⟩ := cfg.nearest systickClockHz cfg.tickFrequenceHz positive (by omega)
  have one : 1 ≤ (cfg.nrfxRoundedDiv systickClockHz cfg.tickFrequenceHz).toNat := by
    refine Nat.pos_of_ne_zero fun zero => ?_
    rw [zero, Nat.mul_zero] at above
    omega
  have period : cfg.period = (cfg.nrfxRoundedDiv systickClockHz cfg.tickFrequenceHz).toNat := by
    unfold RtcConfig.period RtcConfig.rtcPrescaler
    have least : 1 ≤ cfg.nrfxRoundedDiv systickClockHz cfg.tickFrequenceHz := UInt32.le_iff_toNat_le.mpr one
    rw [UInt32.toNat_sub_of_le _ _ least]
    exact Nat.sub_add_cancel one
  unfold RtcConfig.second
  rw [period, Nat.mul_comm]
  exact ⟨Nat.mul_pos (by omega) one, by omega⟩

def RtcConfig.Steady (cfg : RtcConfig) (clock : Nat) : Prop :=
  clock / cfg.period < 2 ^ 32 ∨ cfg.tickFrequenceHz.toNat ∣ 2 ^ 32

theorem RtcConfig.Steady.mono {clock later : Nat} (steady : cfg.Steady later) (le : clock ≤ later) : cfg.Steady clock :=
  steady.imp_left (Nat.lt_of_le_of_lt (Nat.div_le_div_right le))

structure Told (cfg : RtcConfig) (w : Watch) : Prop where
  count : w.rtc.count.toNat = w.clock / cfg.period % 2 ^ 32
  tick : w.rtc.tick.toNat = w.clock / cfg.second % 2 ^ 32
  init : w.rtc.initTime = w.set - (w.since / cfg.second % 2 ^ 32 : Nat)
  order : w.since ≤ w.clock

theorem told_started (initTime : Int) : Told cfg (.started initTime) where
  count := by rw [Watch.started, Nat.zero_div]; rfl
  tick := by rw [Watch.started, Nat.zero_div]; rfl
  init := by
    dsimp only [Watch.started]
    rw [Nat.zero_div]
    exact (Int.sub_zero _).symm
  order := Nat.le_refl _

theorem Told.cycle (told : Told cfg w) (steady : cfg.Steady (w.clock + 1)) : Told cfg (w.after cfg .cycle) := by
  have seconds : ∀ clock, clock / cfg.second = clock / cfg.period / cfg.tickFrequenceHz.toNat :=
    fun clock => (Nat.div_div_eq_div_mul ..).symm
  have counted := told.count
  have passed := told.tick
  rw [seconds] at passed
  by_cases event : cfg.period ∣ w.clock + 1
  · have next : (w.clock + 1) / cfg.period = w.clock / cfg.period + 1 := by rw [Nat.succ_div, if_pos event]
    have count : (w.rtc.count + 1).toNat = (w.clock / cfg.period + 1) % 2 ^ 32 := by
      rw [UInt32.toNat_add, counted, UInt32.toNat_one, Nat.mod_add_mod]
    have whole : (w.rtc.count + 1) % cfg.tickFrequenceHz = 0 ↔ cfg.tickFrequenceHz.toNat ∣ w.clock / cfg.period + 1 := by
      rw [← UInt32.toNat_inj, UInt32.toNat_mod, count, UInt32.toNat_zero, Nat.dvd_iff_mod_eq_zero]
      obtain small | divides := steady
      · rw [next] at small
        rw [Nat.mod_eq_of_lt small]
      · rw [Nat.mod_mod_of_dvd _ divides]
    simp only [Watch.after, if_pos event, rtcCallback]
    refine ⟨by rw [count, next], ?_, told.init, Nat.le_succ_of_le told.order⟩
    rw [seconds, next, Nat.succ_div]
    by_cases turn : (w.rtc.count + 1) % cfg.tickFrequenceHz = 0
    · rw [if_pos turn, if_pos (whole.mp turn), UInt32.toNat_add, passed, UInt32.toNat_one, Nat.mod_add_mod]
    · rw [if_neg turn, if_neg (mt whole.mpr turn), passed, Nat.add_zero]
  · have next : (w.clock + 1) / cfg.period = w.clock / cfg.period := by
      rw [Nat.succ_div, if_neg event]
      rfl
    simp only [Watch.after, if_neg event]
    exact ⟨by rw [counted, next], by rw [seconds, next, passed], told.init, Nat.le_succ_of_le told.order⟩

theorem Told.control (told : Told cfg w) (command : Command) : Told cfg (w.after cfg (.control command)) := by
  cases command with
  | getTime | other => exact ⟨told.count, told.tick, told.init, told.order⟩
  | setTime time =>
    refine ⟨told.count, told.tick, ?_, Nat.le_refl _⟩
    dsimp only [Watch.after, rtRtcControl]
    rw [told.tick]

theorem told_run {initTime : Int} {events : List Event} (run : Run (Watch.Step cfg) (.started initTime) events w)
    (steady : cfg.Steady w.clock) : Told cfg w := by
  refine run.invariant (fun w => cfg.Steady w.clock → Told cfg w) ?_ (fun _ => told_started initTime) steady
  rintro w event _ ih rfl steady
  cases event with
  | cycle => exact (ih (steady.mono (Nat.le_succ _))).cycle steady
  | control command =>
    refine (ih ?_).control command
    cases command <;> exact steady

theorem Told.onTime_iff (told : Told cfg w) (small : w.clock / cfg.second < 2 ^ 32) :
    OnTime w ↔ Agree cfg.second 32768 w.since (w.clock - w.since) := by
  have before : w.since / cfg.second ≤ w.clock / cfg.second := Nat.div_le_div_right told.order
  have tick := told.tick
  have init := told.init
  rw [Nat.mod_eq_of_lt small] at tick
  rw [Nat.mod_eq_of_lt (Nat.lt_of_le_of_lt before small)] at init
  unfold OnTime Agree passages
  rw [Nat.add_sub_cancel' told.order]
  generalize (w.clock - w.since) / 32768 = whole
  dsimp only [rtRtcControl]
  rw [tick, init]
  generalize w.clock / cfg.second = now at before
  generalize w.since / cfg.second = then' at before
  constructor
  · rintro ⟨time, returned, late, early⟩
    cases returned
    constructor <;> omega
  · rintro ⟨late, early⟩
    exact ⟨_, rfl, by omega, by omega⟩

theorem RtcConfig.apart_lt (cfg : RtcConfig) : apart cfg.second 32768 < 2 ^ 32 := by
  obtain ⟨positive, most⟩ := cfg.second_bounds
  unfold apart
  split
  case isTrue slow =>
    have few : cfg.second / (cfg.second - 32768) ≤ cfg.second := Nat.div_le_self ..
    omega
  case isFalse fast =>
    split <;> omega

theorem RtcConfig.rate_dvd (cfg : RtcConfig) (even : cfg.second = 32768) : cfg.tickFrequenceHz.toNat ∣ 2 ^ 32 := by
  have divides : cfg.tickFrequenceHz.toNat ∣ 2 ^ 15 := ⟨cfg.period, by rw [Nat.mul_comm]; exact even.symm⟩
  exact Nat.dvd_trans divides (Nat.pow_dvd_pow 2 (by decide))

theorem onTime_of_lt {initTime : Int} {events : List Event} (run : Run (Watch.Step cfg) (.started initTime) events w)
    (soon : w.clock < cfg.keepsFor) : OnTime w := by
  obtain ⟨positive, -⟩ := cfg.second_bounds
  unfold RtcConfig.keepsFor at soon
  split at soon
  case isTrue even =>
    have told := told_run run (.inr (cfg.rate_dvd even))
    refine (told.onTime_iff ?_).mpr ?_
    · rw [even, Nat.div_lt_iff_lt_mul (by decide)]
      omega
    · rw [even]
      exact agree_same (by decide)
  case isFalse uneven =>
    have limit := cfg.apart_lt
    have small : ∀ a, w.clock / a < 2 ^ 32 := fun a => Nat.lt_of_le_of_lt (Nat.div_le_self ..) (Nat.lt_trans soon limit)
    have told := told_run run (.inl (small _))
    refine (told.onTime_iff (small _)).mpr (agree_of_lt positive uneven ?_)
    rw [Nat.add_sub_cancel' told.order]
    exact soon

theorem run_cycles (cfg : RtcConfig) (w : Watch) (cycles : Nat) :
    ∃ w', Run (Watch.Step cfg) w (List.replicate cycles .cycle) w' ∧ w'.clock = w.clock + cycles ∧ w'.since = w.since ∧
      w'.set = w.set := by
  induction cycles with
  | zero => exact ⟨w, .nil w, rfl, rfl, rfl⟩
  | succ cycles ih =>
    obtain ⟨w', run, clock, since, set⟩ := ih
    refine ⟨w'.after cfg .cycle, ?_, ?_, since, set⟩
    · rw [List.replicate_succ']
      exact .snoc run rfl
    · exact congrArg (· + 1) clock

theorem run_set (cfg : RtcConfig) (s m : Nat) :
    ∃ events w, Run (Watch.Step cfg) (.started 0) events w ∧ w.clock = s + m ∧ w.since = s ∧ w.set = 0 := by
  obtain ⟨w₁, first, clock₁, -⟩ := run_cycles cfg (.started 0) s
  obtain ⟨w₂, second, clock₂, since₂, set₂⟩ := run_cycles cfg (w₁.after cfg (.control (.setTime 0))) m
  have start : (Watch.started 0).clock = 0 := rfl
  rw [start, Nat.zero_add] at clock₁
  refine ⟨_, w₂, (first.snoc rfl).trans second, ?_, since₂.trans clock₁, set₂⟩
  rw [clock₂, ← clock₁]
  rfl

theorem exists_not_onTime (cfg : RtcConfig) :
    ∃ events w, Run (Watch.Step cfg) (.started 0) events w ∧ w.clock = cfg.keepsFor ∧ ¬OnTime w := by
  obtain ⟨positive, -⟩ := cfg.second_bounds
  unfold RtcConfig.keepsFor
  split
  case isTrue even =>
    -- the count of the seconds wraps to zero
    obtain ⟨events, w, run, clock, since, set⟩ := run_set cfg 0 (2 ^ 47)
    rw [Nat.zero_add] at clock
    refine ⟨events, w, run, clock, ?_⟩
    have told := told_run run (.inr (cfg.rate_dvd even))
    rintro ⟨time, returned, -, early⟩
    have tick := told.tick
    have init := told.init
    rw [clock, even] at tick
    rw [since, set, Nat.zero_div] at init
    rw [clock, since, set] at early
    simp only [rtRtcControl, tick, init, Option.some.injEq] at returned
    omega
  case isFalse uneven =>
    obtain ⟨s, m, sum, disagree⟩ := exists_not_agree positive (by decide) uneven
    obtain ⟨events, w, run, clock, since, -⟩ := run_set cfg s m
    refine ⟨events, w, run, clock.trans sum, fun onTime => disagree ?_⟩
    have limit := cfg.apart_lt
    have small : ∀ a, w.clock / a < 2 ^ 32 := by
      intro a
      rw [clock, sum]
      exact Nat.lt_of_le_of_lt (Nat.div_le_self ..) limit
    have agree := ((told_run run (.inl (small _))).onTime_iff (small _)).mp onTime
    rw [clock, since, Nat.add_sub_cancel_left] at agree
    exact agree

theorem keepsTime_iff : KeepsTime cfg n ↔ n < cfg.keepsFor := by
  constructor
  · refine fun keeps => Nat.lt_of_not_le fun reached => ?_
    obtain ⟨events, w, run, clock, late⟩ := exists_not_onTime cfg
    exact late (keeps 0 events w run (clock ▸ reached))
  · exact fun soon initTime events w run within => onTime_of_lt run (Nat.lt_of_le_of_lt within soon)

/-- The RTC keeps time over `n` cycles just if these are fewer than its second takes to drift two seconds from 32768
cycles, or than `tick` takes to wrap if its second has just as many. -/
theorem rtc_keeps_time (cfg : RtcConfig) (n : Nat) :
    KeepsTime cfg n ↔
      if cfg.second = 32768 then n < 2 ^ 47
      else if 32768 < cfg.second then n < 32768 * (cfg.second / (cfg.second - 32768) + 1)
      else n < cfg.second * if cfg.second + 1 = 32768 then 3 else 2 := by
  rw [keepsTime_iff, RtcConfig.keepsFor, apart]
  split
  · rfl
  · split <;> rfl

def addHalfDiv (a b : UInt32) : UInt32 := (a + b / 2) / b

theorem addHalfDiv_nearest (a b : UInt32) (positive : 0 < b) (small : a.toNat + b.toNat < 2 ^ 32) :
    2 * (b.toNat * (addHalfDiv a b).toNat) ≤ 2 * a.toNat + b.toNat ∧
      2 * a.toNat ≤ 2 * (b.toNat * (addHalfDiv a b).toNat) + b.toNat := by
  have whole := Nat.div_add_mod (a.toNat + b.toNat / 2) b.toNat
  have rest : (a.toNat + b.toNat / 2) % b.toNat < b.toNat := Nat.mod_lt _ (UInt32.lt_iff_toNat_lt.mp positive)
  have half : (b / 2).toNat = b.toNat / 2 := UInt32.toNat_div ..
  have sum : (a + b / 2).toNat = a.toNat + b.toNat / 2 := by
    rw [UInt32.toNat_add, half, Nat.mod_eq_of_lt (by omega)]
  unfold addHalfDiv
  rw [UInt32.toNat_div, sum]
  omega

theorem hundred_in_range : (10 : UInt32) ≤ 100 ∧ (100 : UInt32) ≤ 1000 := by decide

def nrf52Rtc : RtcConfig where
  tickFrequenceHz := 100
  range := hundred_in_range
  nrfxRoundedDiv := addHalfDiv
  nearest := addHalfDiv_nearest

/-- 100 events of 328 cycles are no second: after 1026 seconds the board's RTC is two seconds slow. -/
theorem rtc_drifts : ¬KeepsTime nrf52Rtc (1026 * 32768) := by
  rw [keepsTime_iff]
  decide +kernel

end RtThread.Rtc
