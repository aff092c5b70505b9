import Mathlib.Algebra.Group.Nat.Defs
import Mathlib.Order.Monotone.Basic
import RtThread.Lib.DownCounter

/-! `rt_hw_us_delay` watches the SysTick counter until it has counted the ticks of the time asked for. -/

set_option autoImplicit false
namespace RtThread.Board
open RtThread.Lib

structure Config where
  systemCoreClock : UInt32
  rtTickPerSecond : UInt32
  -- `range 10 1000` of its entry in Kconfig
  range : 10 ≤ rtTickPerSecond ∧ rtTickPerSecond ≤ 1000

def sysTickLoadReloadMsk : UInt32 := 0xFFFFFF

/-- What `SysTick_Configuration` leaves in `SysTick->LOAD` -/
def Config.load (board : Config) : UInt32 := board.systemCoreClock / board.rtTickPerSecond &&& sysTickLoadReloadMsk

/-- What one round of the loop makes of `tcnt` when the reading has changed -/
def tally (reload tcnt told tnow : UInt32) : UInt32 :=
  if tnow < told then tcnt + (told - tnow) else tcnt + (reload - tnow + told)

/-- The loop, with `told` read from sample `i` of `SysTick->VAL`: the number of the sample it leaves with. -/
def delayLoop (reload ticks : UInt32) (val : Nat → UInt32) : Nat → Nat → UInt32 → UInt32 → Option Nat
  | 0, _, _, _ => none
  | fuel + 1, i, tcnt, told =>
    let tnow := val (i + 1)
    if tnow ≠ told then
      let tcnt := tally reload tcnt told tnow
      if tcnt ≥ ticks then some (i + 1) else delayLoop reload ticks val fuel (i + 1) tcnt tnow
    else delayLoop reload ticks val fuel (i + 1) tcnt told

def Config.ticks (board : Config) (us : UInt32) : UInt32 := us * board.load / (1000000 / board.rtTickPerSecond)

def rtHwUsDelay (board : Config) (us : UInt32) (val : Nat → UInt32) (fuel : Nat) : Option Nat :=
  delayLoop board.load (board.ticks us) val fuel 0 0 (val 0)

/-- Samples of the counter, sample `i` after so many cycles, less than a period after the one before -/
structure Sampled (load : Nat) (cycle : Nat → Nat) (val : Nat → UInt32) : Prop where
  order : ∀ i, cycle i ≤ cycle (i + 1)
  close : ∀ i, cycle (i + 1) < cycle i + (load + 1)
  shows : ∀ i, (val i).toNat = reading load (cycle i)

def WaitsLongEnough (board : Config) (us : UInt32) : Prop :=
  ∀ cycle val, Sampled board.load.toNat cycle val → ∀ fuel n, rtHwUsDelay board us val fuel = some n →
    us.toNat * board.systemCoreClock.toNat ≤ 1000000 * (cycle n - cycle 0)

def leastWait (load ticks : Nat) : Nat := max 1 (leastCycles load ticks)

variable {reload ticks tcnt told : UInt32} {cycle : Nat → Nat} {val : Nat → UInt32} {i n fuel : Nat}

/-- The loop waits on, with the cycles up to sample `i` counted. -/
structure Waiting (reload ticks : UInt32) (cycle : Nat → Nat) (i : Nat) (tcnt told : UInt32) : Prop where
  shown : told.toNat = reading reload.toNat (cycle i)
  sum : counted reload.toNat (cycle 0) + tcnt.toNat = counted reload.toNat (cycle i)
  still : cycle i = cycle 0 ∨ tcnt < ticks

theorem Waiting.unchanged_iff (sampled : Sampled reload.toNat cycle val) (waiting : Waiting reload ticks cycle i tcnt told) :
    val (i + 1) = told ↔ cycle (i + 1) = cycle i := by
  have order := sampled.order i
  have close := sampled.close i
  have near : cycle (i + 1) - cycle i ≤ reload.toNat := by omega
  have same := reading_eq_iff reload.toNat (cycle i) near
  rw [Nat.add_sub_cancel' order] at same
  rw [← UInt32.toNat_inj, sampled.shows, waiting.shown, same]
  omega

section loop
variable (low : reload.toNat < 2 ^ 24) (few : ticks.toNat ≤ 2 ^ 24) (sampled : Sampled reload.toNat cycle val)
include low few sampled

theorem Waiting.sum_next (waiting : Waiting reload ticks cycle i tcnt told) (moved : cycle (i + 1) ≠ cycle i) :
    counted reload.toNat (cycle 0) + (tally reload tcnt told (val (i + 1))).toNat =
      counted reload.toNat (cycle (i + 1)) := by
  have order := sampled.order i
  have close := sampled.close i
  have sum := waiting.sum
  have near : cycle (i + 1) - cycle i ≤ reload.toNat := by omega
  have step := counted_add_lapsed reload.toNat (cycle i) near (by omega)
  rw [Nat.add_sub_cancel' order, ← waiting.shown, ← sampled.shows] at step
  have start : counted reload.toNat (cycle i) = counted reload.toNat (cycle 0) ∨ tcnt.toNat < ticks.toNat :=
    waiting.still.imp (congrArg _) fun less => UInt32.lt_iff_toNat_lt.mp less
  have old : told.toNat ≤ reload.toNat := waiting.shown ▸ reading_le
  have new : (val (i + 1)).toNat ≤ reload.toNat := sampled.shows (i + 1) ▸ reading_le
  unfold lapsed at step
  unfold tally
  split
  case isTrue less =>
    rw [UInt32.lt_iff_toNat_lt] at less
    rw [if_pos less] at step
    rw [UInt32.toNat_add, UInt32.toNat_sub_of_le _ _ (UInt32.le_iff_toNat_le.mpr (Nat.le_of_lt less)), Nat.mod_eq_of_lt (by omega)]
    omega
  case isFalse less =>
    rw [UInt32.lt_iff_toNat_lt] at less
    rw [if_neg less] at step
    rw [UInt32.toNat_add, UInt32.toNat_add, UInt32.toNat_sub_of_le _ _ (UInt32.le_iff_toNat_le.mpr new),
      Nat.mod_eq_of_lt (a := reload.toNat - _ + _) (by omega), Nat.mod_eq_of_lt (by omega)]
    omega

theorem delayLoop_waits (waiting : Waiting reload ticks cycle i tcnt told)
    (left : delayLoop reload ticks val fuel i tcnt told = some n) :
    cycle 0 < cycle n ∧ ticks.toNat + counted reload.toNat (cycle 0) ≤ counted reload.toNat (cycle n) := by
  induction fuel generalizing i tcnt told with
  | zero => cases left
  | succ fuel ih =>
    unfold delayLoop at left
    dsimp only at left
    have since : cycle 0 ≤ cycle i := monotone_nat_of_le_succ sampled.order (Nat.zero_le i)
    have order := sampled.order i
    split at left
    case isTrue changed =>
      have moved := mt (waiting.unchanged_iff sampled).mpr changed
      have sum := waiting.sum_next low few sampled moved
      split at left
      case isTrue enough =>
        cases left
        exact ⟨by omega, by have := UInt32.le_iff_toNat_le.mp enough; omega⟩
      case isFalse short =>
        exact ih ⟨sampled.shows _, sum, .inr (UInt32.not_le.mp short)⟩ left
    case isFalse same =>
      have stood := (waiting.unchanged_iff sampled).mp (not_not.mp same)
      exact ih ⟨stood ▸ waiting.shown, stood ▸ waiting.sum, stood ▸ waiting.still⟩ left

theorem delayLoop_returns {k : Nat} (waiting : Waiting reload ticks cycle i tcnt told) (before : i < k)
    (fuelled : k ≤ i + fuel) (moved : cycle 0 < cycle k)
    (enough : ticks.toNat + counted reload.toNat (cycle 0) ≤ counted reload.toNat (cycle k)) :
    ∃ n ≤ k, delayLoop reload ticks val fuel i tcnt told = some n := by
  induction fuel generalizing i tcnt told with
  | zero => omega
  | succ fuel ih =>
    unfold delayLoop
    dsimp only
    split
    case isTrue changed =>
      have sum := waiting.sum_next low few sampled (mt (waiting.unchanged_iff sampled).mpr changed)
      split
      case isTrue => exact ⟨i + 1, before, rfl⟩
      case isFalse short =>
        refine ih ⟨sampled.shows _, sum, .inr (UInt32.not_le.mp short)⟩ ?_ (by omega)
        refine Nat.lt_of_le_of_ne before fun last => short (UInt32.le_iff_toNat_le.mpr ?_)
        subst last
        omega
    case isFalse same =>
      have stood := (waiting.unchanged_iff sampled).mp (not_not.mp same)
      refine ih ⟨stood ▸ waiting.shown, stood ▸ waiting.sum, stood ▸ waiting.still⟩ ?_ (by omega)
      refine Nat.lt_of_le_of_ne before fun last => ?_
      rw [last] at stood
      have sum := waiting.sum
      obtain first | short := waiting.still
      · omega
      · have less := UInt32.lt_iff_toNat_lt.mp short
        rw [← stood] at sum
        omega

end loop

theorem Config.load_lt (board : Config) : board.load.toNat < 2 ^ 24 := by
  unfold Config.load
  rw [UInt32.toNat_and]
  exact Nat.and_lt_two_pow _ (by decide)

theorem Config.load_le (board : Config) :
    board.load.toNat * board.rtTickPerSecond.toNat ≤ board.systemCoreClock.toNat := by
  unfold Config.load
  rw [UInt32.toNat_and, UInt32.toNat_div]
  exact Nat.le_trans (Nat.mul_le_mul_right _ Nat.and_le_left) (Nat.div_mul_le_self ..)

def Config.divisor (board : Config) : Nat := 1000000 / board.rtTickPerSecond.toNat

theorem Config.divisor_bounds (board : Config) :
    1000 ≤ board.divisor ∧ board.divisor ≤ 100000 ∧
      1000000 ≤ board.divisor * board.rtTickPerSecond.toNat + (board.rtTickPerSecond.toNat - 1) := by
  obtain ⟨least, most⟩ := board.range
  rw [UInt32.le_iff_toNat_le] at least most
  have low : 10 ≤ board.rtTickPerSecond.toNat := least
  have high : board.rtTickPerSecond.toNat ≤ 1000 := most
  unfold Config.divisor
  have whole := Nat.div_add_mod 1000000 board.rtTickPerSecond.toNat
  have rest : 1000000 % board.rtTickPerSecond.toNat < board.rtTickPerSecond.toNat := Nat.mod_lt _ (by omega)
  rw [Nat.mul_comm (1000000 / _)]
  refine ⟨?_, ?_, by omega⟩
  · rw [Nat.le_div_iff_mul_le (by omega)]
    omega
  · exact Nat.div_le_of_le_mul (by omega)

theorem Config.ticks_eq (board : Config) (us : UInt32) :
    (board.ticks us).toNat = us.toNat * board.load.toNat % 2 ^ 32 / board.divisor := by
  unfold Config.ticks Config.divisor
  rw [UInt32.toNat_div, UInt32.toNat_div, UInt32.toNat_mul]
  rfl

theorem Config.ticks_le (board : Config) (us : UInt32) : (board.ticks us).toNat ≤ 2 ^ 24 := by
  rw [board.ticks_eq]
  have product : us.toNat * board.load.toNat % 2 ^ 32 < 2 ^ 32 := Nat.mod_lt _ (by decide)
  have bounds := board.divisor_bounds.1
  have less := Nat.div_le_div_left (a := us.toNat * board.load.toNat % 2 ^ 32) bounds (by decide)
  omega

variable {board : Config} {us : UInt32}

theorem Sampled.waiting (sampled : Sampled reload.toNat cycle val) : Waiting reload ticks cycle 0 0 (val 0) where
  shown := sampled.shows 0
  sum := Nat.add_zero _
  still := .inl rfl

theorem leastWait_le (sampled : Sampled board.load.toNat cycle val) (left : rtHwUsDelay board us val fuel = some n) :
    leastWait board.load.toNat (board.ticks us).toNat ≤ cycle n - cycle 0 := by
  obtain ⟨moved, enough⟩ := delayLoop_waits board.load_lt (board.ticks_le us) sampled sampled.waiting left
  have fresh := counted_add_le board.load.toNat (cycle 0) (cycle n - cycle 0)
  rw [Nat.add_sub_cancel' (Nat.le_of_lt moved)] at fresh
  refine Nat.max_le.mpr ⟨by omega, ?_⟩
  obtain none | some := Nat.eq_zero_or_pos (board.ticks us).toNat
  · rw [none, leastCycles, Nat.zero_sub, Nat.zero_div]
    omega
  · have turns : 0 < board.load.toNat := by
      refine Nat.pos_of_ne_zero fun stopped => ?_
      rw [stopped] at enough
      simp only [counted, Nat.zero_add, Nat.div_one, Nat.sub_self] at enough
      omega
    exact (le_counted_iff turns some).mp (by omega)

def everyCycle (load : Nat) (i : Nat) : UInt32 := UInt32.ofNat (reading load i)

theorem sampled_everyCycle {load : Nat} (turns : 0 < load) (low : load < 2 ^ 24) :
    Sampled load (fun i => i) (everyCycle load) where
  order i := Nat.le_succ i
  close i := by omega
  shows i := by
    have least : reading load i ≤ load := reading_le
    unfold everyCycle
    rw [UInt32.toNat_ofNat', Nat.mod_eq_of_lt (by omega)]

theorem rtHwUsDelay_returns (us : UInt32) (turns : 0 < board.load.toNat) :
    ∃ n ≤ leastWait board.load.toNat (board.ticks us).toNat,
      rtHwUsDelay board us (everyCycle board.load.toNat) (leastWait board.load.toNat (board.ticks us).toNat) = some n := by
  have sampled := sampled_everyCycle turns board.load_lt
  have moved : 0 < leastWait board.load.toNat (board.ticks us).toNat := Nat.le_max_left ..
  refine delayLoop_returns board.load_lt (board.ticks_le us) sampled sampled.waiting moved (by omega) moved ?_
  have first : counted board.load.toNat 0 = 0 := Nat.zero_sub _
  rw [first, Nat.add_zero]
  obtain none | some := Nat.eq_zero_or_pos (board.ticks us).toNat
  · omega
  · exact (le_counted_iff turns some).mpr (Nat.le_max_right ..)

theorem waitsLongEnough_iff : WaitsLongEnough board us ↔ board.load = 0 ∨
    us.toNat * board.systemCoreClock.toNat ≤ 1000000 * leastWait board.load.toNat (board.ticks us).toNat := by
  constructor
  · intro long
    refine or_iff_not_imp_left.mpr fun set => ?_
    have turns : 0 < board.load.toNat := Nat.pos_of_ne_zero fun zero => set (UInt32.toNat_inj.mp zero)
    obtain ⟨n, soon, left⟩ := rtHwUsDelay_returns us turns
    have wait := long _ _ (sampled_everyCycle turns board.load_lt) _ n left
    omega
  · rintro (stopped | enough) cycle val sampled fuel n left
    · obtain ⟨moved, -⟩ := delayLoop_waits board.load_lt (board.ticks_le us) sampled sampled.waiting left
      have stays : ∀ i, cycle i ≤ cycle 0 := by
        intro i
        induction i with
        | zero => exact Nat.le_refl _
        | succ i ih =>
          have close := sampled.close i
          rw [stopped] at close
          exact Nat.le_trans (Nat.le_of_lt_succ close) ih
      exact absurd (stays n) (Nat.not_le.mpr moved)
    · exact Nat.le_trans enough (Nat.mul_le_mul_left _ (leastWait_le sampled left))

theorem leastWait_wrapped {load divisor product : Nat} (low : 2 ≤ load) (bounds : 1000 ≤ divisor ∧ divisor ≤ 100000)
    (wraps : 2 ^ 32 ≤ product) :
    (divisor + 1) * leastWait load (product % 2 ^ 32 / divisor) < product := by
  have rest : product % 2 ^ 32 < 2 ^ 32 := Nat.mod_lt _ (by decide)
  have less : product % 2 ^ 32 + 2 ^ 32 ≤ product := by omega
  generalize product % 2 ^ 32 = w at rest less
  have floor : divisor * (w / divisor) ≤ w := Nat.mul_div_le ..
  have few : 1000 * (w / divisor) ≤ divisor * (w / divisor) := Nat.mul_le_mul_right _ bounds.1
  generalize w / divisor = t at floor few
  have passes : (t - 1) / load ≤ (t - 1) / 2 := Nat.div_le_div_left low (by decide)
  have wait : 2 * leastWait load t ≤ 2 + 3 * t := by
    unfold leastWait leastCycles
    omega
  have scaled : (divisor + 1) * (2 * leastWait load t) ≤ (divisor + 1) * (2 + 3 * t) := Nat.mul_le_mul_left _ wait
  have expand : (divisor + 1) * (2 + 3 * t) = 2 * divisor + 3 * (divisor * t) + 2 + 3 * t := by
    rw [Nat.add_mul, Nat.mul_add, Nat.one_mul, Nat.mul_left_comm]
    omega
  rw [Nat.mul_left_comm, expand] at scaled
  omega

theorem not_waitsLongEnough (set : board.load ≠ 0) (wraps : 2 ^ 32 ≤ us.toNat * board.load.toNat) :
    ¬WaitsLongEnough board us := by
  rw [waitsLongEnough_iff, or_iff_right set, board.ticks_eq]
  have turns : board.load.toNat ≠ 0 := fun zero => set (UInt32.toNat_inj.mp zero)
  have word := us.toNat_lt
  obtain ⟨least, most, per⟩ := board.divisor_bounds
  have two : 2 ≤ board.load.toNat := by
    refine Nat.succ_le_of_lt (Nat.lt_of_le_of_ne (Nat.pos_of_ne_zero turns) fun one => ?_)
    rw [← one] at wraps
    omega
  have short := leastWait_wrapped two ⟨least, most⟩ wraps
  generalize leastWait board.load.toNat (us.toNat * board.load.toNat % 2 ^ 32 / board.divisor) = wait at short
  -- a million is less than the next multiple of the tick rate
  have million : 1000000 * wait ≤ board.rtTickPerSecond.toNat * ((board.divisor + 1) * wait) := by
    rw [← Nat.mul_assoc]
    refine Nat.mul_le_mul_right _ ?_
    rw [Nat.mul_comm board.rtTickPerSecond.toNat, Nat.add_mul, Nat.one_mul]
    omega
  have rate : 0 < board.rtTickPerSecond.toNat := by
    have low := UInt32.le_iff_toNat_le.mp board.range.1
    exact Nat.lt_of_lt_of_le (by decide) low
  have faster : board.rtTickPerSecond.toNat * ((board.divisor + 1) * wait) <
      board.rtTickPerSecond.toNat * (us.toNat * board.load.toNat) := Nat.mul_lt_mul_of_pos_left short rate
  have clock := Nat.mul_le_mul_left us.toNat board.load_le
  rw [← Nat.mul_assoc, Nat.mul_comm _ board.rtTickPerSecond.toNat] at clock
  omega

/-- The clock has a whole number of cycles in a microsecond, and a tick a whole number of microseconds. -/
structure Config.Whole (board : Config) : Prop where
  clock : 1000000 ∣ board.systemCoreClock.toNat
  rate : board.rtTickPerSecond.toNat ∣ 1000000
  fits : board.systemCoreClock.toNat / board.rtTickPerSecond.toNat < 2 ^ 24
  runs : 0 < board.systemCoreClock.toNat

theorem Config.Whole.load_eq (whole : board.Whole) :
    1000000 * board.load.toNat = board.systemCoreClock.toNat * board.divisor := by
  obtain ⟨cycles, clock⟩ := whole.clock
  obtain ⟨divisor, rate⟩ := whole.rate
  have fits := whole.fits
  have per : 0 < board.rtTickPerSecond.toNat := by
    refine Nat.pos_of_ne_zero fun zero => ?_
    rw [zero, Nat.zero_mul] at rate
    cases rate
  have load : board.load.toNat = board.systemCoreClock.toNat / board.rtTickPerSecond.toNat := by
    unfold Config.load
    rw [UInt32.toNat_and, UInt32.toNat_div]
    exact (Nat.and_two_pow_sub_one_eq_mod _ 24).trans (Nat.mod_eq_of_lt fits)
  have exactly : board.divisor = divisor := by
    unfold Config.divisor
    rw [rate, Nat.mul_div_cancel_left _ per]
  have quotient : board.systemCoreClock.toNat / board.rtTickPerSecond.toNat = divisor * cycles := by
    rw [clock, rate, Nat.mul_assoc, Nat.mul_div_cancel_left _ per]
  rw [load, quotient, exactly, clock, Nat.mul_assoc, Nat.mul_comm divisor]

theorem waitsLongEnough_whole (whole : board.Whole) :
    WaitsLongEnough board us ↔ us.toNat * board.load.toNat < 2 ^ 32 := by
  have exactly := whole.load_eq
  have bounds := board.divisor_bounds.1
  have set : board.load ≠ 0 := by
    intro zero
    rw [zero, UInt32.toNat_zero, Nat.mul_zero] at exactly
    have runs := Nat.mul_pos whole.runs (Nat.lt_of_lt_of_le (by decide) bounds)
    omega
  constructor
  · exact fun long => Nat.lt_of_not_le fun wraps => not_waitsLongEnough set wraps long
  · intro fits
    obtain ⟨cycles, clock⟩ := whole.clock
    rw [waitsLongEnough_iff, board.ticks_eq, Nat.mod_eq_of_lt fits]
    have load : board.load.toNat = cycles * board.divisor := by
      rw [clock, Nat.mul_assoc] at exactly
      exact Nat.eq_of_mul_eq_mul_left (by decide) exactly
    have ticks : us.toNat * board.load.toNat / board.divisor = us.toNat * cycles := by
      rw [load, ← Nat.mul_assoc]
      exact Nat.mul_div_cancel _ (Nat.lt_of_lt_of_le (by decide) bounds)
    refine .inr ?_
    rw [ticks, clock, Nat.mul_left_comm]
    refine Nat.mul_le_mul_left _ ?_
    exact Nat.le_trans (Nat.le_add_right _ _) (Nat.le_max_right _ _)

/-- The function waits long enough just if the product fits in 32 bits and rounding leaves enough of the quotient; the
rounding matters only where the clock or the tick rate is uneven. -/
theorem us_delay_waits (board : Config) (us : UInt32) :
    (WaitsLongEnough board us ↔ board.load = 0 ∨ us.toNat * board.load.toNat < 2 ^ 32 ∧
      us.toNat * board.systemCoreClock.toNat ≤
        1000000 * leastWait board.load.toNat (us.toNat * board.load.toNat / board.divisor)) ∧
    (board.Whole → (WaitsLongEnough board us ↔ us.toNat * board.load.toNat < 2 ^ 32)) := by
  refine ⟨?_, waitsLongEnough_whole⟩
  by_cases set : board.load = 0
  · exact iff_of_true (waitsLongEnough_iff.mpr (.inl set)) (.inl set)
  by_cases fits : us.toNat * board.load.toNat < 2 ^ 32
  · rw [waitsLongEnough_iff, or_iff_right set, or_iff_right set, board.ticks_eq, Nat.mod_eq_of_lt fits, and_iff_right fits]
  · refine iff_of_false (not_waitsLongEnough set (Nat.le_of_not_lt fits)) ?_
    rintro (zero | ⟨less, -⟩)
    · exact set zero
    · exact fits less

/-- The board of the repository: 64 MHz and 100 ticks a second -/
def nrf52 : Config where
  systemCoreClock := 64000000
  rtTickPerSecond := 100
  range := by decide

theorem nrf52_whole : nrf52.Whole where
  clock := by decide
  rate := by decide
  fits := by decide
  runs := by decide

theorem us_delay_waits_nrf52 : WaitsLongEnough nrf52 6710 :=
  ((us_delay_waits nrf52 6710).2 nrf52_whole).mpr (by decide)

theorem us_delay_short : Sampled nrf52.load.toNat (fun i => i) (everyCycle 640000) ∧
    rtHwUsDelay nrf52 6711 (everyCycle 640000) 7 = some 7 ∧ ¬WaitsLongEnough nrf52 6711 := by
  refine ⟨sampled_everyCycle (by decide) (by decide), by decide +kernel, fun long => ?_⟩
  have fits := (waitsLongEnough_whole nrf52_whole).mp long
  revert fits
  decide

end RtThread.Board
