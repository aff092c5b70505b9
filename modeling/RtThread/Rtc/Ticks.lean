import RtThread.Rtc.Calendar

/-! `rt_timespec_to_tick`: the ticks up to a deadline, with the widths of its integers. -/

set_option autoImplicit false
namespace RtThread.Rtc

structure Timespec where
  sec : Int
  nsec : Int
  deriving DecidableEq

def toULong (value : Int) : Int := value % 2 ^ 32

def nanosecondPerSecond : Int := 1000000000

/-- `rt_timespec_to_tick` at the time `tp` with `rate` ticks in a second. The number of nanoseconds is an unsigned long,
the rate is an int. -/
def timespecToTick (rate : Int) (time tp : Timespec) : Int :=
  let (nsecond, second) :=
    if time.nsec - tp.nsec < 0 then
      (toInt (toULong (nanosecondPerSecond - toULong (tp.nsec - time.nsec))), toInt (time.sec - tp.sec - 1))
    else (toInt (time.nsec - tp.nsec), toInt (time.sec - tp.sec))
  let tick := toInt (toULong (toULong (toInt (second * rate)) + toULong (toInt (nsecond * rate)) / nanosecondPerSecond))
  if tick < 0 then 0 else tick

namespace Timespec

structure Valid (t : Timespec) : Prop where
  nonneg : 0 ≤ t.nsec
  less : t.nsec < nanosecondPerSecond

def nanoseconds (t : Timespec) : Int := t.sec * nanosecondPerSecond + t.nsec

def left (time tp : Timespec) : Int := time.nanoseconds - tp.nanoseconds

end Timespec

/-- What of the nanoseconds `left` are no whole seconds comes, in ticks, below 2 ^ 32 nanoseconds. Where the deadline has
passed, the number of ticks, with those of the nanoseconds modulo 2 ^ 32, is not positive as an int; it is as long as the
deadline passed no more than 2 ^ 31 ticks ago. -/
def TicksFit (rate left : Int) : Prop :=
  let rest := left % nanosecondPerSecond * rate
  if 0 ≤ left then rest < 2 ^ 32
  else
    let ticks := left / nanosecondPerSecond * rate + rest % 2 ^ 32 / nanosecondPerSecond
    ticks % 2 ^ 32 = 0 ∨ 2 ^ 31 ≤ ticks % 2 ^ 32

section
variable {rate : Int} {time tp : Timespec}

theorem toInt_toULong (value : Int) : toInt (toULong value) = toInt value := Int.emod_bmod value (2 ^ 32)

theorem toInt_toULong_add (value other : Int) : toInt (toULong value + other) = toInt (value + other) :=
  Int.emod_add_bmod value (2 ^ 32)

theorem toInt_ticks (second rate ticks : Int) :
    toInt (toULong (toULong (toInt (toInt second * rate)) + ticks)) = toInt (second * rate + ticks) := by
  have product : toInt (toInt (toInt second * rate)) = toInt (second * rate) := by
    rw [toInt, toInt, Int.bmod_bmod]
    exact Int.bmod_mul_bmod
  have sum : toInt (toInt (toInt second * rate) + ticks) = toInt (second * rate + ticks) :=
    Int.add_bmod_eq_add_bmod_right ticks product
  rw [toInt_toULong, toInt_toULong_add, sum]

theorem toULong_toInt (value : Int) : toULong (toInt value) = value % 2 ^ 32 := Int.bmod_emod

theorem timespecToTick_eq (valid : time.Valid) (valid' : tp.Valid) (rate : Int) : timespecToTick rate time tp =
    max 0 (toInt (time.left tp / nanosecondPerSecond * rate +
      time.left tp % nanosecondPerSecond * rate % 2 ^ 32 / nanosecondPerSecond)) := by
  obtain ⟨nonneg, less⟩ := valid
  obtain ⟨nonneg', less'⟩ := valid'
  have per : nanosecondPerSecond = 1000000000 := rfl
  have clamp : ∀ tick : Int, (if tick < 0 then 0 else tick) = max 0 tick := fun tick => by
    split <;> omega
  have borrow : (if time.nsec - tp.nsec < 0 then
      (toInt (toULong (nanosecondPerSecond - toULong (tp.nsec - time.nsec))), toInt (time.sec - tp.sec - 1))
    else (toInt (time.nsec - tp.nsec), toInt (time.sec - tp.sec))) =
      (time.left tp % nanosecondPerSecond, toInt (time.left tp / nanosecondPerSecond)) := by
    simp only [Timespec.left, Timespec.nanoseconds, per, toULong] at *
    split
    · rw [toInt_eq (by omega) (by omega)]
      exact Prod.ext (by dsimp only; omega) (congrArg toInt (by omega))
    · rw [toInt_eq (by omega) (by omega)]
      exact Prod.ext (by dsimp only; omega) (congrArg toInt (by omega))
  simp only [timespecToTick, borrow, clamp]
  rw [toInt_ticks, toULong_toInt]

theorem ticks_eq (left rate : Int) : left * rate / nanosecondPerSecond =
    left / nanosecondPerSecond * rate + left % nanosecondPerSecond * rate / nanosecondPerSecond := by
  have parts := Int.mul_ediv_add_emod left nanosecondPerSecond
  have product : left * rate = left % nanosecondPerSecond * rate + nanosecondPerSecond * (left / nanosecondPerSecond * rate) := by
    conv => lhs; rw [← parts]
    rw [Int.add_mul, Int.mul_assoc, Int.add_comm]
  rw [product, Int.add_mul_ediv_left _ _ (by decide), Int.add_comm]

theorem toInt_nonpos (value : Int) : toInt value ≤ 0 ↔ value % 2 ^ 32 = 0 ∨ 2 ^ 31 ≤ value % 2 ^ 32 := by
  have cases_ := Int.bmod_eq_emod value (2 ^ 32)
  rw [toInt]
  split at cases_ <;> omega

theorem timespecToTick_future {left : Int} (low : 1 ≤ rate) (high : rate ≤ 1000) (nonneg : 0 ≤ left)
    (near : left * rate < 2 ^ 31 * nanosecondPerSecond) :
    max 0 (toInt (left / nanosecondPerSecond * rate + left % nanosecondPerSecond * rate % 2 ^ 32 / nanosecondPerSecond)) =
      max 0 (left * rate / nanosecondPerSecond) ↔ left % nanosecondPerSecond * rate < 2 ^ 32 := by
  have ticks := ticks_eq left rate
  have whole : 0 ≤ left / nanosecondPerSecond * rate :=
    Int.mul_nonneg (Int.ediv_nonneg nonneg (by decide)) (by omega)
  have rest : 0 ≤ left % nanosecondPerSecond * rate :=
    Int.mul_nonneg (Int.emod_nonneg _ (by decide)) (by omega)
  simp only [nanosecondPerSecond] at *
  generalize left / 1000000000 * rate = seconds at *
  generalize left % 1000000000 * rate = product at *
  generalize left * rate = all at *
  rw [toInt_eq (by omega) (by omega)]
  omega

theorem timespecToTick_past {left : Int} (low : 1 ≤ rate) (past : left < 0) :
    max 0 (left * rate / nanosecondPerSecond) = 0 := by
  have negative : left * rate ≤ left * 1 := Int.mul_le_mul_of_nonpos_left (by omega) low
  have per : nanosecondPerSecond = 1000000000 := rfl
  rw [per]
  omega

end

theorem timespecToTick_exact {rate : Int} {time tp : Timespec} (low : 1 ≤ rate) (high : rate ≤ 1000) (valid : time.Valid)
    (valid' : tp.Valid) (near : time.left tp * rate < 2 ^ 31 * nanosecondPerSecond) :
    timespecToTick rate time tp = max 0 (time.left tp * rate / nanosecondPerSecond) ↔ TicksFit rate (time.left tp) := by
  rw [timespecToTick_eq valid valid']
  by_cases future : 0 ≤ time.left tp
  · rw [timespecToTick_future low high future near, TicksFit, if_pos future]
  · rw [timespecToTick_past low (Int.not_le.mp future), TicksFit, if_neg future, ← toInt_nonpos]
    omega

theorem timespecToTick_exact_second :
    timespecToTick 1000 ⟨3, 4000000⟩ ⟨2, 0⟩ =
        max 0 (Timespec.left ⟨3, 4000000⟩ ⟨2, 0⟩ * 1000 / nanosecondPerSecond) ↔
      TicksFit 1000 (Timespec.left ⟨3, 4000000⟩ ⟨2, 0⟩) :=
  timespecToTick_exact (by decide) (by decide) ⟨by decide, by decide⟩ ⟨by decide, by decide⟩ (by decide)

theorem timespecToTick_half : timespecToTick 1000 ⟨0, 500000000⟩ ⟨0, 0⟩ = 1 ∧
    max 0 (Timespec.left ⟨0, 500000000⟩ ⟨0, 0⟩ * 1000 / nanosecondPerSecond) = 500 := by
  decide

end RtThread.Rtc
