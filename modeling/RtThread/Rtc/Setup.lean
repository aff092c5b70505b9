import RtThread.Rtc.Armed
import RtThread.Rtc.Calendar

/-! What `alarm_setup` stores: a time of day, and a day that the calendar has. -/

set_option autoImplicit false
namespace RtThread.Rtc
open Lib

section
variable {t u now wktime : Tm} {year day : Int} {mon : Nat} {kind : AlarmKind}

theorem monthDays_le_leap : ∀ mon < 12, ∀ leap, monthDays leap mon ≤ monthDays true mon := by decide

theorem monthDays_le : ∀ mon < 12, monthDays true mon ≤ 31 := by decide

theorem Tm.Valid.mday (valid : now.Valid) : 1 ≤ now.mday ∧ now.mday ≤ 31 ∧ now.mon < 12 := by
  have less : now.mon.toNat < 12 := valid.date.mon
  have last := Int.le_trans valid.date.last (monthDays_le_leap _ less _)
  have most := monthDays_le _ less
  have first := valid.date.first
  simp only [Tm.date] at first last
  omega

end

end RtThread.Rtc
