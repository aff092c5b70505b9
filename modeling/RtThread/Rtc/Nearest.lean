import RtThread.Rtc.Alarm
import RtThread.Lib.Clock
import RtThread.Lib.Least

/-! The choice of `alarm_update`: the alarm that is armed is the next one on the clock. -/

set_option autoImplicit false
namespace RtThread.Rtc
open Lib

def daySeconds : Nat := 24 * 3600

def Tm.seconds (t : Tm) : Nat := (t.sec + t.min * 60 + t.hour * 3600).toNat

section
variable {t u : Tm}

theorem Tm.InRange.seconds (range : t.InRange) :
    (t.seconds : Int) = t.sec + t.min * 60 + t.hour * 3600 ∧ t.seconds < daySeconds := by
  obtain ⟨sec, min, hour⟩ := range
  have positive : (t.seconds : Int) = t.sec + t.min * 60 + t.hour * 3600 := Int.toNat_of_nonneg (by omega)
  refine ⟨positive, ?_⟩
  have : (t.seconds : Int) < 86400 := by omega
  exact Int.ofNat_lt.mp this

end

section
variable {I : Type} {w : AlarmContainer I} {now : Nat} {i : I}

def AlarmContainer.at (w : AlarmContainer I) (i : I) : Nat := (w.alarm i).wktime.seconds

def AlarmContainer.Ranged (w : AlarmContainer I) : Prop :=
  ∀ i ∈ w.head, (w.alarm i).started = true → (w.alarm i).wktime.InRange

def AlarmContainer.First (w : AlarmContainer I) (now : Nat) (c : I) : Prop :=
  ∀ i ∈ w.head, (w.alarm i).started = true → ahead daySeconds now (w.at c) ≤ ahead daySeconds now (w.at i)

end

end RtThread.Rtc
