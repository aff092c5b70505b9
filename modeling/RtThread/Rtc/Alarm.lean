import RtThread.Rtc.Ctime

/-! The alarms of the real-time clock (`alarm.c`): any number of them share the one alarm of the hardware. -/

set_option autoImplicit false
namespace RtThread.Rtc

/-- `flag & 0xFF00` -/
inductive AlarmKind where
  | oneshot
  | daily
  | weekly
  | monthly
  | yearly
  | hour
  | minute
  | second
  /-- none of them, or several -/
  | other
  deriving DecidableEq

structure Alarm where
  kind : AlarmKind
  /-- RT_ALARM_STATE_INITED and RT_ALARM_STATE_START -/
  inited : Bool
  started : Bool
  /-- `callback != RT_NULL` -/
  callback : Bool
  wktime : Tm
  deriving DecidableEq

/-- `struct rt_rtc_wkalarm`, as the hardware has it. -/
structure RtcAlarm where
  enable : Bool
  sec : Int
  min : Int
  hour : Int
  deriving DecidableEq

/-- `_container`, the alarms, and the RTC. -/
structure AlarmContainer (I : Type) where
  alarm : I → Alarm
  head : List I
  current : Option I
  rtc : RtcAlarm

def alarmMkdaysec (time : Tm) : UInt32 :=
  UInt32.ofInt time.sec + UInt32.ofInt (time.min * 60) + UInt32.ofInt (time.hour * 3600)

/-- A word stored to an rt_int32_t. -/
def int32 (value : UInt32) : Int := if value.toNat < 2 ^ 31 then value.toNat else (value.toNat : Int) - 2 ^ 32

namespace Tm
variable (t : Tm)

end Tm

def careful (low high now value : Int) : Int := if value > high ∨ value < low then now else value

section
variable {I : Type} [DecidableEq I] (w : AlarmContainer I) (i : I)

namespace AlarmContainer

def set (k : Alarm) : AlarmContainer I := { w with alarm := Function.update w.alarm i k }

omit [DecidableEq I] in
/-- `alarm_set` with an RTC that accepts every setting and reads it back as it was set. -/
def alarmSet : AlarmContainer I :=
  let k := w.alarm i
  { w with rtc := ⟨k.started, k.wktime.sec, k.wktime.min, k.wktime.hour⟩ }

end AlarmContainer

/-- What the second loop of `alarm_update` has found so far. -/
structure Nearest (I : Type) where
  secNext : Int
  almNext : Option I
  secPrev : Int
  almPrev : Option I

omit [DecidableEq I] in
def nearestStep (secNow : Int) (found : Nearest I) : Nearest I :=
  let k := w.alarm i
  let secAlarm := int32 (alarmMkdaysec k.wktime)
  if k.started then
    let secTmp := secAlarm - secNow
    if secTmp > 0 then
      if secTmp < found.secNext then { found with secNext := secTmp, almNext := some i } else found
    else if secTmp < found.secPrev then { found with secPrev := secTmp, almPrev := some i } else found
  else found

omit [DecidableEq I] in
def nearest (secNow : Int) : Nearest I :=
  w.head.foldl (fun found i => nearestStep w i secNow found) ⟨24 * 3600, none, 0, none⟩

omit [DecidableEq I] in
def arm (alarm : Option I) : AlarmContainer I :=
  match alarm with
  | some i => { w.alarmSet i with current := some i }
  | none => w

def disarm : AlarmContainer I :=
  let w := w.set i { w.alarm i with started := false }
  if w.current = some i then { w.alarmSet i with current := none } else w

structure AlarmWorld (I : Type) where
  container : AlarmContainer I
  time : Nat

end

end RtThread.Rtc
