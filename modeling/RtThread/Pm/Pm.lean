import RtThread.Timers.TimerList

/-! `_pm_change_sleep_mode`: one pass of the power manager, with what it asks of the timers, and what it calls. -/

set_option autoImplicit false
namespace RtThread.Pm
open Timers

/-- The sleep modes, from `PM_SLEEP_MODE_NONE` on. -/
abbrev SleepMode := Nat

def pmSleepModeNone : SleepMode := 0
def pmSleepModeIdle : SleepMode := 1
def pmSleepModeLight : SleepMode := 2
def pmSleepModeDeep : SleepMode := 3
def pmSleepModeStandby : SleepMode := 4
def pmSleepModeMax : SleepMode := 6

structure PmModule where
  busyFlag : Bool
  timeout : UInt32
  startTime : UInt32

structure RtPm where
  modes : List UInt8
  sleepMode : SleepMode
  moduleStatus : List PmModule
  sleepStatus : List (List UInt32)
  timerMask : UInt8

/-- What `rt_lptimer_next_timeout_tick` reads of a `struct rt_lptimer`. -/
structure Lptimer where
  timeoutTick : UInt32
  activated : Bool

/-- The options of `pm.c`, and its variables that a pass only reads. -/
structure PmConfig where
  initFlag : Bool
  defaultDeepsleep : SleepMode
  busySleepMode : SleepMode
  suspendSleepMode : SleepMode
  ticklessThresholdTime : UInt32
  /-- PM_ENABLE_THRESHOLD_SLEEP_MODE -/
  enableThresholdSleepMode : Bool
  /-- PM_ENABLE_SUSPEND_SLEEP_MODE -/
  enableSuspendSleepMode : Bool

/-- What the drivers answer: whether `_pm_device_suspend` returns RT_EOK, and `ops->timer_get_tick`, if there is one. -/
structure PmDrivers where
  deviceSuspend : SleepMode → Bool
  timerGetTick : Option UInt32

structure PmState where
  pm : RtPm
  /-- `rt_tick_get` -/
  tick : UInt32
  /-- `_timer_list`: the timeouts of the hard timers, from the first on. -/
  timerList : List UInt32
  /-- `rt_soft_lptimer_list` -/
  softLptimerList : List Lptimer

inductive PmEvent where
  | notify (enter : Bool) (mode : SleepMode)
  | deviceSuspend (mode : SleepMode)
  | deviceResume (mode : SleepMode)
  | lptimerStart (timeout : UInt32)
  | lptimerGetTimeout (ticks : UInt32)
  | lptimerStop
  | sleep (mode : SleepMode)
  | timerCheck

def judgeSleepMode (pm : RtPm) : SleepMode :=
  (pm.sleepStatus.findIdx? fun words => words.any (· ≠ 0)).getD pmSleepModeMax

def pmSelectSleepMode (c : PmConfig) (pm : RtPm) : SleepMode :=
  let requestMode := judgeSleepMode pm
  let mode := (pm.modes.findIdx? (· ≠ 0)).getD c.defaultDeepsleep
  if requestMode < mode then requestMode else mode

/-- The loop of `_pm_device_check_idle`: the result, and the modules with the requests that have run out. -/
def checkIdleLoop (tick : UInt32) : List PmModule → Bool × List PmModule
  | [] => (true, [])
  | m :: rest =>
    let m := if m.busyFlag ∧ m.timeout < tick - m.startTime then { m with busyFlag := false, timeout := 0 } else m
    if m.busyFlag then (false, m :: rest)
    else ((checkIdleLoop tick rest).1, m :: (checkIdleLoop tick rest).2)

def pmDeviceCheckIdle (c : PmConfig) (tick : UInt32) (modules : List PmModule) : Bool × List PmModule :=
  if c.initFlag = false then (true, modules) else checkIdleLoop tick modules

/-- `_timer_list_next_timeout` of `_timer_list`, and `rt_timer_next_timeout_tick` -/
def rtTimerNextTimeoutTick : List UInt32 → UInt32
  | [] => rtTickMax
  | timeoutTick :: _ => timeoutTick

/-- The loop of `rt_lptimer_next_timeout_tick`, with `min_tick` and `timeout_tick`. -/
def lptimerLoop (curTick : UInt32) : List Lptimer → UInt32 → UInt32 → UInt32
  | [], _, timeoutTick => timeoutTick
  | timer :: rest, minTick, timeoutTick =>
    if timer.activated then
      let tempTick := timer.timeoutTick - curTick
      if tempTick < minTick then lptimerLoop curTick rest tempTick timer.timeoutTick
      else lptimerLoop curTick rest minTick timeoutTick
    else lptimerLoop curTick rest minTick timeoutTick

def rtLptimerNextTimeoutTick (curTick : UInt32) (list : List Lptimer) : UInt32 :=
  lptimerLoop curTick list rtTickMax rtTickMax

def pmTimerNextTimeoutTick (s : PmState) (mode : SleepMode) : UInt32 :=
  if mode = pmSleepModeLight then rtTimerNextTimeoutTick s.timerList
  else if mode = pmSleepModeDeep ∨ mode = pmSleepModeStandby then rtLptimerNextTimeoutTick s.tick s.softLptimerList
  else rtTickMax

def pmGetSleepThresholdMode (c : PmConfig) (curMode : SleepMode) (timeoutTick : UInt32) : SleepMode :=
  if c.initFlag = false then curMode
  else if pmSleepModeMax ≤ curMode then curMode
  -- the switch of PM_ENABLE_THRESHOLD_SLEEP_MODE sets a variable that is not returned
  else if c.enableThresholdSleepMode then curMode
  else if timeoutTick < c.ticklessThresholdTime then pmSleepModeIdle
  else curMode

/-- `pm->timer_mask & (0x01 << mode)` -/
def hasTimer (pm : RtPm) (mode : SleepMode) : Bool := pm.timerMask.toNat.testBit mode

def pmLptimerGetTimeout (o : PmDrivers) : UInt32 := o.timerGetTick.getD rtTickMax

def judged (c : PmConfig) (s : PmState) : PmState :=
  let mode := pmSelectSleepMode c s.pm
  let idle := pmDeviceCheckIdle c s.tick s.pm.moduleStatus
  let mode := if idle.1 = false ∧ c.busySleepMode < mode then c.busySleepMode else mode
  { s with pm := { s.pm with sleepMode := mode, moduleStatus := idle.2 } }

/-- The part marked `Tickless`: the mode, and the call of `pm_lptimer_start`. -/
def tickless (c : PmConfig) (s : PmState) : SleepMode × List PmEvent :=
  if hasTimer s.pm s.pm.sleepMode then
    let timeoutTick := pmTimerNextTimeoutTick s s.pm.sleepMode - s.tick
    let mode := pmGetSleepThresholdMode c s.pm.sleepMode timeoutTick
    if hasTimer s.pm mode then
      (mode, [.lptimerStart (if timeoutTick = rtTickMax then rtTickMax else timeoutTick)])
    else (mode, [])
  else (s.pm.sleepMode, [])

/-- From `pm_sleep` on. -/
def sleepAndWake (o : PmDrivers) (s : PmState) : PmState × List PmEvent :=
  let mode := s.pm.sleepMode
  let leave := [PmEvent.deviceResume mode, .notify false mode]
  if hasTimer s.pm mode then
    let deltaTick := pmLptimerGetTimeout o
    let woken := if deltaTick ≠ 0 then { s with tick := s.tick + deltaTick } else s
    (woken, [.sleep mode, .lptimerGetTimeout deltaTick, .lptimerStop] ++ leave ++
      if deltaTick ≠ 0 then [.timerCheck] else [])
  else (s, .sleep mode :: leave)

def suspendFailed (c : PmConfig) (s : PmState) : PmState × List PmEvent :=
  let mode := s.pm.sleepMode
  let next := if c.suspendSleepMode < mode then c.suspendSleepMode else mode
  ({ s with pm := { s.pm with sleepMode := next } }, [.deviceResume mode, .notify false mode, .sleep next])

def pmChangeSleepMode (c : PmConfig) (o : PmDrivers) (s : PmState) : PmState × List PmEvent :=
  let s := judged c s
  let mode := s.pm.sleepMode
  if mode = pmSleepModeNone then (s, [.sleep pmSleepModeNone])
  else
    let enter := [PmEvent.notify true mode, .deviceSuspend mode]
    if c.enableSuspendSleepMode ∧ o.deviceSuspend mode = false then
      ((suspendFailed c s).1, enter ++ (suspendFailed c s).2)
    else
      let sleeping := sleepAndWake o { s with pm := { s.pm with sleepMode := (tickless c s).1 } }
      (sleeping.1, enter ++ (tickless c s).2 ++ sleeping.2)

end RtThread.Pm
