import RtThread.Ipc.Waits

/-! Event groups: the locked sections of rt_event_send, rt_event_recv and rt_event_control. -/

set_option autoImplicit false
namespace RtThread.Ipc

def rtEventFlagAnd : UInt8 := 0x01
def rtEventFlagOr : UInt8 := 0x02
def rtEventFlagClear : UInt8 := 0x04

structure EventWorld (T : Type) where
  set : UInt32
  flag : IpcFlag
  waits : Waits Unit T
  eventSet : T → UInt32
  eventInfo : T → UInt8
  /-- the threads behind the `rt_schedule` of a receive -/
  receiving : T → Bool

inductive EventNote (T : Type) where
  | sent (set : UInt32)
  | received (t : T) (set : UInt32) (option : UInt8) (recved : UInt32)
  | waits (t : T) (set : UInt32) (option : UInt8)
  | expired (t : T)
  | woken (t : T) (recved : UInt32)
  | failed (t : T) (e : Err)
  | reset
  | refused (e : Err)

section
variable {T : Type} [DecidableEq T]

namespace EventWorld

/-- `rt_thread_resume(thread); thread->error = RT_EOK;` -/
def wake (w : EventWorld T) (t : T) : EventWorld T :=
  { w with waits := (rtThreadResume w.waits t).setError t .ok }

def setEventSet (w : EventWorld T) (t : T) (set : UInt32) : EventWorld T :=
  { w with eventSet := Function.update w.eventSet t set }

end EventWorld

def needClear (w : EventWorld T) (t : T) (needClearSet : UInt32) : UInt32 :=
  if w.eventInfo t &&& rtEventFlagClear ≠ 0 then needClearSet ||| w.eventSet t else needClearSet

/-- The loop of rt_event_send over the waiting threads; it ends early, with `false`, at one that asks
for neither AND nor OR. -/
def eventScan (w : EventWorld T) (needClearSet : UInt32) : List T → EventWorld T × UInt32 × Bool
  | [] => (w, needClearSet, true)
  | t :: rest =>
    if w.eventInfo t &&& rtEventFlagAnd ≠ 0 then
      if w.eventSet t &&& w.set = w.eventSet t then
        eventScan (w.wake t) (needClear w t needClearSet) rest
      else eventScan w needClearSet rest
    else if w.eventInfo t &&& rtEventFlagOr ≠ 0 then
      if w.eventSet t &&& w.set ≠ 0 then
        let w := w.setEventSet t (w.eventSet t &&& w.set)
        eventScan (w.wake t) (needClear w t needClearSet) rest
      else eventScan w needClearSet rest
    else (w, needClearSet, false)

def eventSend (w : EventWorld T) (set : UInt32) : EventWorld T × EventNote T :=
  if set = 0 then (w, .refused .error)
  else
    let w := { w with set := w.set ||| set }
    match eventScan w 0 (w.waits.list ()) with
    | (w, _, false) => (w, .refused .inval)
    | (w, needClearSet, true) =>
      ({ w with set := if needClearSet ≠ 0 then w.set &&& ~~~needClearSet else w.set }, .sent set)

/-- A receive up to its `rt_schedule`; with neither AND nor OR it stops at an assertion. -/
def eventRecv (w : EventWorld T) (t : T) (set : UInt32) (option : UInt8) (timeout : Int32) :
    Option (EventWorld T × EventNote T) :=
  if set = 0 then some (w, .refused .error)
  else
    let w := { w with waits := w.waits.setError t .intr }
    let status : Option Bool :=
      if option &&& rtEventFlagAnd ≠ 0 then some (w.set &&& set == set)
      else if option &&& rtEventFlagOr ≠ 0 then some (w.set &&& set != 0)
      else none
    match status with
    | none => none
    | some true =>
      some ({ w with
          waits := w.waits.setError t .ok
          eventSet := Function.update w.eventSet t (w.set &&& set)
          eventInfo := Function.update w.eventInfo t option
          set := if option &&& rtEventFlagClear ≠ 0 then w.set &&& ~~~set else w.set },
        .received t set option (w.set &&& set))
    | some false =>
      if timeout = 0 then some ({ w with waits := w.waits.setError t .timeout }, .refused .timeout)
      else
        some ({ w with
            eventSet := Function.update w.eventSet t set
            eventInfo := Function.update w.eventInfo t option
            waits := w.waits.suspendFor () t w.flag timeout
            receiving := Function.update w.receiving t true },
          .waits t set option)

/-- A receive behind its `rt_schedule`. -/
def eventRecvWoken (w : EventWorld T) (t : T) : EventWorld T × EventNote T :=
  ({ w with receiving := Function.update w.receiving t false },
    if (w.waits.thread t).error ≠ .ok then .failed t (w.waits.thread t).error else .woken t (w.eventSet t))

/-- RT_IPC_CMD_RESET -/
def eventReset (w : EventWorld T) : EventWorld T × EventNote T :=
  ({ w with waits := ipcListResumeAll w.waits (), set := 0 }, .reset)

end

end RtThread.Ipc
