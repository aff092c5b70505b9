import RtThread.Ipc.World

/-! Mailboxes: the locked sections of rt_mb_send_wait, rt_mb_urgent, rt_mb_recv and rt_mb_control. -/

set_option autoImplicit false
namespace RtThread.Ipc

def rtMbEntryMax : UInt16 := 65535

structure Mailbox where
  msgPool : Nat → UInt32
  size : UInt16
  entry : UInt16
  inOffset : UInt16
  outOffset : UInt16
  flag : IpcFlag

/-- What a thread does with the mailbox: it is in no call, or behind the `rt_schedule` of one. -/
inductive MbCall where
  | idle
  | sending (value : UInt32) (timeout : Int32) (tickDelta : UInt32)
  | receiving (timeout : Int32) (tickDelta : UInt32)
  deriving DecidableEq, Repr

def MbCall.waitsIn : MbCall → Option Side
  | .idle => none
  | .sending .. => some .senders
  | .receiving .. => some .receivers

abbrev MbWorld (T : Type) := World Mailbox MbCall T

inductive MbEvent where
  | sent (value : UInt32)
  | urgent (value : UInt32)
  | received (value : UInt32)
  | reset
  | failed (e : Err)
  deriving DecidableEq, Repr

namespace Mailbox

/-- The value and `in_offset` of a send. -/
def store (mb : Mailbox) (value : UInt32) : Mailbox :=
  { mb with
    msgPool := Function.update mb.msgPool mb.inOffset.toNat value
    inOffset := if mb.inOffset + 1 ≥ mb.size then 0 else mb.inOffset + 1 }

/-- The value and `out_offset` of an urgent send. -/
def storeUrgent (mb : Mailbox) (value : UInt32) : Mailbox :=
  let outOffset := if mb.outOffset > 0 then mb.outOffset - 1 else mb.size - 1
  { mb with
    outOffset := outOffset
    msgPool := Function.update mb.msgPool outOffset.toNat value
    entry := mb.entry + 1 }

def fetch (mb : Mailbox) : UInt32 := mb.msgPool mb.outOffset.toNat

/-- `out_offset` and `entry` of a receive. -/
def advance (mb : Mailbox) : Mailbox :=
  { mb with
    outOffset := if mb.outOffset + 1 ≥ mb.size then 0 else mb.outOffset + 1
    entry := if mb.entry > 0 then mb.entry - 1 else mb.entry }

def clear (mb : Mailbox) : Mailbox := { mb with entry := 0, inOffset := 0, outOffset := 0 }

end Mailbox

section
variable {T : Type} [DecidableEq T]

def mbSendStore (w : MbWorld T) (t : T) (value : UInt32) : MbWorld T × Option MbEvent :=
  let mb := w.obj.store value
  if mb.entry < rtMbEntryMax then
    let w := { w with obj := { mb with entry := mb.entry + 1 } }
    ((w.resumeOne .receivers).goto t .idle, some (.sent value))
  else ({ w with obj := mb }.goto t .idle, some (.failed .full))

def mbSendLoop (w : MbWorld T) (t : T) (value : UInt32) (timeout : Int32) (tickDelta tick : UInt32) :
    MbWorld T × Option MbEvent :=
  if w.obj.entry = w.obj.size then
    let w := { w with waits := w.waits.setError t .intr }
    if timeout = 0 then (w.goto t .idle, some (.failed .full))
    else
      ((w.suspend .senders t w.obj.flag timeout).goto t
        (.sending value timeout (if timeout > 0 then tick else tickDelta)), none)
  else mbSendStore w t value

def mbSendWait (w : MbWorld T) (t : T) (value : UInt32) (timeout : Int32) (tick : UInt32) :
    MbWorld T × Option MbEvent :=
  if w.obj.entry = w.obj.size ∧ timeout = 0 then (w, some (.failed .full))
  else mbSendLoop w t value timeout 0 tick

/-- A send behind its `rt_schedule`. -/
def mbSendWoken (w : MbWorld T) (t : T) (value : UInt32) (timeout : Int32) (tickDelta tick : UInt32) :
    MbWorld T × Option MbEvent :=
  if (w.waits.thread t).error ≠ .ok then (w.goto t .idle, some (.failed (w.waits.thread t).error))
  else
    let left := recount timeout tickDelta tick
    mbSendLoop w t value left.1 left.2 tick

def mbUrgent (w : MbWorld T) (value : UInt32) : MbWorld T × Option MbEvent :=
  if w.obj.entry = w.obj.size then (w, some (.failed .full))
  else ({ w with obj := w.obj.storeUrgent value }.resumeOne .receivers, some (.urgent value))

def mbRecvFetch (w : MbWorld T) (t : T) : MbWorld T × Option MbEvent :=
  (({ w with obj := w.obj.advance }.resumeOne .senders).goto t .idle, some (.received w.obj.fetch))

def mbRecvLoop (w : MbWorld T) (t : T) (timeout : Int32) (tickDelta tick : UInt32) :
    MbWorld T × Option MbEvent :=
  if w.obj.entry = 0 then
    let w := { w with waits := w.waits.setError t .intr }
    if timeout = 0 then
      ({ w with waits := w.waits.setError t .timeout }.goto t .idle, some (.failed .timeout))
    else
      ((w.suspend .receivers t w.obj.flag timeout).goto t
        (.receiving timeout (if timeout > 0 then tick else tickDelta)), none)
  else mbRecvFetch w t

def mbRecv (w : MbWorld T) (t : T) (timeout : Int32) (tick : UInt32) : MbWorld T × Option MbEvent :=
  if w.obj.entry = 0 ∧ timeout = 0 then (w, some (.failed .timeout))
  else mbRecvLoop w t timeout 0 tick

def mbRecvWoken (w : MbWorld T) (t : T) (timeout : Int32) (tickDelta tick : UInt32) :
    MbWorld T × Option MbEvent :=
  if (w.waits.thread t).error ≠ .ok then (w.goto t .idle, some (.failed (w.waits.thread t).error))
  else
    let left := recount timeout tickDelta tick
    mbRecvLoop w t left.1 left.2 tick

/-- RT_IPC_CMD_RESET -/
def mbReset (w : MbWorld T) : MbWorld T × Option MbEvent :=
  let waits := ipcListResumeAll w.waits .receivers
  let waits := ipcListResumeAll waits .senders
  ({ w with waits := waits, obj := w.obj.clear }, some .reset)

/-- What can happen next: a thread enters a call or goes on in one it was resumed in, or a thread
timer expires. The tick count of a step is arbitrary. -/
inductive MbAction (T : Type) where
  | send (t : T) (value : UInt32) (timeout : Int32) (tick : UInt32)
  | sendWoken (t : T) (tick : UInt32)
  | urgent (value : UInt32)
  | recv (t : T) (timeout : Int32) (tick : UInt32)
  | recvWoken (t : T) (tick : UInt32)
  | reset
  | timeout (t : T)

def mbStep (w : MbWorld T) : MbAction T → Option (MbWorld T × Option MbEvent)
  | .send t value timeout tick =>
    if (w.waits.thread t).suspended ∨ w.call t ≠ .idle then none
    else some (mbSendWait w t value timeout tick)
  | .sendWoken t tick =>
    match w.call t with
    | .sending value timeout tickDelta =>
      if (w.waits.thread t).suspended then none
      else some (mbSendWoken w t value timeout tickDelta tick)
    | _ => none
  | .urgent value => some (mbUrgent w value)
  | .recv t timeout tick =>
    if (w.waits.thread t).suspended ∨ w.call t ≠ .idle then none
    else some (mbRecv w t timeout tick)
  | .recvWoken t tick =>
    match w.call t with
    | .receiving timeout tickDelta =>
      if (w.waits.thread t).suspended then none
      else some (mbRecvWoken w t timeout tickDelta tick)
    | _ => none
  | .reset => some (mbReset w)
  | .timeout t =>
    if (w.waits.thread t).suspended ∧ (w.waits.thread t).timer then
      some ({ w with waits := threadTimeout w.waits t }, none)
    else none

def mbInitial (pool : Nat → UInt32) (size : UInt16) (flag : IpcFlag) (priority : T → UInt8) :
    MbWorld T where
  obj := ⟨pool, size, 0, 0, 0, flag⟩
  waits := Waits.initial priority
  call _ := .idle

end

end RtThread.Ipc
