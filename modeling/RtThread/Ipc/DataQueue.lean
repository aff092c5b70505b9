import RtThread.Ipc.World

/-! Data queues (`dataqueue.c`): the locked sections of push, pop, peek and reset. -/

set_option autoImplicit false
namespace RtThread.Ipc

structure DataItem where
  dataPtr : UInt32
  dataSize : UInt32
  deriving DecidableEq, Repr

/-- `struct rt_data_queue`, with the length of both indices' fields in `field15`. `evtNotify` tells whether
there is a callback. -/
structure DataQueue where
  size : UInt16
  lwm : UInt16
  getIndex : UInt16
  isEmpty : Bool
  putIndex : UInt16
  isFull : Bool
  queue : Nat → DataItem
  evtNotify : Bool

/-- A value stored to a field of 15 bits. -/
def field15 (value : UInt16) : UInt16 := value % 0x8000

inductive DqNotify where
  | pop
  | push
  | lwm
  deriving DecidableEq, Repr

/-- What a thread does with the queue: it is in no call, behind the `rt_schedule` of a push or a pop, behind the
test of a peek, or in a loop of a reset, in front of its test or behind it. -/
inductive DqCall where
  | idle
  | pushing (item : DataItem) (timeout : Int32)
  | popping (timeout : Int32)
  | peeking
  | resetting (side : Side)
  | waking (side : Side)
  deriving DecidableEq, Repr

/-- How a call ends, what it did to the queue, and the calls of `evt_notify`. -/
inductive DqEvent where
  | pushed (item : DataItem)
  | popped (item : DataItem)
  | peeked (item : DataItem)
  | reset
  | failed (e : Err)
  | notified (event : DqNotify)
  deriving DecidableEq, Repr

abbrev DqWorld (T : Type) := World DataQueue DqCall T

namespace DataQueue

/-- `index += 1; if (index == size) index = 0;` -/
def nextIndex (size index : UInt16) : UInt16 :=
  let index := field15 (index + 1)
  if index = size then 0 else index

def store (q : DataQueue) (item : DataItem) : DataQueue :=
  let q := { q with queue := Function.update q.queue q.putIndex.toNat item, putIndex := nextIndex q.size q.putIndex }
  { q with isEmpty := false, isFull := if q.putIndex = q.getIndex then true else q.isFull }

def fetch (q : DataQueue) : DataItem := q.queue q.getIndex.toNat

def advance (q : DataQueue) : DataQueue :=
  let q := { q with getIndex := nextIndex q.size q.getIndex }
  { q with isFull := false, isEmpty := if q.putIndex = q.getIndex then true else q.isEmpty }

def clear (q : DataQueue) : DataQueue := { q with getIndex := 0, putIndex := 0, isEmpty := true, isFull := false }

def rtDataQueueLen (q : DataQueue) : UInt16 :=
  if q.isEmpty then 0
  else if q.putIndex > q.getIndex then q.putIndex - q.getIndex
  else q.size + q.putIndex - q.getIndex

def notify (q : DataQueue) (event : DqNotify) : List DqEvent := if q.evtNotify then [.notified event] else []

end DataQueue

section
variable {T : Type} [DecidableEq T]

def dqResume (w : DqWorld T) (side : Side) : DqWorld T :=
  match w.waits.list side with
  | [] => w
  | t :: _ => { w with waits := rtThreadResume w.waits t }

def dqPushStore (w : DqWorld T) (t : T) (item : DataItem) : DqWorld T × List DqEvent :=
  let w := { w with obj := w.obj.store item }
  if (w.waits.list .receivers).isEmpty then (w.goto t .idle, .pushed item :: w.obj.notify .push)
  else ((dqResume w .receivers).goto t .idle, [.pushed item])

def dqPushLoop (w : DqWorld T) (t : T) (item : DataItem) (timeout : Int32) : DqWorld T × List DqEvent :=
  if w.obj.isFull then
    if timeout = 0 then (w.goto t .idle, [.failed .timeout])
    else
      let w := { w with waits := w.waits.setError t .ok }
      ((w.suspend .senders t .fifo timeout).goto t (.pushing item timeout), [])
  else dqPushStore w t item

/-- A push behind its `rt_schedule`. -/
def dqPushWoken (w : DqWorld T) (t : T) (item : DataItem) (timeout : Int32) : DqWorld T × List DqEvent :=
  if (w.waits.thread t).error ≠ .ok then (w.goto t .idle, [.failed (w.waits.thread t).error])
  else dqPushLoop w t item timeout

def dqPopFetch (w : DqWorld T) (t : T) : DqWorld T × List DqEvent :=
  let item := w.obj.fetch
  let w := { w with obj := w.obj.advance }
  if w.obj.rtDataQueueLen ≤ w.obj.lwm then
    ((dqResume w .senders).goto t .idle, .popped item :: w.obj.notify .lwm)
  else (w.goto t .idle, .popped item :: w.obj.notify .pop)

def dqPopLoop (w : DqWorld T) (t : T) (timeout : Int32) : DqWorld T × List DqEvent :=
  if w.obj.isEmpty then
    if timeout = 0 then (w.goto t .idle, [.failed .timeout])
    else
      let w := { w with waits := w.waits.setError t .ok }
      ((w.suspend .receivers t .fifo timeout).goto t (.popping timeout), [])
  else dqPopFetch w t

/-- A pop behind its `rt_schedule`. -/
def dqPopWoken (w : DqWorld T) (t : T) (timeout : Int32) : DqWorld T × List DqEvent :=
  if (w.waits.thread t).error ≠ .ok then (w.goto t .idle, [.failed (w.waits.thread t).error])
  else dqPopLoop w t timeout

def dqPeek (w : DqWorld T) (t : T) : DqWorld T × List DqEvent :=
  if w.obj.isEmpty then (w, [.failed .empty]) else (w.goto t .peeking, [])

def dqPeekFetch (w : DqWorld T) (t : T) : DqWorld T × List DqEvent := (w.goto t .idle, [.peeked w.obj.fetch])

def dqReset (w : DqWorld T) (t : T) : DqWorld T × List DqEvent :=
  ({ w with obj := w.obj.clear }.goto t (.resetting .receivers), [.reset])

def dqResetTest (w : DqWorld T) (t : T) (side : Side) : DqWorld T :=
  if (w.waits.list side).isEmpty then
    match side with
    | .receivers => w.goto t (.resetting .senders)
    | .senders => w.goto t .idle
  else w.goto t (.waking side)

/-- The section in a loop of a reset. From a list that has become empty the code takes the list head for a thread,
and there is no saying what it does. -/
def dqResetWake (w : DqWorld T) (t : T) (side : Side) : Option (DqWorld T) :=
  match w.waits.list side with
  | [] => none
  | u :: _ => some ({ w with waits := rtThreadResume (w.waits.setError u .error) u }.goto t (.resetting side))

inductive DqAction (T : Type) where
  | push (t : T) (item : DataItem) (timeout : Int32)
  | pop (t : T) (timeout : Int32)
  | peek (t : T)
  | reset (t : T)
  | goOn (t : T)
  | timeout (t : T)

def dqGoOn (w : DqWorld T) (t : T) : Option (DqWorld T × List DqEvent) :=
  match w.call t with
  | .idle => none
  | .pushing item timeout => some (dqPushWoken w t item timeout)
  | .popping timeout => some (dqPopWoken w t timeout)
  | .peeking => some (dqPeekFetch w t)
  | .resetting side => some (dqResetTest w t side, [])
  | .waking side => (dqResetWake w t side).map fun w => (w, [])

def World.Outside (w : DqWorld T) (t : T) : Prop := (w.waits.thread t).suspended = false ∧ w.call t = .idle

instance (w : DqWorld T) (t : T) : Decidable (w.Outside t) :=
  inferInstanceAs (Decidable ((w.waits.thread t).suspended = false ∧ w.call t = .idle))

def dqStep (w : DqWorld T) : DqAction T → Option (DqWorld T × List DqEvent)
  | .push t item timeout => if w.Outside t then some (dqPushLoop w t item timeout) else none
  | .pop t timeout => if w.Outside t then some (dqPopLoop w t timeout) else none
  | .peek t => if w.Outside t then some (dqPeek w t) else none
  | .reset t => if w.Outside t then some (dqReset w t) else none
  | .goOn t => if (w.waits.thread t).suspended then none else dqGoOn w t
  | .timeout t =>
    if (w.waits.thread t).suspended ∧ (w.waits.thread t).timer then
      some ({ w with waits := threadTimeout w.waits t }, [])
    else none

end

end RtThread.Ipc
