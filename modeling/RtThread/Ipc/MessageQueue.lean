import RtThread.Ipc.World

/-! Message queues: nodes that go from the free list into the queue and back, and the locked and
unlocked parts of rt_mq_send_wait, rt_mq_urgent, rt_mq_recv and rt_mq_control. -/

set_option autoImplicit false
namespace RtThread.Ipc

def rtMqEntryMax : UInt16 := 65535

structure MqMessage where
  next : Option Nat
  length : Nat
  prio : Int32
  bytes : List UInt8
  -- a mark of the model: the message was put in by rt_mq_urgent
  urgent : Bool

structure MessageQueue where
  node : Nat → MqMessage
  msgSize : UInt16
  maxMsgs : UInt16
  entry : UInt16
  head : Option Nat
  tail : Option Nat
  free : Option Nat
  flag : IpcFlag

namespace MessageQueue

def setNext (mq : MessageQueue) (n : Nat) (next : Option Nat) : MessageQueue :=
  { mq with node := Function.update mq.node n { mq.node n with next := next } }

def setPrio (mq : MessageQueue) (n : Nat) (prio : Int32) : MessageQueue :=
  { mq with node := Function.update mq.node n { mq.node n with prio := prio } }

/-- `length` and the copy of the sender's buffer, over what the node held before. -/
def fill (mq : MessageQueue) (n : Nat) (data : List UInt8) (urgent : Bool) : MessageQueue :=
  { mq with
    node := Function.update mq.node n
      { mq.node n with
        length := data.length
        bytes := data ++ (mq.node n).bytes.drop data.length
        urgent := urgent } }

def initFree (mq : MessageQueue) : Nat → MessageQueue
  | 0 => mq
  | n + 1 =>
    let mq := initFree mq n
    { mq.setNext n mq.free with free := some n }

def link (mq : MessageQueue) (msg : Nat) : MessageQueue :=
  let mq := match mq.tail with
    | some tail => mq.setNext tail (some msg)
    | none => mq
  { mq with tail := some msg, head := if mq.head = none then some msg else mq.head }

/-- The scan of a send with priorities, from `node` with `prev` in front of it; a queue of `fuel`
nodes is scanned to its end. -/
def scan (mq : MessageQueue) (msg : Nat) (prev : Option Nat) : Option Nat → Nat → MessageQueue
  | none, _ => mq
  | some _, 0 => mq
  | some node, fuel + 1 =>
    if (mq.node node).prio < (mq.node msg).prio then
      let mq := match prev with
        | none => { mq with head := some msg }
        | some prev => mq.setNext prev (some msg)
      mq.setNext msg (some node)
    else if (mq.node node).next = none then
      let mq := if node ≠ msg then mq.setNext node (some msg) else mq
      { mq with tail := some msg }
    else scan mq msg (some node) (mq.node node).next fuel

/-- RT_USING_MESSAGEQUEUE_PRIORITY: behind the messages of the same or a higher priority. -/
def linkPrio (mq : MessageQueue) (msg : Nat) (prio : Int32) : MessageQueue :=
  let mq := mq.setPrio msg prio
  let mq := if mq.head = none then { mq with head := some msg } else mq
  mq.scan msg none mq.head (mq.maxMsgs.toNat + 1)

def linkUrgent (mq : MessageQueue) (msg : Nat) : MessageQueue :=
  let mq := { mq.setNext msg mq.head with head := some msg }
  { mq with tail := if mq.tail = none then some msg else mq.tail }

def unlink (mq : MessageQueue) (msg : Nat) : MessageQueue :=
  { mq with
    head := (mq.node msg).next
    tail := if mq.tail = some msg then none else mq.tail
    entry := if mq.entry > 0 then mq.entry - 1 else mq.entry }

def release (mq : MessageQueue) (msg : Nat) : MessageQueue :=
  { mq.setNext msg mq.free with free := some msg }

/-- The loop of RT_IPC_CMD_RESET, once round for each of `fuel` messages. -/
def releaseAll (mq : MessageQueue) : Nat → MessageQueue
  | 0 => mq
  | fuel + 1 =>
    match mq.head with
    | none => mq
    | some msg =>
      let mq := { mq with
        head := (mq.node msg).next
        tail := if mq.tail = some msg then none else mq.tail }
      (mq.release msg).releaseAll fuel

end MessageQueue

inductive MqCall where
  | idle
  /-- a send behind its `rt_schedule` -/
  | sending (data : List UInt8) (prio : Int32) (timeout : Int32) (tickDelta : UInt32)
  /-- a send or an urgent send with a node of its own, before and after the copy -/
  | filling (msg : Nat) (data : List UInt8) (prio : Int32) (urgent : Bool)
  | linking (msg : Nat) (data : List UInt8) (prio : Int32) (urgent : Bool)
  /-- a receive behind its `rt_schedule` -/
  | receiving (size : Nat) (timeout : Int32) (tickDelta : UInt32)
  /-- a receive with a node of its own, before and after the copy -/
  | emptying (msg : Nat) (size : Nat)
  | freeing (msg : Nat) (size : Nat) (buffer : List UInt8) (prio : Int32)
  deriving DecidableEq, Repr

def MqCall.waitsIn : MqCall → Option Side
  | .sending .. => some .senders
  | .receiving .. => some .receivers
  | _ => none

def MqCall.holds : MqCall → Option Nat
  | .filling msg .. | .linking msg .. | .emptying msg .. | .freeing msg .. => some msg
  | _ => none

abbrev MqWorld (T : Type) := World MessageQueue MqCall T

inductive MqEvent (T : Type) where
  | sent (data : List UInt8) (prio : Int32)
  /-- the node of an urgent message still holds the `prio` of its last use -/
  | urgent (data : List UInt8) (prio : Int32)
  /-- thread `t` has taken the first message out of the queue -/
  | taken (t : T)
  /-- a receive of thread `t` with a buffer of `size` bytes returns the number of `bytes` -/
  | received (t : T) (size : Nat) (bytes : List UInt8) (prio : Int32)
  | reset
  | failed (e : Err)
  /-- a null pointer was followed -/
  | crashed

section
variable {T : Type} [DecidableEq T]

def mqSendLoop (w : MqWorld T) (t : T) (data : List UInt8) (prio timeout : Int32)
    (tickDelta tick : UInt32) : MqWorld T × Option (MqEvent T) :=
  match w.obj.free with
  | none =>
    let w := { w with waits := w.waits.setError t .intr }
    if timeout = 0 then (w.goto t .idle, some (.failed .full))
    else
      ((w.suspend .senders t w.obj.flag timeout).goto t
        (.sending data prio timeout (if timeout > 0 then tick else tickDelta)), none)
  | some msg =>
    ({ w with obj := { w.obj with free := (w.obj.node msg).next } }.goto t (.filling msg data prio false),
      none)

def mqSendWait (w : MqWorld T) (t : T) (data : List UInt8) (prio timeout : Int32) (tick : UInt32) :
    MqWorld T × Option (MqEvent T) :=
  if data.length > w.obj.msgSize.toNat then (w, some (.failed .error))
  else if w.obj.free = none ∧ timeout = 0 then (w, some (.failed .full))
  else mqSendLoop w t data prio timeout 0 tick

/-- A send behind its `rt_schedule`. -/
def mqSendWoken (w : MqWorld T) (t : T) (data : List UInt8) (prio timeout : Int32)
    (tickDelta tick : UInt32) : MqWorld T × Option (MqEvent T) :=
  if (w.waits.thread t).error ≠ .ok then (w.goto t .idle, some (.failed (w.waits.thread t).error))
  else
    let left := recount timeout tickDelta tick
    mqSendLoop w t data prio left.1 left.2 tick

def mqUrgent (w : MqWorld T) (t : T) (data : List UInt8) : MqWorld T × Option (MqEvent T) :=
  if data.length > w.obj.msgSize.toNat then (w, some (.failed .error))
  else
    match w.obj.free with
    | none => (w, some (.failed .full))
    | some msg =>
      ({ w with obj := { w.obj with free := (w.obj.node msg).next } }.goto t (.filling msg data 0 true),
        none)

def mqFill (w : MqWorld T) (t : T) (msg : Nat) (data : List UInt8) (prio : Int32) (urgent : Bool) :
    MqWorld T × Option (MqEvent T) :=
  let obj := if urgent then w.obj else w.obj.setNext msg none
  ({ w with obj := obj.fill msg data urgent }.goto t (.linking msg data prio urgent), none)

def mqLink (priority : Bool) (w : MqWorld T) (t : T) (msg : Nat) (data : List UInt8) (prio : Int32)
    (urgent : Bool) : MqWorld T × Option (MqEvent T) :=
  let obj :=
    if urgent then w.obj.linkUrgent msg
    else if priority then w.obj.linkPrio msg prio
    else w.obj.link msg
  if obj.entry < rtMqEntryMax then
    (({ w with obj := { obj with entry := obj.entry + 1 } }.resumeOne .receivers).goto t .idle,
      some (if urgent then .urgent data (w.obj.node msg).prio else .sent data prio))
  else ({ w with obj := obj }.goto t .idle, some (.failed .full))

def mqRecvLoop (w : MqWorld T) (t : T) (size : Nat) (timeout : Int32) (tickDelta tick : UInt32) :
    MqWorld T × Option (MqEvent T) :=
  if w.obj.entry = 0 then
    let w := { w with waits := w.waits.setError t .intr }
    if timeout = 0 then
      ({ w with waits := w.waits.setError t .timeout }.goto t .idle, some (.failed .timeout))
    else
      ((w.suspend .receivers t w.obj.flag timeout).goto t
        (.receiving size timeout (if timeout > 0 then tick else tickDelta)), none)
  else
    match w.obj.head with
    | none => (w, some .crashed)
    | some msg =>
      ({ w with obj := w.obj.unlink msg }.goto t (.emptying msg size), some (.taken t))

def mqRecv (w : MqWorld T) (t : T) (size : Nat) (timeout : Int32) (tick : UInt32) :
    MqWorld T × Option (MqEvent T) :=
  if w.obj.entry = 0 ∧ timeout = 0 then (w, some (.failed .timeout))
  else mqRecvLoop w t size timeout 0 tick

def mqRecvWoken (w : MqWorld T) (t : T) (size : Nat) (timeout : Int32) (tickDelta tick : UInt32) :
    MqWorld T × Option (MqEvent T) :=
  if (w.waits.thread t).error ≠ .ok then (w.goto t .idle, some (.failed (w.waits.thread t).error))
  else
    let left := recount timeout tickDelta tick
    mqRecvLoop w t size left.1 left.2 tick

def mqEmpty (w : MqWorld T) (t : T) (msg size : Nat) : MqWorld T × Option (MqEvent T) :=
  let len := if (w.obj.node msg).length > size then size else (w.obj.node msg).length
  (w.goto t (.freeing msg size ((w.obj.node msg).bytes.take len) (w.obj.node msg).prio), none)

def mqFree (w : MqWorld T) (t : T) (msg size : Nat) (buffer : List UInt8) (prio : Int32) :
    MqWorld T × Option (MqEvent T) :=
  (({ w with obj := w.obj.release msg }.resumeOne .senders).goto t .idle,
    some (.received t size buffer prio))

/-- RT_IPC_CMD_RESET -/
def mqReset (w : MqWorld T) : MqWorld T × Option (MqEvent T) :=
  let waits := ipcListResumeAll w.waits .receivers
  let waits := ipcListResumeAll waits .senders
  ({ w with waits := waits, obj := { w.obj.releaseAll w.obj.maxMsgs.toNat with entry := 0 } }, some .reset)

/-- What can happen next: a thread enters a call or goes on in it, or a thread timer expires. The
tick count of a step is arbitrary. -/
inductive MqAction (T : Type) where
  | send (t : T) (data : List UInt8) (prio timeout : Int32) (tick : UInt32)
  | sendWoken (t : T) (tick : UInt32)
  | urgent (t : T) (data : List UInt8)
  | fill (t : T)
  | link (t : T)
  | recv (t : T) (size : Nat) (timeout : Int32) (tick : UInt32)
  | recvWoken (t : T) (tick : UInt32)
  | empty (t : T)
  | free (t : T)
  | reset
  | timeout (t : T)

def mqStep (priority : Bool) (w : MqWorld T) : MqAction T → Option (MqWorld T × Option (MqEvent T))
  | .send t data prio timeout tick =>
    if (w.waits.thread t).suspended ∨ w.call t ≠ .idle then none
    else some (mqSendWait w t data prio timeout tick)
  | .sendWoken t tick =>
    match w.call t with
    | .sending data prio timeout tickDelta =>
      if (w.waits.thread t).suspended then none
      else some (mqSendWoken w t data prio timeout tickDelta tick)
    | _ => none
  | .urgent t data =>
    if (w.waits.thread t).suspended ∨ w.call t ≠ .idle then none else some (mqUrgent w t data)
  | .fill t =>
    match w.call t with
    | .filling msg data prio urgent => some (mqFill w t msg data prio urgent)
    | _ => none
  | .link t =>
    match w.call t with
    | .linking msg data prio urgent => some (mqLink priority w t msg data prio urgent)
    | _ => none
  | .recv t size timeout tick =>
    if (w.waits.thread t).suspended ∨ w.call t ≠ .idle then none
    else some (mqRecv w t size timeout tick)
  | .recvWoken t tick =>
    match w.call t with
    | .receiving size timeout tickDelta =>
      if (w.waits.thread t).suspended then none
      else some (mqRecvWoken w t size timeout tickDelta tick)
    | _ => none
  | .empty t =>
    match w.call t with
    | .emptying msg size => some (mqEmpty w t msg size)
    | _ => none
  | .free t =>
    match w.call t with
    | .freeing msg size buffer prio => some (mqFree w t msg size buffer prio)
    | _ => none
  | .reset => some (mqReset w)
  | .timeout t =>
    if (w.waits.thread t).suspended ∧ (w.waits.thread t).timer then
      some ({ w with waits := threadTimeout w.waits t }, none)
    else none

/-- The state rt_mq_init leaves for a pool of `maxMsgs` nodes, whatever the pool held before. -/
def mqInitial (pool : Nat → MqMessage) (msgSize maxMsgs : UInt16) (flag : IpcFlag)
    (priority : T → UInt8) : MqWorld T where
  obj := MessageQueue.initFree ⟨pool, msgSize, maxMsgs, 0, none, none, none, flag⟩ maxMsgs.toNat
  waits := Waits.initial priority
  call _ := .idle

end

end RtThread.Ipc
