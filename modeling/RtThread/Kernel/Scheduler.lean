import Mathlib.Algebra.Group.Nat.Defs
import RtThread.Kernel.ReadyBitmap

/-! The uniprocessor scheduler (`scheduler_up.c`) and the thread states it
moves threads between (`thread.c`).

A thread's `tlist` node links it into at most one list. The node names the
list it is in, and a list is the sequence of its threads from the head on.
-/

set_option autoImplicit false

namespace RtThread.Kernel

abbrev Tid := Nat

abbrev Mid := Nat

/-- `RT_INTERRUPTIBLE`, `RT_KILLABLE` and `RT_UNINTERRUPTIBLE` -/
inductive SuspendFlag where
  | interruptible | killable | uninterruptible
  deriving DecidableEq, Repr

/-- The bits of `stat` under `RT_THREAD_STAT_MASK`. -/
inductive Stat where
  | init | close | ready | running
  | suspend (flag : SuspendFlag)
  deriving DecidableEq, Repr

/-- `(stat & RT_THREAD_SUSPEND_MASK) == RT_THREAD_SUSPEND_MASK` -/
def Stat.suspended : Stat → Bool
  | .suspend _ => true
  | _ => false

/-- The lists a thread's `tlist` can be linked into. -/
inductive Queue where
  /-- `rt_thread_priority_table[priority]` -/
  | ready (priority : Nat)
  /-- `suspend_thread` of a mutex -/
  | mutex (m : Mid)
  /-- a list of suspended threads of another IPC object -/
  | object (o : Nat)
  /-- `_rt_thread_defunct` -/
  | defunct
  deriving DecidableEq, Repr

inductive Fault where
  /-- a field of `mutex->owner` read while it is `RT_NULL` -/
  | nullOwner
  /-- a field of `rt_current_thread` read while it is `RT_NULL` -/
  | nullThread
  /-- a node inserted while it is linked -/
  | linkedNode
  /-- the head of an empty ready list taken for a thread -/
  | emptyReadyList
  /-- a failed `RT_ASSERT` -/
  | assertion
  /-- a recursion deeper than it was given room for -/
  | unfinished
  deriving DecidableEq, Repr

/-- `rt_err_t` -/
inductive Err where
  | ok | error | timeout | full | inval | intr
  deriving DecidableEq, Repr

/-- The part of `struct rt_thread` the scheduler works on. -/
structure Thread where
  stat : Stat
  /-- `RT_THREAD_STAT_YIELD` -/
  yield : Bool
  initPriority : Nat
  currentPriority : Nat
  mask : PriorityMask
  initTick : Nat
  remainingTick : Nat
  /-- `thread_timer` is activated -/
  timer : Bool
  tlist : Option Queue
  deriving DecidableEq, Repr

structure Sched where
  thread : Tid → Thread
  queue : Queue → List Tid
  bitmap : ReadyBitmap
  /-- `rt_current_thread` -/
  current : Option Tid
  /-- `rt_scheduler_lock_nest` -/
  lockNest : Nat
  fault : Option Fault

namespace Sched

variable (k : Sched)

def setThread (t : Tid) (value : Thread) : Sched := { k with thread := Function.update k.thread t value }

def setStat (t : Tid) (stat : Stat) : Sched := k.setThread t { k.thread t with stat := stat }

def setYield (t : Tid) (yield : Bool) : Sched := k.setThread t { k.thread t with yield := yield }

/-- `rt_timer_start` and `rt_timer_stop` of `thread_timer` -/
def setTimer (t : Tid) (active : Bool) : Sched := k.setThread t { k.thread t with timer := active }

def setLink (t : Tid) (link : Option Queue) : Sched := k.setThread t { k.thread t with tlist := link }

def setQueue (q : Queue) (list : List Tid) : Sched := { k with queue := Function.update k.queue q list }

def setCurrent (t : Tid) : Sched := { k with current := some t }

def fail (cause : Fault) : Sched := { k with fault := k.fault.or (some cause) }

/-- `rt_list_remove(&(thread->tlist))` -/
def rtListRemove (t : Tid) : Sched :=
  match (k.thread t).tlist with
  | none => k
  | some q => (k.setQueue q ((k.queue q).erase t)).setLink t none

/-- Insertion of a node into the list `q`, at the place `place` finds. -/
def rtListInsert (q : Queue) (t : Tid) (place : List Tid → List Tid) : Sched :=
  match (k.thread t).tlist with
  | none => (k.setQueue q (place (k.queue q))).setLink t (some q)
  | some _ => k.fail .linkedNode

/-- `rt_list_insert_after` the head of a list -/
def insertFront (q : Queue) (t : Tid) : Sched := k.rtListInsert q t fun list => t :: list

/-- `rt_list_insert_before` the head of a list -/
def insertBack (q : Queue) (t : Tid) : Sched := k.rtListInsert q t fun list => list ++ [t]

end Sched

def insertByPriority (priority : Tid → Nat) (t : Tid) : List Tid → List Tid
  | [] => [t]
  | s :: rest => if priority t < priority s then t :: s :: rest else s :: insertByPriority priority t rest

section
variable (priorityMax : Nat)

open Sched

def rtScheduleInsertThread (k : Sched) (t : Tid) : Sched :=
  if k.current = some t then k.setStat t .running
  else
    let k := k.setStat t .ready
    let k := if (k.thread t).yield then k.insertBack (.ready (k.thread t).currentPriority) t
      else k.insertFront (.ready (k.thread t).currentPriority) t
    { k with bitmap := k.bitmap.set priorityMax (k.thread t).mask }

def rtScheduleRemoveThread (k : Sched) (t : Tid) : Sched :=
  let k := k.rtListRemove t
  if k.queue (.ready (k.thread t).currentPriority) = [] then
    { k with bitmap := k.bitmap.clear priorityMax (k.thread t).mask }
  else k

/-- The tail of `rt_schedule` when `to_thread` is not the current thread. -/
def switchTo (k : Sched) (fromThread toThread : Tid) (needInsertFromThread : Bool) : Sched :=
  let k := k.setCurrent toThread
  let k := if needInsertFromThread then rtScheduleInsertThread priorityMax k fromThread else k
  (rtScheduleRemoveThread priorityMax k toThread).setStat toThread .running

/-- The tail of `rt_schedule` when the current thread goes on. -/
def stayOn (k : Sched) (t : Tid) : Sched := (rtScheduleRemoveThread priorityMax k t).setStat t .running

/-- The current thread is ahead of the highest ready priority, or level with it and not yielding. -/
def keepsCpu (thread : Thread) (highest : Nat) : Bool :=
  thread.currentPriority < highest || (thread.currentPriority = highest && !thread.yield)

def rtSchedule (k : Sched) : Sched :=
  if k.lockNest = 0 ∧ k.bitmap.group ≠ 0#32 then
    let highest := k.bitmap.highest priorityMax
    match k.current, k.queue (.ready highest) with
    | none, _ => k.fail .nullThread
    | some _, [] => k.fail .emptyReadyList
    | some c, toThread :: _ =>
      let thread := k.thread c
      if thread.stat = .running then
        let k := k.setYield c false
        if keepsCpu thread highest then stayOn priorityMax k c else switchTo priorityMax k c toThread true
      else if toThread = c then stayOn priorityMax k c
      else switchTo priorityMax k c toThread false
  else k

def rtSystemSchedulerStart (k : Sched) : Sched :=
  match k.queue (.ready (k.bitmap.highest priorityMax)) with
  | [] => k.fail .emptyReadyList
  | toThread :: _ =>
    let k := rtScheduleRemoveThread priorityMax (k.setCurrent toThread) toThread
    (k.setStat toThread .running).setYield toThread false

def rtEnterCritical (k : Sched) : Sched := { k with lockNest := k.lockNest + 1 }

/-- `rt_exit_critical` up to its `rt_schedule`, which is reached when the last lock goes. -/
def rtExitCritical (k : Sched) : Sched := { k with lockNest := k.lockNest - 1 }

/-! ## Threads -/

/-- `rt_thread_suspend_with_flag` of the running thread. -/
def rtThreadSuspendWithFlag (k : Sched) (t : Tid) (flag : SuspendFlag) : Err × Sched :=
  if k.current ≠ some t then (.ok, k.fail .assertion)
  else if (k.thread t).stat = .ready ∨ (k.thread t).stat = .running then
    (.ok, ((rtScheduleRemoveThread priorityMax k t).setStat t (.suspend flag)).setTimer t false)
  else (.error, k)

/-- The first locked section of `rt_thread_resume`. -/
def resumeRemove (k : Sched) (t : Tid) : Sched := (k.rtListRemove t).setTimer t false

/-- `rt_thread_resume`, with no interruption between its sections. -/
def rtThreadResume (k : Sched) (t : Tid) : Err × Sched :=
  if (k.thread t).stat.suspended then (.ok, rtScheduleInsertThread priorityMax (resumeRemove k t) t)
  else (.error, k)

/-- `rt_thread_startup` up to its `rt_schedule`. -/
def rtThreadStartup (k : Sched) (t : Tid) : Sched :=
  if (k.thread t).stat ≠ .init then k.fail .assertion
  else
    let thread := k.thread t
    let k := k.setThread t { thread with
      mask := ReadyBitmap.maskOf priorityMax thread.currentPriority
      stat := .suspend .interruptible
      yield := false }
    (rtThreadResume priorityMax k t).2

/-- The current thread's share of `rt_thread_yield`, before `rt_schedule`. -/
def rtThreadYield (k : Sched) (t : Tid) : Sched :=
  k.setThread t { k.thread t with remainingTick := (k.thread t).initTick, yield := true }

/-- `--remaining_tick` on a 32-bit counter -/
def countDown (remaining : Nat) : Nat := (remaining + (2 ^ 32 - 1)) % 2 ^ 32

/-- The time slice in `rt_tick_increase`, with its `rt_schedule`. -/
def rtTickIncrease (k : Sched) (t : Tid) : Sched :=
  if countDown (k.thread t).remainingTick = 0 then rtSchedule priorityMax (rtThreadYield k t)
  else k.setThread t { k.thread t with remainingTick := countDown (k.thread t).remainingTick }

def changePriority (k : Sched) (t : Tid) (priority : Nat) : Sched :=
  let assign (k : Sched) := k.setThread t
    { k.thread t with currentPriority := priority, mask := ReadyBitmap.maskOf priorityMax priority }
  if (k.thread t).stat = .ready then
    rtScheduleInsertThread priorityMax (assign (rtScheduleRemoveThread priorityMax k t)) t
  else assign k

/-- The list work of `_thread_timeout`. -/
def threadTimeout (k : Sched) (t : Tid) : Sched :=
  if (k.thread t).stat.suspended then rtScheduleInsertThread priorityMax (k.rtListRemove t) t
  else k.fail .assertion

/-- `rt_thread_detach` and `rt_thread_delete` up to `stat = RT_THREAD_CLOSE`. -/
def closeThread (k : Sched) (t : Tid) : Sched :=
  let k := if (k.thread t).stat = .init then k else rtScheduleRemoveThread priorityMax k t
  k.setThread t { k.thread t with timer := false, stat := .close, yield := false }

/-- Where a waiting thread is queued: `RT_IPC_FLAG_PRIO` or `RT_IPC_FLAG_FIFO`. -/
def waitPlace (k : Sched) (prio : Bool) (t : Tid) (waiting : List Tid) : List Tid :=
  if prio then insertByPriority (fun s => (k.thread s).currentPriority) t waiting else waiting ++ [t]

def ipcListSuspend (k : Sched) (list : Queue) (t : Tid) (prio : Bool) (flag : SuspendFlag) : Err × Sched :=
  if (k.thread t).stat.suspended then (.ok, k.rtListInsert list t (waitPlace k prio t))
  else
    match rtThreadSuspendWithFlag priorityMax k t flag with
    | (.ok, k) => (.ok, k.rtListInsert list t (waitPlace k prio t))
    | (err, k) => (err, k)

def rtThreadDefunctEnqueue (k : Sched) (t : Tid) : Sched := k.insertFront .defunct t

end

end RtThread.Kernel
