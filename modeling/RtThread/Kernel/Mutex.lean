import RtThread.Kernel.Scheduler

/-! Mutexes with priority inheritance and ceilings (`ipc.c`), and the thread
calls that touch them (`thread.c`).

A call is cut where its source enables interrupts: each definition is one
locked section. A read of a field of `mutex->owner` while it is `RT_NULL`
ends the section in the fault `nullOwner`.
-/

set_option autoImplicit false

namespace RtThread.Kernel

/-- The part of `struct rt_thread` the IPC calls work on. -/
structure ThreadIpc where
  error : Err
  /-- the mutex `pending_object` names -/
  pendingObject : Option Mid
  takenObjectList : List Mid
  deriving DecidableEq, Repr

/-- `struct rt_mutex`; its list of suspended threads is `Queue.mutex`. -/
structure Mutex where
  owner : Option Tid
  hold : Nat
  priority : Nat
  ceilingPriority : Nat
  /-- the thread whose `taken_object_list` the `taken_list` node is linked into -/
  takenList : Option Tid
  deriving DecidableEq, Repr

structure System where
  sched : Sched
  ipc : Tid → ThreadIpc
  mutex : Mid → Mutex

inductive Outcome where
  | returns (err : Err)
  | waits
  deriving DecidableEq, Repr

namespace System

variable (k : System)

def setSched (sched : Sched) : System := { k with sched := sched }

def fail (cause : Fault) : System := k.setSched (k.sched.fail cause)

def setIpc (t : Tid) (value : ThreadIpc) : System := { k with ipc := Function.update k.ipc t value }

def setMutex (m : Mid) (value : Mutex) : System := { k with mutex := Function.update k.mutex m value }

def setError (t : Tid) (err : Err) : System := k.setIpc t { k.ipc t with error := err }

def setPendingObject (t : Tid) (pending : Option Mid) : System := k.setIpc t { k.ipc t with pendingObject := pending }

def setPriority (m : Mid) (priority : Nat) : System := k.setMutex m { k.mutex m with priority := priority }

/-- `rt_list_remove(&mutex->taken_list)` -/
def takenListRemove (m : Mid) : System :=
  match (k.mutex m).takenList with
  | none => k
  | some t => (k.setIpc t { k.ipc t with takenObjectList := (k.ipc t).takenObjectList.erase m }).setMutex m
      { k.mutex m with takenList := none }

/-- `rt_list_insert_after(&thread->taken_object_list, &mutex->taken_list)` -/
def takenListInsert (t : Tid) (m : Mid) : System :=
  match (k.mutex m).takenList with
  | none => (k.setIpc t { k.ipc t with takenObjectList := m :: (k.ipc t).takenObjectList }).setMutex m
      { k.mutex m with takenList := some t }
  | some _ => k.fail .linkedNode

/-- `thread->current_priority` -/
def currentPriority (t : Tid) : Nat := (k.sched.thread t).currentPriority

/-- the threads in `suspend_thread` of a mutex -/
def waiting (m : Mid) : List Tid := k.sched.queue (.mutex m)

end System

def rtMutexHoldMax : Nat := 255

/-- `mutex->hold --` on an 8-bit counter -/
def holdDown (hold : Nat) : Nat := (hold + 255) % 256

/-- The priority of the first thread of a list of suspended threads, `0xff` when there is none. -/
def firstPriority (k : System) : List Tid → Nat
  | [] => 0xff
  | t :: _ => k.currentPriority t

def mutexUpdatePriority (k : System) (m : Mid) : System := k.setPriority m (firstPriority k (k.waiting m))

def Mutex.demand (mutex : Mutex) : Nat :=
  if mutex.priority < mutex.ceilingPriority then mutex.priority else mutex.ceilingPriority

def threadGetMutexPriority (k : System) (t : Tid) : Nat :=
  (k.ipc t).takenObjectList.foldl
    (fun priority m => if priority > (k.mutex m).demand then (k.mutex m).demand else priority)
    (k.sched.thread t).initPriority

section
variable (priorityMax : Nat)

/-- `_thread_update_priority`. The first argument bounds the chain of owners it follows. -/
def threadUpdatePriority : Nat → System → Tid → Nat → SuspendFlag → System
  | 0, k, _, _, _ => k.fail .unfinished
  | fuel + 1, k, t, priority, suspendFlag =>
    let k := k.setSched (changePriority priorityMax k.sched t priority)
    if (k.sched.thread t).stat.suspended then
      match (k.ipc t).pendingObject with
      | none => k
      | some m =>
        let (ret, sched) := ipcListSuspend priorityMax (k.sched.rtListRemove t) (.mutex m) t true suspendFlag
        if ret ≠ .ok then k.setSched sched
        else
          let k := mutexUpdatePriority (k.setSched sched) m
          match (k.mutex m).owner with
          | none => k.fail .nullOwner
          | some owner =>
            let mutexPriority := threadGetMutexPriority k owner
            if mutexPriority ≠ k.currentPriority owner then
              threadUpdatePriority fuel k owner mutexPriority suspendFlag
            else k
    else k

/-- A thread no longer waits for `m`: the error path of `_rt_mutex_take`, and
`rt_mutex_drop_thread` once the thread is out of its list. -/
def leaveMutex (fuel : Nat) (k : System) (m : Mid) (t : Tid) : System :=
  match (k.mutex m).owner with
  | none => k.fail .nullOwner
  | some owner =>
    let needUpdate := k.currentPriority owner = k.currentPriority t
    let k := mutexUpdatePriority k m
    if needUpdate then
      let priority := threadGetMutexPriority k owner
      if priority ≠ k.currentPriority owner then
        threadUpdatePriority priorityMax fuel k owner priority .uninterruptible
      else k
    else k

def rtMutexDropThread (fuel : Nat) (k : System) (m : Mid) (t : Tid) : System :=
  leaveMutex priorityMax fuel (k.setSched (k.sched.rtListRemove t)) m t

/-- `_rt_mutex_take` of a mutex nobody owns. -/
def takeFree (fuel : Nat) (k : System) (t : Tid) (m : Mid) (suspendFlag : SuspendFlag) : System :=
  let k := k.setMutex m { k.mutex m with owner := some t, priority := 0xff, hold := 1 }
  let ceiling := (k.mutex m).ceilingPriority
  let k := if ceiling ≠ 0xff ∧ ceiling < k.currentPriority t then
      threadUpdatePriority priorityMax fuel k t ceiling suspendFlag
    else k
  k.takenListInsert t m

/-- `_rt_mutex_take` of another thread's mutex, up to the wait. -/
def takeWait (fuel : Nat) (k : System) (t : Tid) (m : Mid) (owner : Tid) (timeout : Int) (suspendFlag : SuspendFlag) :
    Outcome × System :=
  let priority := k.currentPriority t
  let (ret, sched) := ipcListSuspend priorityMax k.sched (.mutex m) t true suspendFlag
  if ret ≠ .ok then (.returns ret, k.setSched sched)
  else
    let k := (k.setSched sched).setPendingObject t (some m)
    let k := if priority < (k.mutex m).priority then
        let k := k.setPriority m priority
        if priority < k.currentPriority owner then
          threadUpdatePriority priorityMax fuel k owner priority .uninterruptible
        else k
      else k
    (.waits, if timeout > 0 then k.setSched (k.sched.setTimer t true) else k)

/-- The first locked section of `_rt_mutex_take`. -/
def rtMutexTake (fuel : Nat) (k : System) (t : Tid) (m : Mid) (timeout : Int) (suspendFlag : SuspendFlag) :
    Outcome × System :=
  let k := k.setError t .ok
  match (k.mutex m).owner with
  | none => (.returns .ok, takeFree priorityMax fuel k t m suspendFlag)
  | some owner =>
    if owner = t then
      if (k.mutex m).hold < rtMutexHoldMax then
        (.returns .ok, k.setMutex m { k.mutex m with hold := (k.mutex m).hold + 1 })
      else (.returns .full, k)
    else if timeout = 0 then (.returns .timeout, k.setError t .timeout)
    else takeWait priorityMax fuel k t m owner timeout suspendFlag

/-- The second locked section of `_rt_mutex_take`, when the thread runs again after its wait. -/
def takeCheck (fuel : Nat) (k : System) (t : Tid) (m : Mid) : Err × System :=
  if (k.ipc t).error = .ok then (.ok, k)
  else ((k.ipc t).error, leaveMutex priorityMax fuel k m t)

/-- `rt_mutex_release` hands the mutex to `next`, the first of its waiting threads. -/
def handOver (k : System) (m : Mid) (next : Tid) : System :=
  let k := k.setSched (k.sched.rtListRemove next)
  let k := k.setMutex m { k.mutex m with owner := some next, hold := 1 }
  let k := k.takenListInsert next m
  let k := k.setPendingObject next none
  let k := k.setSched (rtThreadResume priorityMax k.sched next).2
  mutexUpdatePriority k m

/-- `rt_mutex_release` up to its `rt_schedule`; the second part is `need_schedule`. -/
def rtMutexRelease (k : System) (t : Tid) (m : Mid) : Err × Bool × System :=
  if (k.mutex m).owner ≠ some t then (.error, false, k.setError t .error)
  else
    let k := k.setMutex m { k.mutex m with hold := holdDown (k.mutex m).hold }
    if (k.mutex m).hold ≠ 0 then (.ok, false, k)
    else
      let k := k.takenListRemove m
      let boosted := (k.mutex m).ceilingPriority ≠ 0xff ∨ k.currentPriority t = (k.mutex m).priority
      let k := if boosted then
          k.setSched (changePriority priorityMax k.sched t (threadGetMutexPriority k t))
        else k
      match k.waiting m with
      | [] => (.ok, decide boosted, k.setMutex m { k.mutex m with owner := none, priority := 0xff })
      | next :: _ => (.ok, true, handOver priorityMax k m next)

/-- `rt_mutex_setprioceiling` with a priority it accepts -/
def rtMutexSetprioceiling (fuel : Nat) (k : System) (m : Mid) (priority : Nat) : System :=
  let k := k.setMutex m { k.mutex m with ceilingPriority := priority }
  match (k.mutex m).owner with
  | none => k
  | some owner =>
    let priority := threadGetMutexPriority k owner
    if priority ≠ k.currentPriority owner then
      threadUpdatePriority priorityMax fuel k owner priority .uninterruptible
    else k

/-! ## Thread calls -/

/-- `rt_thread_detach` and `rt_thread_delete` -/
def rtThreadDetach (fuel : Nat) (k : System) (t : Tid) : System :=
  if (k.sched.thread t).stat = .close then k
  else
    let k := k.setSched (closeThread priorityMax k.sched t)
    let k := match (k.ipc t).pendingObject with
      | none => k
      | some m => (rtMutexDropThread priorityMax fuel k m t).setPendingObject t none
    k.setSched (rtThreadDefunctEnqueue k.sched t)

/-- `_thread_exit` up to its `rt_schedule` -/
def threadExit (k : System) (t : Tid) : System :=
  k.setSched (rtThreadDefunctEnqueue (closeThread priorityMax k.sched t) t)

/-- The expiry of a thread timer: the timer is stopped and `_thread_timeout` called, up to its
`rt_schedule`. -/
def threadExpire (k : System) (t : Tid) : System :=
  let k := k.setError t .timeout
  k.setSched (threadTimeout priorityMax (k.sched.setTimer t false) t)

/-- The locked section of `rt_thread_sleep`. -/
def rtThreadSleep (k : System) (t : Tid) : Err × System :=
  let k := k.setError t .ok
  let (err, sched) := rtThreadSuspendWithFlag priorityMax k.sched t .interruptible
  if err = .ok then (err, k.setSched (sched.setTimer t true)) else (err, k.setSched sched)

/-- The wait of `rt_sem_take`, `rt_event_recv`, `rt_mb_recv`, `rt_mb_send_wait` and their like, when
the object makes the thread wait. -/
def objectWait (k : System) (t : Tid) (o : Nat) (prio : Bool) (timeout : Int) (suspendFlag : SuspendFlag) :
    Outcome × System :=
  let k := k.setError t .intr
  let (ret, sched) := ipcListSuspend priorityMax k.sched (.object o) t prio suspendFlag
  if ret ≠ .ok then (.returns ret, k.setSched sched)
  else (.waits, k.setSched (if timeout > 0 then sched.setTimer t true else sched))

/-- What wakes a thread waiting for an object: `_ipc_list_resume`, `_ipc_list_resume_all` and
`rt_event_send` differ in the threads they choose and in the error they leave. -/
def objectWake (k : System) (t : Tid) (err : Err) : System :=
  let k := k.setError t err
  k.setSched (rtThreadResume priorityMax k.sched t).2

end

end RtThread.Kernel
