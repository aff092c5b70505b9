import RtThread.Lib.Transition
import RtThread.Kernel.Mutex

/-! The kernel running threads on one CPU.

A step is what runs between two points at which interrupts are enabled: a
locked section of the call the current thread is in, a dispatch, or the work
of an interrupt. Interrupts come at any such point, and the threads choose
their calls freely.
-/

set_option autoImplicit false

namespace RtThread.Kernel

inductive Pc where
  /-- between two calls -/
  | user
  /-- in `_rt_mutex_take`, before its `rt_schedule` -/
  | takeSchedule (m : Mid)
  /-- in `_rt_mutex_take`, after its `rt_schedule` -/
  | takeCheck (m : Mid)
  /-- in a call that ends in `rt_schedule` -/
  | schedule
  /-- in `rt_thread_sleep`, before `thread->error = -RT_EINTR` -/
  | sleepMark
  | sleepSchedule
  | sleepReturn
  /-- in `rt_thread_resume`, before its first locked section -/
  | resumeRemove (t : Tid)
  /-- in `rt_thread_resume`, before `rt_schedule_insert_thread` -/
  | resumeInsert (t : Tid)
  deriving DecidableEq, Repr

structure Machine where
  system : System
  pc : Tid → Pc
  /-- the takes of a thread that returned `RT_EOK` and that it has not released -/
  count : Tid → Mid → Nat
  /-- the thread and mutex of a take that has just returned `RT_EOK` -/
  taken : Option (Tid × Mid)

inductive Action where
  /-- `rt_system_scheduler_start` -/
  | start
  | startup (t : Tid)
  | take (m : Mid) (timeout : Int) (suspendFlag : SuspendFlag)
  | release (m : Mid)
  | setprioceiling (m : Mid) (priority : Nat)
  /-- a wait for a semaphore, an event, a mailbox or a message queue -/
  | wait (o : Nat) (prio : Bool) (timeout : Int) (suspendFlag : SuspendFlag)
  /-- such a wait of thread `t` is served -/
  | wake (t : Tid) (err : Err)
  | sleep
  | suspend (suspendFlag : SuspendFlag)
  /-- `rt_thread_resume`, with no interruption between its sections -/
  | resume (t : Tid)
  /-- `rt_thread_resume`, interrupted between its sections -/
  | resumeCheck (t : Tid)
  | yield
  | changePriority (t : Tid) (priority : Nat)
  | detach (t : Tid)
  | exit
  | enterCritical
  | exitCritical
  /-- the next section of the call the current thread is in -/
  | proceed
  /-- a thread timer expires -/
  | expire (t : Tid)
  /-- `rt_tick_increase` -/
  | tick
  /-- an interrupt ends in `rt_schedule` -/
  | preempt
  deriving DecidableEq, Repr

namespace Machine

variable (s : Machine)

def clear : Prop := s.system.sched.fault = none

instance : Decidable s.clear := inferInstanceAs (Decidable (_ = _))

/-- The current thread does `body`. -/
def run (body : Tid → Option Machine) : Option Machine :=
  if s.clear then
    match s.system.sched.current with
    | some c => body c
    | none => none
  else none

def call (body : Tid → Option Machine) : Option Machine :=
  s.run fun c => if s.pc c = .user then body c else none

/-- The system is in state `k`, and thread `c` goes on at `pc`. -/
def goto (k : System) (c : Tid) (pc : Pc) : Machine :=
  { s with system := k, pc := Function.update s.pc c pc, taken := none }

def become (k : System) : Machine := { s with system := k, taken := none }

def setCount (c : Tid) (m : Mid) (n : Nat) : Machine :=
  { s with count := Function.update s.count c (Function.update (s.count c) m n) }

/-- `_rt_mutex_take` of `m` returns. -/
def returnTake (k : System) (c : Tid) (m : Mid) (err : Err) : Machine :=
  if err = .ok then { (s.goto k c .user).setCount c m (s.count c m + 1) with taken := some (c, m) }
  else s.goto k c .user

end Machine

section
variable (priorityMax : Nat) (idle : Tid)

open Machine

/-- `RT_DEBUG_SCHEDULER_AVAILABLE`, and what every caller of a blocking call has: it is not
suspended already, and it is not the idle thread. -/
def mayBlock (s : Machine) (c : Tid) : Prop :=
  s.system.sched.lockNest = 0 ∧ (s.system.sched.thread c).stat.suspended = false ∧ c ≠ idle

instance (s : Machine) (c : Tid) : Decidable (mayBlock idle s c) := inferInstanceAs (Decidable (_ ∧ _))

/-- The next section of the call thread `c` is in. -/
def proceed (fuel : Nat) (s : Machine) (c : Tid) : Option Machine :=
  let k := s.system
  match s.pc c with
  | .user => none
  | .takeSchedule m => s.goto (k.setSched (rtSchedule priorityMax k.sched)) c (.takeCheck m)
  | .takeCheck m =>
    let (err, k) := takeCheck priorityMax fuel k c m
    s.returnTake k c m err
  | .schedule => s.goto (k.setSched (rtSchedule priorityMax k.sched)) c .user
  | .sleepMark => s.goto (k.setError c .intr) c .sleepSchedule
  | .sleepSchedule => s.goto (k.setSched (rtSchedule priorityMax k.sched)) c .sleepReturn
  | .sleepReturn => s.goto (if (k.ipc c).error = .timeout then k.setError c .ok else k) c .user
  | .resumeRemove t => s.goto (k.setSched (resumeRemove k.sched t)) c (.resumeInsert t)
  | .resumeInsert t => s.goto (k.setSched (rtScheduleInsertThread priorityMax k.sched t)) c .user

def perform (fuel : Nat) (s : Machine) : Action → Option Machine
  | .start =>
    if s.clear ∧ s.system.sched.current = none ∧ (s.system.sched.thread idle).stat = .ready then
      some (s.become (s.system.setSched (rtSystemSchedulerStart priorityMax s.system.sched)))
    else none
  | .startup t =>
    if (s.system.sched.thread t).stat ≠ .init then none
    else
      let k := s.system.setSched (rtThreadStartup priorityMax s.system.sched t)
      match s.system.sched.current with
      | none => if s.clear then some (s.become k) else none
      | some _ => s.call fun c => s.goto k c .schedule
  | .take m timeout suspendFlag => s.call fun c =>
    if mayBlock idle s c then
      match rtMutexTake priorityMax fuel s.system c m timeout suspendFlag with
      | (.returns err, k) => s.returnTake k c m err
      | (.waits, k) => s.goto k c (.takeSchedule m)
    else none
  | .release m => s.call fun c =>
    let (err, needSchedule, k) := rtMutexRelease priorityMax s.system c m
    let s' := s.goto k c (if needSchedule then .schedule else .user)
    some (if err = .ok then s'.setCount c m (s.count c m - 1) else s')
  | .setprioceiling m priority => s.call fun _ =>
    if priority < priorityMax then some (s.become (rtMutexSetprioceiling priorityMax fuel s.system m priority)) else none
  | .wait o prio timeout suspendFlag => s.call fun c =>
    if mayBlock idle s c then
      match objectWait priorityMax s.system c o prio timeout suspendFlag with
      | (.returns _, k) => s.goto k c .user
      | (.waits, k) => s.goto k c .schedule
    else none
  | .wake t err => s.run fun _ =>
    match (s.system.sched.thread t).tlist with
    | some (.object _) => some (s.become (objectWake priorityMax s.system t err))
    | _ => none
  | .sleep => s.call fun c =>
    if mayBlock idle s c then
      let (err, k) := rtThreadSleep priorityMax s.system c
      s.goto k c (if err = .ok then .sleepMark else .user)
    else none
  | .suspend suspendFlag => s.call fun c =>
    if c = idle then none
    else some (s.become (s.system.setSched (rtThreadSuspendWithFlag priorityMax s.system.sched c suspendFlag).2))
  | .resume t => s.call fun _ => some (s.become (s.system.setSched (rtThreadResume priorityMax s.system.sched t).2))
  | .resumeCheck t => s.call fun c =>
    some (s.goto s.system c (if (s.system.sched.thread t).stat.suspended then .resumeRemove t else .user))
  | .yield => s.call fun c => some (s.goto (s.system.setSched (rtThreadYield s.system.sched c)) c .schedule)
  | .changePriority t priority => s.call fun _ =>
    if priority < priorityMax then
      some (s.become (s.system.setSched (changePriority priorityMax s.system.sched t priority)))
    else none
  | .detach t => s.call fun _ =>
    if t = idle then none else some (s.become (rtThreadDetach priorityMax fuel s.system t))
  | .exit => s.call fun c =>
    if c = idle ∨ (s.system.sched.thread c).stat = .close then none
    else some (s.goto (threadExit priorityMax s.system c) c .schedule)
  | .enterCritical => s.call fun _ => some (s.become (s.system.setSched (rtEnterCritical s.system.sched)))
  | .exitCritical => s.call fun c =>
    let sched := rtExitCritical s.system.sched
    some (s.goto (s.system.setSched sched) c (if sched.lockNest = 0 then .schedule else .user))
  | .proceed => s.run (proceed priorityMax fuel s)
  | .expire t => s.run fun _ =>
    if (s.system.sched.thread t).timer then some (s.become (threadExpire priorityMax s.system t)) else none
  | .tick => s.run fun c => some (s.become (s.system.setSched (rtTickIncrease priorityMax s.system.sched c)))
  | .preempt => s.run fun _ => some (s.become (s.system.setSched (rtSchedule priorityMax s.system.sched)))

def Step (s : Machine) (action : Action) (s' : Machine) : Prop :=
  ∃ fuel, perform priorityMax idle fuel s action = some s' ∧ s'.system.sched.fault ≠ some .unfinished

/-- The actions one after the other, each when `check` lets it pass. -/
def execute (check : Machine → Action → Bool) (fuel : Nat) : Machine → List Action → Option Machine
  | s, [] => some s
  | s, action :: rest =>
    if check s action then
      match perform priorityMax idle fuel s action with
      | some s' => if s'.system.sched.fault = some .unfinished then none else execute check fuel s' rest
      | none => none
    else none

/-- A run whose every step meets the condition `allowed` in the state it is taken in. -/
def Reaches (allowed : Machine → Action → Prop) (s : Machine) (actions : List Action) (s' : Machine) : Prop :=
  RtThread.Lib.Run (fun s action s' => Step priorityMax idle s action s' ∧ allowed s action) s actions s'

end

/-! ## Before the scheduler starts -/

/-- `_thread_init` -/
def Thread.initial (priority tick : Nat) : Thread where
  stat := .init
  yield := false
  initPriority := priority
  currentPriority := priority
  mask := .zero
  initTick := tick
  remainingTick := tick
  timer := false
  tlist := none

/-- `rt_mutex_init` -/
def Mutex.initial : Mutex where
  owner := none
  hold := 0
  priority := 0xff
  ceilingPriority := 0xff
  takenList := none

def Sched.initial (priority tick : Tid → Nat) : Sched where
  thread t := .initial (priority t) (tick t)
  queue _ := []
  bitmap := .empty
  current := none
  lockNest := 0
  fault := none

def Machine.initial (priority tick : Tid → Nat) : Machine where
  system :=
    { sched := .initial priority tick
      ipc := fun _ => { error := .ok, pendingObject := none, takenObjectList := [] }
      mutex := fun _ => .initial }
  pc _ := .user
  count _ _ := 0
  taken := none

end RtThread.Kernel
