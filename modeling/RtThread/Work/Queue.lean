import RtThread.Timers.TimerList
import RtThread.Lib.Transition

/-! The work queue (`workqueue.c`): a worker thread takes items off a list, which they enter at once or when their
timers expire. Every locked section is a step of its own. -/

set_option autoImplicit false
namespace RtThread.Work
open Timers (rtTickMax)

/-- What the work queue relies on in the `struct rt_timer` of an item. -/
structure ItemTimer where
  /-- the object is one of RT_Object_Class_Timer -/
  attached : Bool
  /-- RT_TIMER_FLAG_ACTIVATED: linked in the soft timer list -/
  activated : Bool
  initTick : UInt32
  deriving DecidableEq

/-- `struct rt_work` without its list node and its function. -/
structure Item where
  /-- RT_WORK_STATE_PENDING and RT_WORK_STATE_SUBMITTING -/
  pending : Bool
  submitting : Bool
  /-- `workqueue` is the queue, and not RT_NULL -/
  workqueue : Bool
  timer : ItemTimer
  deriving DecidableEq

inductive Worker where
  /-- before the locked section of `_workqueue_thread_entry` -/
  | looking
  | suspended
  /-- in the function of `work_current` -/
  | working
  deriving DecidableEq

/-- The timer thread, between the locked section of `rt_soft_timer_check` and that of the timeout function. -/
inductive Handler (I : Type) where
  | idle
  | called (i : I)
  /-- `_delayed_work_timeout_handler` has found a queue -/
  | found (i : I)
  deriving DecidableEq

def Handler.item {I : Type} : Handler I → Option I
  | .idle => none
  | .called i | .found i => some i

/-- `struct rt_workqueue`, the items, and the calls that are under way. -/
structure WorkQueue (I : Type) where
  item : I → Item
  workList : List I
  delayedList : List I
  workCurrent : Option I
  worker : Worker
  handler : Handler I
  /-- items whose submission is before `rt_timer_start`, and in it behind its assertion -/
  starting : List I
  checked : List I

inductive WorkEvent (I : Type) where
  | quiet
  /-- RT_EOK, -RT_EBUSY and -RT_ERROR -/
  | ok
  | busy
  | error
  /-- the end of the locked section of a submission with delay, which returns RT_EOK behind `rt_timer_start` -/
  | delayed
  | took (i : I)
  /-- an assertion fails, or a timer is initialised in the list: the caller stops there -/
  | failed
  deriving DecidableEq

namespace ItemTimer
variable (timer : ItemTimer) (ticks : UInt32)

def rtTimerInit : Option ItemTimer :=
  if timer.attached = false ∧ timer.activated = false ∧ ticks < rtTickMax / 2 then some ⟨true, false, ticks⟩ else none

def rtTimerStop : Option ItemTimer :=
  if timer.attached then some { timer with activated := false } else none

/-- RT_TIMER_CTRL_SET_TIME of `rt_timer_control` -/
def rtTimerSetTime : Option ItemTimer :=
  if timer.attached ∧ ticks < rtTickMax / 2 then some { timer with initTick := ticks } else none

def rtTimerDetach : Option ItemTimer :=
  if timer.attached then some { timer with attached := false, activated := false } else none

end ItemTimer

namespace Item
variable (k : Item)

def arm (ticks : UInt32) : Option Item :=
  if k.submitting then
    (k.timer.rtTimerStop.bind (·.rtTimerSetTime ticks)).map fun timer => { k with timer }
  else (k.timer.rtTimerInit ticks).map fun timer => { k with timer, submitting := true }

/-- The timer part of `_workqueue_cancel_work`. -/
def disarm : Option Item :=
  if k.submitting then
    (k.timer.rtTimerStop.bind (·.rtTimerDetach)).map fun timer => { k with timer, submitting := false }
  else some k

end Item

section
variable {I : Type} [DecidableEq I]

namespace WorkQueue
variable (w : WorkQueue I) (i : I)

def set (k : Item) : WorkQueue I := { w with item := Function.update w.item i k }

/-- `rt_list_remove` of the node of an item. -/
def listRemove : WorkQueue I := { w with workList := w.workList.erase i, delayedList := w.delayedList.erase i }

/-- `rt_list_insert_after(queue->work_list.prev, &(work->list))` -/
def workTail : WorkQueue I := { w with workList := w.workList ++ [i] }

def delayedTail : WorkQueue I := { w with delayedList := w.delayedList ++ [i] }

omit [DecidableEq I] in
def resume : WorkQueue I :=
  if w.workCurrent = none ∧ w.worker = .suspended then { w with worker := .looking } else w

end WorkQueue

variable (w : WorkQueue I) (i : I)

/-- The locked section of `_workqueue_submit_work`. -/
def workqueueSubmitWork (ticks : UInt32) : Option (WorkQueue I × WorkEvent I) :=
  let w := w.listRemove i
  let k : Item := { w.item i with pending := false }
  if ticks = 0 then
    some (((w.workTail i).set i { k with pending := true, workqueue := true }).resume, .ok)
  else if ticks < rtTickMax / 2 then
    (k.arm ticks).map fun k =>
      ({ (w.set i { k with workqueue := true }).delayedTail i with starting := i :: w.starting }, .delayed)
  else some (w.set i k, .error)

/-- rt_workqueue_submit_work up to its `rt_timer_start`; `rt_workqueue_dowork` is that of 0 ticks. -/
def rtWorkqueueSubmitWork (ticks : UInt32) : Option (WorkQueue I × WorkEvent I) :=
  if ticks < rtTickMax / 2 then workqueueSubmitWork w i ticks else none

/-- The assertion of the `rt_timer_start` of a submission. -/
def rtTimerStartCheck : Option (WorkQueue I × WorkEvent I) :=
  if (w.item i).timer.attached then
    some ({ w with starting := w.starting.erase i, checked := i :: w.checked }, .quiet)
  else none

/-- The rest of that `rt_timer_start`. -/
def rtTimerStart : WorkQueue I :=
  let k := w.item i
  { w.set i { k with timer := { k.timer with activated := true } } with checked := w.checked.erase i }

def workqueueCancelWork : Option (WorkQueue I × WorkEvent I) :=
  let w := w.listRemove i
  let k : Item := { w.item i with pending := false }
  k.disarm.map fun k =>
    (w.set i { k with workqueue := false }, if w.workCurrent = some i then .busy else .ok)

def rtWorkqueueUrgentWork : WorkQueue I :=
  let w := w.listRemove i
  let w := { w with workList := i :: w.workList }
  w.resume

/-- The locked section of `rt_soft_timer_check` in front of the timeout function of an item. -/
def softTimerExpire : WorkQueue I :=
  let k := w.item i
  { w.set i { k with timer := { k.timer with activated := false } } with handler := .called i }

/-- The locked section of `_delayed_work_timeout_handler`. -/
def delayedWorkTimeoutHandler : Option (WorkQueue I × WorkEvent I) :=
  (w.item i).timer.rtTimerDetach.map fun timer =>
    let k : Item := { w.item i with timer, submitting := false }
    let w : WorkQueue I := { w.listRemove i with handler := .idle }
    let w := if w.workCurrent = some i then w.set i k else (w.workTail i).set i { k with pending := true }
    (w.resume, .quiet)

/-- The locked section of `_workqueue_thread_entry`. -/
def workqueueThreadEntry : WorkQueue I × WorkEvent I :=
  match w.workList with
  | [] => ({ w with worker := .suspended }, .quiet)
  | i :: _ =>
    let w := { w.listRemove i with workCurrent := some i, worker := .working }
    (w.set i { w.item i with pending := false, workqueue := false }, .took i)

inductive WorkAction (I : Type) where
  | submit (i : I) (ticks : UInt32)
  | timerCheck (i : I)
  | timerStart (i : I)
  | cancel (i : I)
  | urgent (i : I)
  /-- a timer is due -/
  | expire (i : I)
  /-- `queue = work->workqueue` and the assertion of the timeout function -/
  | enter (i : I)
  | timeout (i : I)
  | take
  /-- the function of `work_current` has returned -/
  | done
  deriving DecidableEq

def asserted (result : Option (WorkQueue I × WorkEvent I)) : Option (WorkQueue I × WorkEvent I) :=
  some (result.getD (w, .failed))

def workStep : WorkAction I → Option (WorkQueue I × WorkEvent I)
  | .submit i ticks => asserted w (rtWorkqueueSubmitWork w i ticks)
  | .timerCheck i => if i ∈ w.starting then asserted w (rtTimerStartCheck w i) else none
  | .timerStart i => if i ∈ w.checked then some (rtTimerStart w i, .ok) else none
  | .cancel i => asserted w (workqueueCancelWork w i)
  | .urgent i => some (rtWorkqueueUrgentWork w i, .ok)
  | .expire i => if w.handler = .idle ∧ (w.item i).timer.activated then some (softTimerExpire w i, .quiet) else none
  | .enter i =>
    if w.handler = .called i then
      asserted w (if (w.item i).workqueue then some ({ w with handler := .found i }, .quiet) else none)
    else none
  | .timeout i => if w.handler = .found i then asserted w (delayedWorkTimeoutHandler w i) else none
  | .take => if w.worker = .looking then some (workqueueThreadEntry w) else none
  | .done => if w.worker = .working then some ({ w with workCurrent := none, worker := .looking }, .quiet) else none

omit [DecidableEq I] in
/-- Behind `rt_workqueue_create` and the `rt_work_init` of every item; a timer is not initialised there. -/
def workInitial : WorkQueue I :=
  ⟨fun _ => ⟨false, false, false, ⟨false, false, 0⟩⟩, [], [], none, .looking, .idle, [], []⟩

end

end RtThread.Work
