import RtThread.Kernel.Machine

/-! What a step can do, case by case. -/

set_option autoImplicit false

namespace RtThread.Kernel

open Machine

/-- The current thread `c` runs, in a system nothing has gone wrong in. -/
structure Runs (s : Machine) (c : Tid) : Prop where
  clear : s.system.sched.fault = none
  current : s.system.sched.current = some c

/-- The current thread `c` is between two calls. -/
structure Calls (s : Machine) (c : Tid) : Prop extends Runs s c where
  user : s.pc c = .user

/-- `rt_schedule` -/
def dispatch (priorityMax : Nat) (k : System) : System := k.setSched (rtSchedule priorityMax k.sched)

inductive Effect (priorityMax : Nat) (idle : Tid) (fuel : Nat) (s : Machine) : Action → Machine → Prop where
  | start : s.system.sched.fault = none → s.system.sched.current = none →
      (s.system.sched.thread idle).stat = .ready →
      Effect priorityMax idle fuel s .start
        (s.become (s.system.setSched (rtSystemSchedulerStart priorityMax s.system.sched)))
  | startupBoot (t : Tid) : s.system.sched.fault = none → s.system.sched.current = none →
      (s.system.sched.thread t).stat = .init →
      Effect priorityMax idle fuel s (.startup t)
        (s.become (s.system.setSched (rtThreadStartup priorityMax s.system.sched t)))
  | startup (t c : Tid) : Calls s c → (s.system.sched.thread t).stat = .init →
      Effect priorityMax idle fuel s (.startup t)
        (s.goto (s.system.setSched (rtThreadStartup priorityMax s.system.sched t)) c .schedule)
  | takeReturn (c : Tid) (m : Mid) (timeout : Int) (suspendFlag : SuspendFlag) (err : Err) (k : System) : Calls s c →
      mayBlock idle s c → rtMutexTake priorityMax fuel s.system c m timeout suspendFlag = (.returns err, k) →
      Effect priorityMax idle fuel s (.take m timeout suspendFlag) (s.returnTake k c m err)
  | takeWait (c : Tid) (m : Mid) (timeout : Int) (suspendFlag : SuspendFlag) (k : System) : Calls s c →
      mayBlock idle s c → rtMutexTake priorityMax fuel s.system c m timeout suspendFlag = (.waits, k) →
      Effect priorityMax idle fuel s (.take m timeout suspendFlag) (s.goto k c (.takeSchedule m))
  | release (c : Tid) (m : Mid) (needSchedule : Bool) (k : System) : Calls s c →
      rtMutexRelease priorityMax s.system c m = (.ok, needSchedule, k) →
      Effect priorityMax idle fuel s (.release m)
        ((s.goto k c (if needSchedule then .schedule else .user)).setCount c m (s.count c m - 1))
  | refused (c : Tid) (m : Mid) (needSchedule : Bool) (err : Err) (k : System) : Calls s c →
      rtMutexRelease priorityMax s.system c m = (err, needSchedule, k) → err ≠ .ok →
      Effect priorityMax idle fuel s (.release m) (s.goto k c (if needSchedule then .schedule else .user))
  | setprioceiling (c : Tid) (m : Mid) (priority : Nat) : Calls s c → priority < priorityMax →
      Effect priorityMax idle fuel s (.setprioceiling m priority)
        (s.become (rtMutexSetprioceiling priorityMax fuel s.system m priority))
  | waitReturn (c : Tid) (o : Nat) (prio : Bool) (timeout : Int) (suspendFlag : SuspendFlag) (err : Err) (k : System) :
      Calls s c → mayBlock idle s c →
      objectWait priorityMax s.system c o prio timeout suspendFlag = (.returns err, k) →
      Effect priorityMax idle fuel s (.wait o prio timeout suspendFlag) (s.goto k c .user)
  | wait (c : Tid) (o : Nat) (prio : Bool) (timeout : Int) (suspendFlag : SuspendFlag) (k : System) : Calls s c →
      mayBlock idle s c → objectWait priorityMax s.system c o prio timeout suspendFlag = (.waits, k) →
      Effect priorityMax idle fuel s (.wait o prio timeout suspendFlag) (s.goto k c .schedule)
  | wake (c t : Tid) (err : Err) (o : Nat) : Runs s c → (s.system.sched.thread t).tlist = some (.object o) →
      Effect priorityMax idle fuel s (.wake t err) (s.become (objectWake priorityMax s.system t err))
  | sleep (c : Tid) (err : Err) (k : System) : Calls s c → mayBlock idle s c →
      rtThreadSleep priorityMax s.system c = (err, k) →
      Effect priorityMax idle fuel s .sleep (s.goto k c (if err = .ok then .sleepMark else .user))
  | suspend (c : Tid) (suspendFlag : SuspendFlag) : Calls s c → c ≠ idle →
      Effect priorityMax idle fuel s (.suspend suspendFlag)
        (s.become (s.system.setSched (rtThreadSuspendWithFlag priorityMax s.system.sched c suspendFlag).2))
  | resume (c t : Tid) : Calls s c →
      Effect priorityMax idle fuel s (.resume t)
        (s.become (s.system.setSched (rtThreadResume priorityMax s.system.sched t).2))
  | resumeCheck (c t : Tid) : Calls s c →
      Effect priorityMax idle fuel s (.resumeCheck t)
        (s.goto s.system c (if (s.system.sched.thread t).stat.suspended then .resumeRemove t else .user))
  | yield (c : Tid) : Calls s c →
      Effect priorityMax idle fuel s .yield (s.goto (s.system.setSched (rtThreadYield s.system.sched c)) c .schedule)
  | changePriority (c t : Tid) (priority : Nat) : Calls s c → priority < priorityMax →
      Effect priorityMax idle fuel s (.changePriority t priority)
        (s.become (s.system.setSched (changePriority priorityMax s.system.sched t priority)))
  | detach (c t : Tid) : Calls s c → t ≠ idle →
      Effect priorityMax idle fuel s (.detach t) (s.become (rtThreadDetach priorityMax fuel s.system t))
  | exit (c : Tid) : Calls s c → c ≠ idle → (s.system.sched.thread c).stat ≠ .close →
      Effect priorityMax idle fuel s .exit (s.goto (threadExit priorityMax s.system c) c .schedule)
  | enterCritical (c : Tid) : Calls s c →
      Effect priorityMax idle fuel s .enterCritical (s.become (s.system.setSched (rtEnterCritical s.system.sched)))
  | exitCritical (c : Tid) : Calls s c →
      Effect priorityMax idle fuel s .exitCritical
        (s.goto (s.system.setSched (rtExitCritical s.system.sched)) c
          (if (rtExitCritical s.system.sched).lockNest = 0 then .schedule else .user))
  | takeSchedule (c : Tid) (m : Mid) : Runs s c → s.pc c = .takeSchedule m →
      Effect priorityMax idle fuel s .proceed (s.goto (dispatch priorityMax s.system) c (.takeCheck m))
  | takeCheck (c : Tid) (m : Mid) : Runs s c → s.pc c = .takeCheck m →
      Effect priorityMax idle fuel s .proceed
        (s.returnTake (takeCheck priorityMax fuel s.system c m).2 c m (takeCheck priorityMax fuel s.system c m).1)
  | schedule (c : Tid) : Runs s c → s.pc c = .schedule →
      Effect priorityMax idle fuel s .proceed (s.goto (dispatch priorityMax s.system) c .user)
  | sleepMark (c : Tid) : Runs s c → s.pc c = .sleepMark →
      Effect priorityMax idle fuel s .proceed (s.goto (s.system.setError c .intr) c .sleepSchedule)
  | sleepSchedule (c : Tid) : Runs s c → s.pc c = .sleepSchedule →
      Effect priorityMax idle fuel s .proceed (s.goto (dispatch priorityMax s.system) c .sleepReturn)
  | sleepReturn (c : Tid) : Runs s c → s.pc c = .sleepReturn →
      Effect priorityMax idle fuel s .proceed
        (s.goto (if (s.system.ipc c).error = .timeout then s.system.setError c .ok else s.system) c .user)
  | resumeRemove (c t : Tid) : Runs s c → s.pc c = .resumeRemove t →
      Effect priorityMax idle fuel s .proceed
        (s.goto (s.system.setSched (resumeRemove s.system.sched t)) c (.resumeInsert t))
  | resumeInsert (c t : Tid) : Runs s c → s.pc c = .resumeInsert t →
      Effect priorityMax idle fuel s .proceed
        (s.goto (s.system.setSched (rtScheduleInsertThread priorityMax s.system.sched t)) c .user)
  | expire (c t : Tid) : Runs s c → (s.system.sched.thread t).timer = true →
      Effect priorityMax idle fuel s (.expire t) (s.become (threadExpire priorityMax s.system t))
  | tick (c : Tid) : Runs s c →
      Effect priorityMax idle fuel s .tick
        (s.become (s.system.setSched (rtTickIncrease priorityMax s.system.sched c)))
  | preempt (c : Tid) : Runs s c →
      Effect priorityMax idle fuel s .preempt (s.become (dispatch priorityMax s.system))

section
variable {priorityMax : Nat} {idle : Tid} {fuel : Nat} {s s' : Machine} {action : Action}

theorem run_some {body : Tid → Option Machine} (done : s.run body = some s') : ∃ c, Runs s c ∧ body c = some s' := by
  unfold Machine.run at done
  split at done
  case isTrue clear =>
    cases current : s.system.sched.current with
    | none => rw [current] at done; cases done
    | some c => rw [current] at done; exact ⟨c, ⟨clear, current⟩, done⟩
  case isFalse => cases done

theorem call_some {body : Tid → Option Machine} (done : s.call body = some s') : ∃ c, Calls s c ∧ body c = some s' := by
  obtain ⟨c, runs, done⟩ := run_some done
  split at done
  case isTrue user => exact ⟨c, ⟨runs, user⟩, done⟩
  case isFalse => cases done

theorem proceed_effect {c : Tid} (runs : Runs s c) (done : proceed priorityMax fuel s c = some s') :
    Effect priorityMax idle fuel s .proceed s' := by
  unfold proceed at done
  cases at_ : s.pc c <;> rw [at_] at done <;> cases done
  case takeSchedule m => exact .takeSchedule c m runs at_
  case takeCheck m => exact .takeCheck c m runs at_
  case schedule => exact .schedule c runs at_
  case sleepMark => exact .sleepMark c runs at_
  case sleepSchedule => exact .sleepSchedule c runs at_
  case sleepReturn => exact .sleepReturn c runs at_
  case resumeRemove t => exact .resumeRemove c t runs at_
  case resumeInsert t => exact .resumeInsert c t runs at_

theorem perform_effect (done : perform priorityMax idle fuel s action = some s') :
    Effect priorityMax idle fuel s action s' := by
  cases action with
  | start =>
    simp only [perform] at done
    split at done
    case isFalse => cases done
    case isTrue pre => cases done; exact .start pre.1 pre.2.1 pre.2.2
  | startup t =>
    simp only [perform] at done
    split at done
    case isTrue => cases done
    case isFalse init =>
      have init := not_not.mp init
      cases current : s.system.sched.current with
      | none =>
        simp only [current] at done
        split at done
        case isFalse => cases done
        case isTrue clear => cases done; exact .startupBoot t clear current init
      | some _ =>
        simp only [current] at done
        obtain ⟨c, calls, done⟩ := call_some done
        cases done
        exact .startup t c calls init
  | take m timeout suspendFlag =>
    obtain ⟨c, calls, done⟩ := call_some done
    split at done
    case isFalse => cases done
    case isTrue may =>
      split at done
      case h_1 err k result => cases done; exact .takeReturn c m timeout suspendFlag err k calls may result
      case h_2 k result => cases done; exact .takeWait c m timeout suspendFlag k calls may result
  | release m =>
    obtain ⟨c, calls, done⟩ := call_some done
    rcases result : rtMutexRelease priorityMax s.system c m with ⟨err, needSchedule, k⟩
    simp only [result] at done
    split at done
    case isTrue ok => subst ok; cases done; exact .release c m needSchedule k calls result
    case isFalse failed => cases done; exact .refused c m needSchedule err k calls result failed
  | setprioceiling m priority =>
    obtain ⟨c, calls, done⟩ := call_some done
    split at done
    case isFalse => cases done
    case isTrue bound => cases done; exact .setprioceiling c m priority calls bound
  | wait o prio timeout suspendFlag =>
    obtain ⟨c, calls, done⟩ := call_some done
    split at done
    case isFalse => cases done
    case isTrue may =>
      split at done
      case h_1 err k result => cases done; exact .waitReturn c o prio timeout suspendFlag err k calls may result
      case h_2 k result => cases done; exact .wait c o prio timeout suspendFlag k calls may result
  | wake t err =>
    obtain ⟨c, runs, done⟩ := run_some done
    split at done
    case h_1 o link => cases done; exact .wake c t err o runs link
    case h_2 => cases done
  | sleep =>
    obtain ⟨c, calls, done⟩ := call_some done
    split at done
    case isFalse => cases done
    case isTrue may =>
      rcases result : rtThreadSleep priorityMax s.system c with ⟨err, k⟩
      simp only [result] at done
      cases done
      exact .sleep c err k calls may result
  | suspend suspendFlag =>
    obtain ⟨c, calls, done⟩ := call_some done
    split at done
    case isTrue => cases done
    case isFalse busy => cases done; exact .suspend c suspendFlag calls busy
  | resume t => obtain ⟨c, calls, done⟩ := call_some done; cases done; exact .resume c t calls
  | resumeCheck t => obtain ⟨c, calls, done⟩ := call_some done; cases done; exact .resumeCheck c t calls
  | yield => obtain ⟨c, calls, done⟩ := call_some done; cases done; exact .yield c calls
  | changePriority t priority =>
    obtain ⟨c, calls, done⟩ := call_some done
    split at done
    case isFalse => cases done
    case isTrue bound => cases done; exact .changePriority c t priority calls bound
  | detach t =>
    obtain ⟨c, calls, done⟩ := call_some done
    split at done
    case isTrue => cases done
    case isFalse other => cases done; exact .detach c t calls other
  | exit =>
    obtain ⟨c, calls, done⟩ := call_some done
    split at done
    case isTrue => cases done
    case isFalse may =>
      cases done
      rw [not_or] at may
      exact .exit c calls may.1 may.2
  | enterCritical => obtain ⟨c, calls, done⟩ := call_some done; cases done; exact .enterCritical c calls
  | exitCritical => obtain ⟨c, calls, done⟩ := call_some done; cases done; exact .exitCritical c calls
  | proceed => obtain ⟨c, runs, done⟩ := run_some done; exact proceed_effect runs done
  | expire t =>
    obtain ⟨c, runs, done⟩ := run_some done
    split at done
    case isFalse => cases done
    case isTrue timer => cases done; exact .expire c t runs timer
  | tick => obtain ⟨c, runs, done⟩ := run_some done; obtain rfl := Option.some.inj done; exact .tick c runs
  | preempt => obtain ⟨c, runs, done⟩ := run_some done; cases done; exact .preempt c runs

end

end RtThread.Kernel
