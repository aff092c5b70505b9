import RtThread.Lib.Throughout
import Mathlib.Data.UInt

/-! `cputimer.c`: timers on one hardware timeout. -/

set_option autoImplicit false
namespace RtThread.Timers
open Lib

/-- Half the range of a tick, as `rt_cputimer_start` has it. -/
def cpuHalf : UInt64 := 0x7fffffffffffffff

structure Cputimer where
  timeoutTick : UInt64
  /-- RT_TIMER_FLAG_ACTIVATED -/
  activated : Bool

/-- The state of `cputimer.c` and of the hardware timeout. -/
structure Cputime (I : Type) where
  timer : I → Cputimer
  /-- `_cputimer_list` -/
  list : List I
  /-- `_cputimer_nowtimer` -/
  nowtimer : Option I
  /-- What `clock_cpu_settimeout` has programmed: the tick, and the timer for `_cputime_timeout_callback`. -/
  timeout : Option (UInt64 × I)
  -- marks of the model: the timers that have been stopped, deleted or detached and not started since, and whether the
  -- timeout function of one of them has been called
  stopped : I → Bool
  misfired : Bool

inductive CpuOp (I : Type) where
  | start (timer : I)
  | stop (timer : I)
  | delete (timer : I)
  | detach (timer : I)
  /-- `rt_cputimer_control` with RT_TIMER_CTRL_SET_TIME, at the time `now`, of a timer that is not in the list -/
  | setTime (timer : I) (arg now : UInt64)

def CpuOp.timer {I : Type} : CpuOp I → Option I
  | .start t => some t
  | .stop t => some t
  | .delete t => some t
  | .detach t => some t
  | .setTime _ _ _ => none

inductive CpuAction (I : Type) where
  | call (op : CpuOp I)
  /-- The hardware timeout, with what the timeout function calls. -/
  | expire (ops : List (CpuOp I))

namespace Cputime

variable {I : Type} [DecidableEq I]

def tick (s : Cputime I) (t : I) : UInt64 := (s.timer t).timeoutTick

/-- `clock_cpu_settimeout(t->timeout_tick, _cputime_timeout_callback, t)` -/
def settimeout (s : Cputime I) (t : I) : Cputime I := { s with timeout := some (s.tick t, t) }

def setNextTimeout (s : Cputime I) : Cputime I :=
  match s.list with
  | t :: _ =>
    match s.nowtimer with
    | some now => if t ≠ now ∧ s.tick t < s.tick now then { s.settimeout t with nowtimer := some t } else s
    | none => { s.settimeout t with nowtimer := some t }
  | [] => { s with nowtimer := none, timeout := none }

def setActivated (s : Cputime I) (t : I) (activated : Bool) : I → Cputimer :=
  Function.update s.timer t { s.timer t with activated }

/-- `rt_list_remove(&timer->row)`, and the flag RT_TIMER_FLAG_ACTIVATED is cleared -/
def remove (s : Cputime I) (t : I) : Cputime I :=
  { s with list := s.list.erase t, timer := s.setActivated t false }

/-- The scan of `rt_cputimer_start`. -/
def scanInsert (tick : I → UInt64) (n : I) : List I → List I
  | [] => [n]
  | t :: rest =>
    if tick t - tick n = 0 then t :: scanInsert tick n rest
    else if tick t - tick n < cpuHalf then n :: t :: rest
    else t :: scanInsert tick n rest

/-- `rt_list_insert_after(timer_list, &(timer->row))`, and the flag RT_TIMER_FLAG_ACTIVATED is set -/
def enlist (s : Cputime I) (t : I) : Cputime I :=
  { s with
    list := scanInsert s.tick t s.list
    timer := s.setActivated t true
    stopped := Function.update s.stopped t false }

def rtCputimerStart (s : Cputime I) (t : I) : Cputime I := ((s.remove t).enlist t).setNextTimeout

/-- `rt_cputimer_delete`, and `rt_cputimer_detach` without its semaphore -/
def rtCputimerDelete (s : Cputime I) (t : I) : Cputime I :=
  { s.remove t with stopped := Function.update s.stopped t true }.setNextTimeout

def rtCputimerDetach (s : Cputime I) (t : I) : Cputime I := s.rtCputimerDelete t

def rtCputimerStop (s : Cputime I) (t : I) : Cputime I :=
  let s := { s with stopped := Function.update s.stopped t true }
  if (s.timer t).activated = false then s else (s.remove t).setNextTimeout

def setTime (s : Cputime I) (t : I) (arg now : UInt64) : Cputime I :=
  { s with timer := Function.update s.timer t { s.timer t with timeoutTick := arg + now } }

def Within (s : Cputime I) (pending : List I) : Prop := ∃ b ∈ pending, ∀ t ∈ pending, s.tick t - s.tick b < cpuHalf

instance (s : Cputime I) (pending : List I) : Decidable (s.Within pending) := inferInstanceAs (Decidable (∃ _ ∈ _, _))

def op (s : Cputime I) : CpuOp I → Option (Cputime I)
  | .start t => if s.Within (t :: s.list) then some (s.rtCputimerStart t) else none
  | .stop t => some (s.rtCputimerStop t)
  | .delete t => some (s.rtCputimerDelete t)
  | .detach t => some (s.rtCputimerDetach t)
  | .setTime t arg now => if t ∉ s.list ∧ arg < cpuHalf then some (s.setTime t arg now) else none

/-- `_cputime_timeout_callback` up to the call of the timeout function: the hardware timeout is spent. -/
def enterCallback (s : Cputime I) (t : I) : Cputime I :=
  { s with
    nowtimer := none
    list := s.list.erase t
    timeout := none
    misfired := s.misfired || s.stopped t }

/-- The end of `_cputime_timeout_callback`. -/
def leaveCallback (s : Cputime I) : Cputime I :=
  match s.list with
  | t :: _ => s.settimeout t
  | [] => { s with timeout := none }

def act (s : Cputime I) : CpuAction I → Option (Cputime I)
  | .call o => s.op o
  | .expire ops => s.timeout.bind fun armed => ((ops.foldlM op (s.enterCallback armed.2)).map leaveCallback)

def Step (s : Cputime I) (a : CpuAction I) (s' : Cputime I) : Prop := s.act a = some s'

def init (tick : I → UInt64) : Cputime I where
  timer t := { timeoutTick := tick t, activated := false }
  list := []
  nowtimer := none
  timeout := none
  stopped _ := false
  misfired := false

end Cputime

end RtThread.Timers
