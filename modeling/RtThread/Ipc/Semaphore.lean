import RtThread.Ipc.Waits

/-! Semaphores: the locked sections of rt_sem_take and rt_sem_release, and those of rt_thread_resume, which
is called from outside and can be overtaken between them. -/

set_option autoImplicit false
namespace RtThread.Ipc

def rtSemValueMax : UInt16 := 65535

inductive ResumeStage (T : Type) where
  | out
  /-- the thread was found suspended -/
  | checked (t : T)
  /-- the thread is off its list and its timer is stopped -/
  | removed (t : T)
  deriving DecidableEq, Repr

/-- `C` are the contexts that call rt_thread_resume: threads and interrupts. -/
structure SemWorld (T C : Type) where
  value : UInt16
  flag : IpcFlag
  waits : Waits Unit T
  /-- the threads behind the `rt_schedule` of a take -/
  taking : T → Bool
  resume : C → ResumeStage T

inductive SemNote (T : Type) where
  | took (t : T)
  | waits (t : T)
  | tookLate (t : T)
  | failed (t : T) (e : Err)
  | released (heir : Option T)
  | full
  | withdrawn (t : T)
  /-- rt_thread_resume of a thread that is not suspended -/
  | refused (e : Err)
  | quiet
  deriving DecidableEq, Repr

section
variable {T C : Type} [DecidableEq T] [DecidableEq C]

def semTake (w : SemWorld T C) (t : T) (timeout : Int32) : SemWorld T C × SemNote T :=
  if w.value > 0 then ({ w with value := w.value - 1 }, .took t)
  else if timeout = 0 then (w, .failed t .timeout)
  else
    ({ w with
        waits := (w.waits.setError t .intr).suspendFor () t w.flag timeout
        taking := Function.update w.taking t true },
      .waits t)

def semRelease (w : SemWorld T C) : SemWorld T C × SemNote T :=
  match w.waits.list () with
  | t :: _ => ({ w with waits := ipcListResume w.waits () }, .released (some t))
  | [] =>
    if w.value < rtSemValueMax then ({ w with value := w.value + 1 }, .released none) else (w, .full)

end

end RtThread.Ipc
