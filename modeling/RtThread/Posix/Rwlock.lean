import Mathlib.Logic.Function.Basic

/-! The read-write lock of `pthread_rwlock.c`, over the condition variables of `pthread_cond.c`: a thread is at one step
of one call. -/

set_option autoImplicit false
namespace RtThread.Posix

inductive Side where
  | reader
  | writer
  deriving DecidableEq

inductive RwCall where
  /-- `pthread_rwlock_rdlock` and `_timedrdlock`, `_wrlock` and `_timedwrlock` -/
  | lock (side : Side) (timed : Bool)
  /-- `pthread_rwlock_tryrdlock`, `_trywrlock` -/
  | trylock (side : Side)
  | unlock
  deriving DecidableEq

/-- Where a thread is. The places from `trylock` on are inside `rw_mutex`. -/
inductive RwPc where
  | rest
  /-- `pthread_mutex_lock` at the start of the call -/
  | enter (call : RwCall)
  /-- Suspended in `_pthread_cond_timedwait` -/
  | wait (side : Side) (timed : Bool)
  /-- `pthread_mutex_lock` at its end, after a release or (not `ok`) a time-out -/
  | relock (side : Side) (timed ok : Bool)
  | trylock (side : Side)
  | unlock
  /-- At the test of the loop -/
  | loop (side : Side) (timed : Bool)
  /-- Back from the wait -/
  | back (side : Side) (timed ok : Bool)
  /-- `pthread_cond_signal(&rw_condwriters)`: the test of the list, and the release -/
  | signal
  | signalRelease
  /-- `pthread_cond_broadcast(&rw_condreaders)`: `rt_sem_trytake`, and the release where there was nothing to take, or
  where there was -/
  | broadcast
  | broadcastRelease
  | broadcastLast
  /-- `pthread_mutex_unlock` -/
  | leave
  deriving DecidableEq

structure Cond where
  value : Nat
  suspended : List Nat
  deriving DecidableEq

structure Rwlock where
  rwMutex : Option Nat
  /-- `rw_condreaders`, `rw_condwriters` -/
  cond : Side → Cond
  /-- `rw_nwaitreaders`, `rw_nwaitwriters` -/
  nwait : Side → Int
  rwRefcount : Int
  pc : Nat → RwPc
  readers : List Nat
  writers : List Nat

inductive RwAction where
  | call (t : Nat) (call : RwCall)
  /-- The thread goes on. `expired`: the time of a timed call is over when it looks. -/
  | go (t : Nat) (expired : Bool)
  /-- The timer of a suspended thread -/
  | timeout (t : Nat)
  deriving DecidableEq

def Rwlock.init : Rwlock where
  rwMutex := none
  cond _ := ⟨0, []⟩
  nwait _ := 0
  rwRefcount := 0
  pc _ := .rest
  readers := []
  writers := []

namespace Rwlock
variable (s : Rwlock)

def jump (t : Nat) (pc : RwPc) : Rwlock := { s with pc := Function.update s.pc t pc }

def setCond (side : Side) (cond : Cond) : Rwlock := { s with cond := Function.update s.cond side cond }

def addWait (side : Side) (n : Int) : Rwlock := { s with nwait := Function.update s.nwait side (s.nwait side + n) }

def busy : Side → Bool
  | .reader => s.rwRefcount < 0 || s.nwait .writer > 0
  | .writer => s.rwRefcount ≠ 0

def acquire (t : Nat) : Side → Rwlock
  | .reader => { s with rwRefcount := s.rwRefcount + 1, readers := t :: s.readers }
  | .writer => { s with rwRefcount := -1, writers := t :: s.writers }

def release (side : Side) : Rwlock :=
  match (s.cond side).suspended with
  | [] => s.setCond side { s.cond side with value := (s.cond side).value + 1 }
  | u :: rest =>
    let timed := match s.pc u with
      | .wait _ timed => timed
      | _ => false
    (s.setCond side { s.cond side with suspended := rest }).jump u (.relock side timed true)

/-- A turn of the loop of a lock call, with `_pthread_cond_timedwait` up to its suspension -/
def loopTurn (t : Nat) (side : Side) (timed expired : Bool) : Rwlock :=
  if s.busy side then
    let waiting := s.addWait side 1
    if (waiting.cond side).value > 0 then
      (waiting.setCond side { waiting.cond side with value := (waiting.cond side).value - 1 }).addWait side (-1)
    else if timed && expired then (waiting.addWait side (-1)).jump t .leave
    else
      { (waiting.setCond side { waiting.cond side with suspended := (waiting.cond side).suspended ++ [t] }).jump t
          (.wait side timed) with rwMutex := none }
  else (s.acquire t side).jump t .leave

/-- `pthread_rwlock_unlock`, up to the wake-up -/
def unlockTurn (t : Nat) : Rwlock :=
  let s :=
    if s.rwRefcount > 0 then { s with rwRefcount := s.rwRefcount - 1, readers := s.readers.erase t }
    else if s.rwRefcount = -1 then { s with rwRefcount := 0, writers := s.writers.erase t }
    else s
  if s.nwait .writer > 0 then
    if s.rwRefcount = 0 then s.jump t .signal else s.jump t .leave
  else if s.nwait .reader > 0 then s.jump t .broadcast
  else s.jump t .leave

/-- `rw_mutex` is taken, where it is free. -/
def take (t : Nat) (pc : RwPc) : Option Rwlock :=
  if s.rwMutex = none then some { s.jump t pc with rwMutex := some t } else none

def go (t : Nat) (expired : Bool) : Option Rwlock :=
  match s.pc t with
  | .rest => none
  | .wait _ _ => none
  | .enter (.lock side timed) => s.take t (.loop side timed)
  | .enter (.trylock side) => s.take t (.trylock side)
  | .enter .unlock => s.take t .unlock
  | .relock side timed ok => s.take t (.back side timed ok)
  | .trylock side => some (if s.busy side then s.jump t .leave else (s.acquire t side).jump t .leave)
  | .unlock => some (s.unlockTurn t)
  | .loop side timed => some (s.loopTurn t side timed expired)
  | .back side timed ok => some ((s.addWait side (-1)).jump t (if ok then .loop side timed else .leave))
  | .signal => some (s.jump t (if (s.cond .writer).suspended = [] then .leave else .signalRelease))
  | .signalRelease => some ((s.release .writer).jump t .leave)
  | .broadcast =>
    some (if (s.cond .reader).value > 0 then
      (s.setCond .reader { s.cond .reader with value := (s.cond .reader).value - 1 }).jump t .broadcastLast
    else s.jump t .broadcastRelease)
  | .broadcastRelease => some ((s.release .reader).jump t .broadcast)
  | .broadcastLast => some ((s.release .reader).jump t .leave)
  | .leave => some { s.jump t .rest with rwMutex := none }

def mayCall (t : Nat) (call : RwCall) : Bool :=
  s.pc t = .rest && (call ≠ .unlock || s.readers.contains t || s.writers.contains t)

def step : RwAction → Option Rwlock
  | .call t call => if s.mayCall t call then some (s.jump t (.enter call)) else none
  | .go t expired => s.go t expired
  | .timeout t =>
    match s.pc t with
    | .wait side true =>
      some ((s.setCond side { s.cond side with suspended := (s.cond side).suspended.erase t }).jump t (.relock side true false))
    | _ => none

end Rwlock

end RtThread.Posix
