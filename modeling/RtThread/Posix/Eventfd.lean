import RtThread.Lib.Transition
import Mathlib.Algebra.Group.Nat.Defs
import Mathlib.Logic.Function.Basic

/-! `eventfd.c`: a counter behind a mutex, with one wait queue of `waitqueue.c` for its readers and one for its
writers. Any number of threads read and write it; each step of a thread is what it does between two points where
another thread may run. -/

set_option autoImplicit false
namespace RtThread.Posix
open Lib

/-- `rt_wqueue_t`, with the threads whose nodes are in it. -/
structure Wqueue (T : Type) where
  flag : Bool
  waiting : List T

/-- Where a thread is: outside, in `eventfd_read` or in `eventfd_write`. -/
inductive Pc where
  | idle
  /-- before it takes the lock -/
  | readLock (nonblock : Bool)
  | readCheck (nonblock : Bool)
  /-- nothing to read, and it must not block: before it wakes the writers -/
  | readNone
  /-- before it releases the lock and fails -/
  | readFail
  /-- nothing to read: before it releases the lock -/
  | readUnlock
  | readWake
  | readWait
  | readAsleep
  /-- resumed, before it clears the flag of the queue -/
  | readWoken
  | readRelock
  /-- before it takes its number from the counter -/
  | readTake
  /-- before it releases the lock and returns -/
  | readDone (counterNum : UInt64)
  | writeLock (nonblock : Bool) (counterNum : UInt64)
  | writeCheck (nonblock : Bool) (counterNum : UInt64)
  | writeFail
  | writeLoop (counterNum : UInt64)
  | writeUnlock (counterNum : UInt64)
  | writeWait (counterNum : UInt64)
  | writeAsleep (counterNum : UInt64)
  | writeWoken (counterNum : UInt64)
  | writeWake (counterNum : UInt64)
  | writeRelock (counterNum : UInt64)
  | writeAdd (counterNum : UInt64)
  /-- before it wakes the readers -/
  | writeSignal (counterNum : UInt64)
  | writeDone (counterNum : UInt64)
  deriving DecidableEq

/-- `struct eventfd_ctx`, with the threads, and with the sums of what reads have returned and what writes that
returned have added. -/
structure Eventfd (T : Type) where
  readerQueue : Wqueue T
  writerQueue : Wqueue T
  count : UInt64
  semaphore : Bool
  lock : Option T
  pc : T → Pc
  returned : Nat
  written : Nat

inductive EventfdAction (T : Type) where
  | read (t : T) (nonblock : Bool) (size : Nat)
  | write (t : T) (nonblock : Bool) (size : Nat) (counterNum : UInt64)
  /-- the next step of a thread -/
  | go (t : T)

inductive EventfdResult where
  | einval
  | eagain
  | read (counterNum : UInt64)
  | wrote
  deriving DecidableEq

def ullongMax : UInt64 := 18446744073709551615

/-- A thread that `rt_thread_resume` finds suspended goes on. -/
def Pc.resume : Pc → Pc
  | .readAsleep => .readWoken
  | .writeAsleep counterNum => .writeWoken counterNum
  | pc => pc

namespace Eventfd
variable {T : Type}

/-- `rt_eventfd_create`: the initial value is an `unsigned int`. -/
def create (count : UInt32) (semaphore : Bool) : Eventfd T where
  readerQueue := ⟨false, []⟩
  writerQueue := ⟨false, []⟩
  count := count.toUInt64
  semaphore := semaphore
  lock := none
  pc _ := .idle
  returned := 0
  written := 0

/-- What `eventfd_read` takes from the counter. -/
def number (s : Eventfd T) : UInt64 := if s.semaphore then 1 else s.count

section steps
variable [DecidableEq T]

def goto (s : Eventfd T) (t : T) (pc : Pc) : Eventfd T := { s with pc := Function.update s.pc t pc }

def take (s : Eventfd T) (t : T) (pc : Pc) : Option (Eventfd T) :=
  if s.lock = none then some ({ s with lock := some t }.goto t pc) else none

def release (s : Eventfd T) (t : T) (pc : Pc) : Eventfd T := { s with lock := none }.goto t pc

/-- The thread whose node `rt_wqueue_wakeup` finds first is resumed. -/
def resumeFirst (s : Eventfd T) (queue : Wqueue T) : Eventfd T :=
  match queue.waiting with
  | [] => s
  | u :: _ => s.goto u (s.pc u).resume

def wakeReaders (s : Eventfd T) : Eventfd T :=
  { s.resumeFirst s.readerQueue with readerQueue := ⟨true, s.readerQueue.waiting.tail⟩ }

def wakeWriters (s : Eventfd T) : Eventfd T :=
  { s.resumeFirst s.writerQueue with writerQueue := ⟨true, s.writerQueue.waiting.tail⟩ }

/-- One step of a thread in `eventfd_read` or `eventfd_write`. `rt_wqueue_wait` returns at once if the queue remembers a
wake-up; otherwise the thread sleeps. -/
def go (s : Eventfd T) (t : T) : Option (Eventfd T × Option EventfdResult) :=
  match s.pc t with
  | .idle => none
  | .readLock nonblock => (s.take t (.readCheck nonblock)).map (·, none)
  | .readCheck nonblock =>
    if s.count = 0 then some (s.goto t (if nonblock then .readNone else .readUnlock), none)
    else some (s.goto t .readTake, none)
  | .readNone => some ((s.goto t .readFail).wakeWriters, none)
  | .readFail => some (s.release t .idle, some .eagain)
  | .readUnlock => some (s.release t .readWake, none)
  | .readWake => some ((s.goto t .readWait).wakeWriters, none)
  | .readWait =>
    if s.readerQueue.flag then
      some ({ s.goto t .readRelock with readerQueue := { s.readerQueue with flag := false } }, none)
    else
      some ({ s.goto t .readAsleep with
        readerQueue := { s.readerQueue with waiting := s.readerQueue.waiting ++ [t] } }, none)
  | .readAsleep => none
  | .readWoken => some ({ s.goto t .readRelock with readerQueue := { s.readerQueue with flag := false } }, none)
  | .readRelock => (s.take t .readTake).map (·, none)
  | .readTake => some ({ s.goto t (.readDone s.number) with count := s.count - s.number }, none)
  | .readDone counterNum =>
    some ({ s.release t .idle with returned := s.returned + counterNum.toNat }, some (.read counterNum))
  | .writeLock nonblock counterNum => (s.take t (.writeCheck nonblock counterNum)).map (·, none)
  | .writeCheck nonblock counterNum =>
    if ullongMax - s.count > counterNum then some (s.goto t (.writeAdd counterNum), none)
    else if nonblock then some (s.goto t .writeFail, none)
    else some (s.goto t (.writeLoop counterNum), none)
  | .writeFail => some (s.release t .idle, some .eagain)
  | .writeLoop counterNum =>
    if ullongMax - s.count ≥ counterNum then some (s.goto t (.writeAdd counterNum), none)
    else some (s.goto t (.writeUnlock counterNum), none)
  | .writeUnlock counterNum => some (s.release t (.writeWait counterNum), none)
  | .writeWait counterNum =>
    if s.writerQueue.flag then
      some ({ s.goto t (.writeWake counterNum) with writerQueue := { s.writerQueue with flag := false } }, none)
    else
      some ({ s.goto t (.writeAsleep counterNum) with
        writerQueue := { s.writerQueue with waiting := s.writerQueue.waiting ++ [t] } }, none)
  | .writeAsleep _ => none
  | .writeWoken counterNum =>
    some ({ s.goto t (.writeWake counterNum) with writerQueue := { s.writerQueue with flag := false } }, none)
  | .writeWake counterNum => some ((s.goto t (.writeRelock counterNum)).wakeReaders, none)
  | .writeRelock counterNum => (s.take t (.writeLoop counterNum)).map (·, none)
  | .writeAdd counterNum => some ({ s.goto t (.writeSignal counterNum) with count := s.count + counterNum }, none)
  | .writeSignal counterNum => some ((s.goto t (.writeDone counterNum)).wakeReaders, none)
  | .writeDone counterNum => some ({ s.release t .idle with written := s.written + counterNum.toNat }, some .wrote)

def step (s : Eventfd T) : EventfdAction T → Option (Eventfd T × Option EventfdResult)
  | .read t nonblock size =>
    if s.pc t = .idle then
      if size < 8 then some (s, some .einval) else some (s.goto t (.readLock nonblock), none)
    else none
  | .write t nonblock size counterNum =>
    if s.pc t = .idle then
      if size < 8 then some (s, some .einval)
      else if counterNum = ullongMax then some (s, some .einval)
      else some (s.goto t (.writeLock nonblock counterNum), none)
    else none
  | .go t => s.go t

end steps

/-- A reader that has waited finds something to read when it takes the lock again, and no blocking writer finds room for
just its value. -/
def allows (s : Eventfd T) : EventfdAction T → Bool
  | .go t =>
    match s.pc t with
    | .readRelock => s.count ≠ 0
    | .writeLoop counterNum => ullongMax - s.count ≠ counterNum
    | _ => true
  | _ => true

def holder (s : Eventfd T) : Pc :=
  match s.lock with
  | none => .idle
  | some t => s.pc t

def taken : Pc → Nat
  | .readDone counterNum => counterNum.toNat
  | _ => 0

def added : Pc → Nat
  | .writeSignal counterNum => counterNum.toNat
  | .writeDone counterNum => counterNum.toNat
  | _ => 0

structure Sound (initial : UInt32) (s : Eventfd T) : Prop where
  bounded : s.count < ullongMax
  law : initial.toNat + s.written + added s.holder = s.count.toNat + s.returned + taken s.holder

/-! ## The lock -/

def holds : Pc → Bool
  | .readCheck _ | .readNone | .readFail | .readUnlock | .readTake | .readDone _ => true
  | .writeCheck .. | .writeFail | .writeLoop _ | .writeUnlock _ | .writeAdd _ | .writeSignal _ | .writeDone _ => true
  | _ => false

theorem holds_resume (pc : Pc) : holds pc.resume = holds pc := by
  cases pc <;> rfl

theorem resume_of_holds {pc : Pc} (inside : holds pc = true) : pc.resume = pc := by
  cases pc with
  | readAsleep | writeAsleep => cases inside
  | _ => rfl

def Fits (s : Eventfd T) : Pc → Prop
  | .readTake => s.count ≠ 0
  | .readDone counterNum => 1 ≤ counterNum ∧ if s.semaphore then counterNum = 1 else s.count = 0
  | .writeAdd counterNum => counterNum < ullongMax - s.count
  | _ => True

structure Inv (initial : UInt32) (s : Eventfd T) : Prop extends Sound initial s where
  owner : ∀ t, holds (s.pc t) = true ↔ s.lock = some t
  fits : Fits s s.holder

section arithmetic
variable {s : Eventfd T}

theorem number_spec (some : s.count ≠ 0) :
    1 ≤ s.number ∧ (s.count - s.number).toNat + s.number.toNat = s.count.toNat ∧
      if s.semaphore then s.number = 1 else s.count - s.number = 0 := by
  have positive : 1 ≤ s.count.toNat := Nat.one_le_iff_ne_zero.mpr fun zero => some (UInt64.toNat_inj.mp zero)
  cases mode : s.semaphore with
  | true =>
    have one : s.number = 1 := if_pos mode
    have below : 1 ≤ s.count := UInt64.le_iff_toNat_le.mpr positive
    rw [one, UInt64.toNat_sub_of_le _ _ below]
    exact ⟨UInt64.le_refl 1, Nat.sub_add_cancel positive, rfl⟩
  | false =>
    have whole : s.number = s.count := if_neg (by simp [mode])
    rw [whole, UInt64.sub_self]
    exact ⟨UInt64.le_iff_toNat_le.mpr positive, Nat.zero_add _, rfl⟩

theorem room_spec {count counterNum : UInt64} (bounded : count < ullongMax) (room : counterNum < ullongMax - count) :
    count + counterNum < ullongMax ∧ (count + counterNum).toNat = count.toNat + counterNum.toNat := by
  have below : count ≤ ullongMax := UInt64.le_of_lt bounded
  rw [UInt64.lt_iff_toNat_lt, UInt64.toNat_sub_of_le _ _ below] at room
  rw [UInt64.lt_iff_toNat_lt, UInt64.toNat_add]
  have top : ullongMax.toNat = 18446744073709551615 := rfl
  omega

end arithmetic

section steps
variable {s : Eventfd T} {initial : UInt32} {t : T}

theorem create_inv (count : UInt32) (semaphore : Bool) : Inv count (create count semaphore : Eventfd T) where
  bounded := by
    have small := count.toNat_lt
    rw [UInt64.lt_iff_toNat_lt]
    show count.toNat < 18446744073709551615
    omega
  law := rfl
  owner t := ⟨nofun, nofun⟩
  fits := trivial

theorem holder_of_lock (locked : s.lock = some t) : s.holder = s.pc t := by
  simp only [holder, locked]

theorem Inv.lock (inv : Inv initial s) (inside : holds (s.pc t) = true) : s.lock = some t := (inv.owner t).mp inside

theorem Inv.queues (inv : Inv initial s) (readers writers : Wqueue T) :
    Inv initial { s with readerQueue := readers, writerQueue := writers } :=
  ⟨⟨inv.bounded, inv.law⟩, inv.owner, inv.fits⟩

variable [DecidableEq T]

theorem holds_goto (s : Eventfd T) (t u : T) (pc : Pc) :
    holds ((s.goto t pc).pc u) = if u = t then holds pc else holds (s.pc u) := by
  by_cases own : u = t
  · rw [if_pos own, own]
    exact congrArg holds (Function.update_self ..)
  · rw [if_neg own]
    exact congrArg holds (Function.update_of_ne own ..)

section
variable (inv : Inv initial s)
include inv

theorem Inv.outside (pc : Pc) (before : holds (s.pc t) = false) (after : holds pc = false) :
    Inv initial (s.goto t pc) := by
  have other : s.lock ≠ some t := fun locked => nomatch before.symm.trans ((inv.owner t).mpr locked)
  have same : (s.goto t pc).holder = s.holder := by
    unfold holder
    cases locked : s.lock with
    | none => simp only [goto, locked]
    | some u =>
      have apart : u ≠ t := fun own => other (locked.trans (congrArg some own))
      simp only [goto, locked]
      exact Function.update_of_ne apart ..
  refine ⟨⟨inv.bounded, same ▸ inv.law⟩, fun u => ?_, same ▸ inv.fits⟩
  rw [holds_goto]
  split
  case isTrue own => exact ⟨fun inside => (nomatch after.symm.trans inside), fun locked => absurd locked (own ▸ other)⟩
  case isFalse => exact inv.owner u

theorem Inv.enter (pc : Pc) (unlocked : s.lock = none) (inside : holds pc = true) (fits : Fits s pc)
    (nothing : added pc = 0 ∧ taken pc = 0) : Inv initial ({ s with lock := some t }.goto t pc) := by
  have here : ({ s with lock := some t }.goto t pc).holder = pc :=
    (holder_of_lock rfl).trans (Function.update_self ..)
  have law := inv.law
  simp only [holder, unlocked, added, taken] at law
  refine ⟨⟨inv.bounded, ?_⟩, fun u => ?_, here.symm ▸ fits⟩
  · rw [here, nothing.1, nothing.2]
    exact law
  · rw [holds_goto]
    split
    case isTrue own => exact ⟨fun _ => congrArg some own.symm, fun _ => inside⟩
    case isFalse apart =>
      refine ⟨fun held => ?_, fun locked => absurd (Option.some.inj locked).symm apart⟩
      exact nomatch unlocked.symm.trans ((inv.owner u).mp held)

theorem Inv.inside (pc : Pc) (before : holds (s.pc t) = true) (after : holds pc = true)
    (count : UInt64) (bounded : count < ullongMax) (fits : Fits { s with count := count } pc)
    (law : count.toNat + added (s.pc t) + taken pc = s.count.toNat + added pc + taken (s.pc t)) :
    Inv initial ({ s with count := count }.goto t pc) := by
  have locked := inv.lock before
  have here : ({ s with count := count }.goto t pc).holder = pc :=
    (holder_of_lock (s := { s with count := count }.goto t pc) locked).trans (Function.update_self ..)
  have old := inv.law
  rw [holder_of_lock locked] at old
  refine ⟨⟨bounded, ?_⟩, fun u => ?_, here.symm ▸ fits⟩
  · rw [here]
    show initial.toNat + s.written + added pc = count.toNat + s.returned + taken pc
    omega
  · rw [holds_goto]
    split
    case isTrue own => exact ⟨fun _ => own ▸ locked, fun _ => after⟩
    case isFalse => exact inv.owner u

theorem Inv.leave (pc : Pc) (before : holds (s.pc t) = true) (after : holds pc = false) :
    Inv initial ({ s with
      written := s.written + added (s.pc t), returned := s.returned + taken (s.pc t) }.release t pc) := by
  have locked := inv.lock before
  have law := inv.law
  rw [holder_of_lock locked] at law
  refine ⟨⟨inv.bounded, ?_⟩, fun u => ?_, trivial⟩
  · show initial.toNat + (s.written + added (s.pc t)) + 0 = s.count.toNat + (s.returned + taken (s.pc t)) + 0
    omega
  · refine ⟨fun held => ?_, nofun⟩
    by_cases own : u = t
    · cases own
      exact nomatch after.symm.trans ((congrArg holds (Function.update_self ..)).symm.trans held)
    · have still : holds (s.pc u) = true := (congrArg holds (Function.update_of_ne own ..)).symm.trans held
      exact absurd (Option.some.inj ((inv.lock still).symm.trans locked)) own

theorem Inv.resumeFirst (queue : Wqueue T) : Inv initial (s.resumeFirst queue) := by
  unfold Eventfd.resumeFirst
  split
  next => exact inv
  next u _ _ =>
    cases held : holds (s.pc u) with
    | true =>
      rw [resume_of_holds held]
      have same : s.goto u (s.pc u) = s := congrArg (fun pc => { s with pc := pc }) (Function.update_eq_self u s.pc)
      rw [same]
      exact inv
    | false => exact inv.outside _ held ((holds_resume _).trans held)

theorem Inv.wakeReaders : Inv initial s.wakeReaders := (inv.resumeFirst s.readerQueue).queues ..

theorem Inv.wakeWriters : Inv initial s.wakeWriters := (inv.resumeFirst s.writerQueue).queues ..

theorem Inv.within (pc : Pc) (before : holds (s.pc t) = true) (after : holds pc = true)
    (fits : Fits s pc) (same : added pc = added (s.pc t) ∧ taken pc = taken (s.pc t)) : Inv initial (s.goto t pc) :=
  inv.inside pc before after s.count inv.bounded fits (by rw [same.1, same.2])

end

theorem take_eq_some {pc : Pc} {s' : Eventfd T} (taken : s.take t pc = some s') :
    s.lock = none ∧ s' = { s with lock := some t }.goto t pc := by
  unfold Eventfd.take at taken
  split at taken
  case isTrue unlocked => exact ⟨unlocked, (Option.some.inj taken).symm⟩
  case isFalse => cases taken

theorem Inv.take (inv : Inv initial s) (pc : Pc) (inside : holds pc = true) (fits : Fits s pc)
    (nothing : added pc = 0 ∧ taken pc = 0) {s' : Eventfd T} {result : Option EventfdResult}
    (done : (s.take t pc).map (·, none) = some (s', result)) : Inv initial s' := by
  obtain ⟨next, taken, same⟩ := Option.map_eq_some_iff.mp done
  cases same
  obtain ⟨unlocked, rfl⟩ := take_eq_some taken
  exact inv.enter pc unlocked inside fits nothing

theorem go_inv (inv : Inv initial s) (may : allows s (.go t) = true) {s' : Eventfd T} {result : Option EventfdResult}
    (done : s.go t = some (s', result)) : Inv initial s' := by
  have waited : s.pc t = .readRelock → s.count ≠ 0 := fun here => by simpa [allows, here] using may
  have differs (counterNum : UInt64) : s.pc t = .writeLoop counterNum → ullongMax - s.count ≠ counterNum :=
    fun here => by simpa [allows, here] using may
  unfold go at done
  have fits : s.lock = some t → Fits s (s.pc t) := fun locked => holder_of_lock locked ▸ inv.fits
  have locked := inv.owner t
  generalize here : s.pc t = pc at done waited differs fits locked
  have free (outside : holds pc = false) : holds (s.pc t) = false := here ▸ outside
  have held (inside : holds pc = true) : holds (s.pc t) = true := here ▸ inside
  cases pc with
  | idle => cases done
  | readLock nonblock => exact inv.take (.readCheck nonblock) rfl trivial ⟨rfl, rfl⟩ done
  | readCheck nonblock =>
    dsimp only at done
    split at done
    case isTrue =>
      cases done
      cases nonblock
      · exact inv.within .readUnlock (held rfl) rfl trivial (here ▸ ⟨rfl, rfl⟩)
      · exact inv.within .readNone (held rfl) rfl trivial (here ▸ ⟨rfl, rfl⟩)
    case isFalse some =>
      cases done
      exact inv.within .readTake (held rfl) rfl some (here ▸ ⟨rfl, rfl⟩)
  | readNone =>
    cases done
    exact (inv.within .readFail (held rfl) rfl trivial (here ▸ ⟨rfl, rfl⟩)).wakeWriters
  | readFail | readDone counterNum | writeFail | writeDone counterNum =>
    cases done
    have left := inv.leave .idle (held rfl) rfl
    rw [here] at left
    exact left
  | readUnlock =>
    cases done
    have left := inv.leave .readWake (held rfl) rfl
    rw [here] at left
    exact left
  | readWake =>
    cases done
    exact (inv.outside .readWait (free rfl) rfl).wakeWriters
  | readWait | writeWait counterNum =>
    dsimp only at done
    split at done <;> cases done <;> exact (inv.outside _ (free rfl) rfl).queues ..
  | readAsleep => cases done
  | readWoken =>
    cases done
    exact (inv.outside .readRelock (free rfl) rfl).queues ..
  | readRelock => exact inv.take .readTake rfl (waited rfl) ⟨rfl, rfl⟩ done
  | readTake =>
    cases done
    obtain ⟨positive, less, mode⟩ := number_spec (fits (locked.mp rfl))
    refine inv.inside (.readDone s.number) (held rfl) rfl (s.count - s.number) ?_ ⟨positive, mode⟩ ?_
    · refine UInt64.lt_iff_toNat_lt.mpr (Nat.lt_of_le_of_lt ?_ (UInt64.lt_iff_toNat_lt.mp inv.bounded))
      omega
    · rw [here]
      exact less
  | writeLock nonblock counterNum => exact inv.take (.writeCheck nonblock counterNum) rfl trivial ⟨rfl, rfl⟩ done
  | writeCheck nonblock counterNum =>
    dsimp only at done
    split at done
    case isTrue room =>
      cases done
      exact inv.within (.writeAdd counterNum) (held rfl) rfl room (here ▸ ⟨rfl, rfl⟩)
    case isFalse =>
      split at done
      · cases done
        exact inv.within .writeFail (held rfl) rfl trivial (here ▸ ⟨rfl, rfl⟩)
      · cases done
        exact inv.within (.writeLoop counterNum) (held rfl) rfl trivial (here ▸ ⟨rfl, rfl⟩)
  | writeLoop counterNum =>
    dsimp only at done
    split at done
    case isTrue room =>
      cases done
      refine inv.within (.writeAdd counterNum) (held rfl) rfl ?_ (here ▸ ⟨rfl, rfl⟩)
      exact UInt64.lt_of_le_of_ne room (differs counterNum rfl).symm
    case isFalse =>
      cases done
      exact inv.within (.writeUnlock counterNum) (held rfl) rfl trivial (here ▸ ⟨rfl, rfl⟩)
  | writeUnlock counterNum =>
    cases done
    have left := inv.leave (.writeWait counterNum) (held rfl) rfl
    rw [here] at left
    exact left
  | writeAsleep => cases done
  | writeWoken counterNum =>
    cases done
    exact (inv.outside (.writeWake counterNum) (free rfl) rfl).queues ..
  | writeWake counterNum =>
    cases done
    exact (inv.outside (.writeRelock counterNum) (free rfl) rfl).wakeReaders
  | writeRelock counterNum => exact inv.take (.writeLoop counterNum) rfl trivial ⟨rfl, rfl⟩ done
  | writeAdd counterNum =>
    cases done
    obtain ⟨bounded, more⟩ := room_spec inv.bounded (fits (locked.mp rfl))
    refine inv.inside (.writeSignal counterNum) (held rfl) rfl (s.count + counterNum) bounded trivial ?_
    rw [here]
    exact more
  | writeSignal counterNum =>
    cases done
    exact (inv.within (.writeDone counterNum) (held rfl) rfl trivial (here ▸ ⟨rfl, rfl⟩)).wakeReaders

theorem step_inv (inv : Inv initial s) (action : EventfdAction T) (may : allows s action = true) {s' : Eventfd T}
    {result : Option EventfdResult} (done : s.step action = some (s', result)) : Inv initial s' := by
  cases action with
  | read t nonblock size =>
    simp only [step] at done
    split at done
    case isTrue here =>
      split at done
      · cases done
        exact inv
      · cases done
        exact inv.outside _ (here ▸ rfl) rfl
    case isFalse => cases done
  | write t nonblock size counterNum =>
    simp only [step] at done
    split at done
    case isTrue here =>
      split at done
      · cases done
        exact inv
      split at done
      · cases done
        exact inv
      · cases done
        exact inv.outside _ (here ▸ rfl) rfl
    case isFalse => cases done
  | go t => exact go_inv inv may done

theorem go_read {initial : UInt32} (inv : Inv initial s) {s' : Eventfd T} {counterNum : UInt64}
    (done : s.go t = some (s', some (.read counterNum))) :
    1 ≤ counterNum ∧ if s.semaphore then counterNum = 1 else s.count = 0 := by
  have here : s.pc t = .readDone counterNum := by
    unfold go Eventfd.take at done
    split at done <;> (try split at done) <;> (try split at done) <;> simp_all
  have held : holds (s.pc t) = true := here ▸ rfl
  have fits := inv.fits
  rw [holder_of_lock (inv.lock held), here] at fits
  exact fits

/-- As long as the steps meet the condition, the counter is right in every state that the threads reach, and so is what
the next read returns: 1, or all that was there. -/
theorem eventfd_counter (count : UInt32) (semaphore : Bool)
    {labels : List (EventfdAction T × Option EventfdResult)}
    (run : Run (Performs (guarded step allows)) (create count semaphore) labels s) :
    Sound count s ∧ ∀ t s' counterNum, s.step (.go t) = some (s', some (.read counterNum)) →
      1 ≤ counterNum ∧ if s.semaphore then counterNum = 1 else s.count = 0 := by
  have inv : Inv count s := by
    refine run.invariant (Inv count) ?_ (create_inv count semaphore)
    intro s label s' inv taken
    obtain ⟨may, taken⟩ := guarded_eq_some taken
    exact step_inv inv label.1 may taken
  exact ⟨inv.toSound, fun t s' counterNum done => go_read inv done⟩

end steps

section demo

/-- Thread 0 waits for something to read, and thread 1 writes. -/
def demo : List (EventfdAction Nat) :=
  [.read 0 false 8, .go 0, .go 0, .go 0, .go 0, .go 0, .write 1 false 8 5, .go 1, .go 1, .go 1, .go 1, .go 1, .go 0,
    .go 0, .go 0]

theorem eventfd_counter_demo :
    let s := ((drive (guarded step allows) (create 0 false : Eventfd Nat) demo).get (by decide)).1
    s.pc 0 = .readDone 5 ∧ Sound 0 s :=
  ⟨by decide, (eventfd_counter 0 false (drive_get (by decide))).1⟩

/-- Before the reader that thread 1 has woken goes on, thread 1 reads too. -/
def overtaken : List (EventfdAction Nat) :=
  [.read 0 false 8, .go 0, .go 0, .go 0, .go 0, .go 0, .write 1 false 8 1, .go 1, .go 1, .go 1, .go 1, .go 1,
    .read 1 true 8, .go 1, .go 1, .go 1, .go 1, .go 0, .go 0, .go 0]

/-- The counter wraps: it is ULLONG_MAX after a write of 1 and two reads of 1. -/
theorem eventfd_counter_overtaken :
    ¬ (∀ (labels : List (EventfdAction Nat × Option EventfdResult)) (s : Eventfd Nat),
      Run (Performs step) (create 0 true) labels s →
        Sound 0 s ∧ ∀ t s' counterNum, s.step (.go t) = some (s', some (.read counterNum)) →
          1 ≤ counterNum ∧ if s.semaphore then counterNum = 1 else s.count = 0) := by
  intro claimed
  have bounded := (claimed _ _ (drive_get
    (show (drive step (create 0 true) overtaken).isSome = true by decide))).1.bounded
  exact absurd bounded (by decide)

end demo

end Eventfd

end RtThread.Posix
