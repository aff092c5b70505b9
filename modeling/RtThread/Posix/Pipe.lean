import RtThread.Drivers.RingBufferCalls
import RtThread.Lib.Sides
import RtThread.Posix.Eventfd

/-! `pipe.c`: a ring buffer behind a mutex, with one wait queue of `waitqueue.c` for its readers and one for its writers.
Any number of threads read and write it; each step of a thread is what it does between two points where another thread
may run. -/

set_option autoImplicit false
namespace RtThread.Posix
open Lib Drivers

/-- Where a thread is: outside, in `pipe_fops_read` or in `pipe_fops_write`. A write knows the rest of its bytes and
how many it has put. -/
inductive PipePc where
  | idle
  /-- before it takes the lock -/
  | readLock (nonblock : Bool) (buf : Nat → UInt8) (count : UInt32)
  | readGet (nonblock : Bool) (buf : Nat → UInt8) (count : UInt32)
  /-- nothing to read: before it releases the lock -/
  | readUnlock (buf : Nat → UInt8) (count : UInt32)
  | readWake (buf : Nat → UInt8) (count : UInt32)
  | readWait (buf : Nat → UInt8) (count : UInt32)
  | readAsleep (buf : Nat → UInt8) (count : UInt32)
  /-- resumed, before it clears the flag of the queue -/
  | readWoken (buf : Nat → UInt8) (count : UInt32)
  /-- before it wakes the writers -/
  | readSignal (data : List UInt8)
  /-- before it releases the lock and returns -/
  | readDone (data : Option (List UInt8))
  | writeLock (nonblock : Bool) (pbuf : Nat → UInt8) (left ret : UInt32)
  | writePut (nonblock : Bool) (pbuf : Nat → UInt8) (left ret : UInt32)
  | writeUnlock (pbuf : Nat → UInt8) (left ret : UInt32)
  | writeWake (pbuf : Nat → UInt8) (left ret : UInt32)
  | writeWait (pbuf : Nat → UInt8) (left ret : UInt32)
  | writeAsleep (pbuf : Nat → UInt8) (left ret : UInt32)
  | writeWoken (pbuf : Nat → UInt8) (left ret : UInt32)
  | writeRelease (ret : Option UInt32)
  /-- before it wakes the readers and returns -/
  | writeSignal (ret : Option UInt32)

/-- `rt_pipe_t`, with the threads, and with what the reads have got and the writes have put, in the order of their
critical sections. -/
structure Pipe (T : Type) where
  fifo : Ringbuffer
  writer : Bool
  queue : Side → Wqueue T
  lock : Option T
  pc : T → PipePc
  got : List UInt8
  put : List UInt8

inductive PipeAction (T : Type) where
  | read (t : T) (nonblock : Bool) (buf : Nat → UInt8) (count : UInt32)
  | write (t : T) (nonblock : Bool) (buf : Nat → UInt8) (count : UInt32)
  /-- the next step of a thread -/
  | go (t : T)

inductive PipeResult where
  | eagain
  | read (data : List UInt8)
  | wrote (ret : UInt32)

/-- A thread that `rt_thread_resume` finds suspended goes on. -/
def PipePc.resume : PipePc → PipePc
  | .readAsleep buf count => .readWoken buf count
  | .writeAsleep pbuf left ret => .writeWoken pbuf left ret
  | pc => pc

namespace Pipe
variable {T : Type}

/-- `rt_pipe_create`, and the buffer that `pipe_fops_open` creates. -/
def create (pool : Nat → UInt8) (bufsz : UInt32) (writer : Bool) : Pipe T where
  fifo := rtRingbufferInit pool bufsz
  writer := writer
  queue _ := ⟨false, []⟩
  lock := none
  pc _ := .idle
  got := []
  put := []

section steps
variable [DecidableEq T]

def goto (s : Pipe T) (t : T) (pc : PipePc) : Pipe T := { s with pc := Function.update s.pc t pc }

def take (s : Pipe T) (t : T) (pc : PipePc) : Option (Pipe T) :=
  if s.lock = none then some ({ s with lock := some t }.goto t pc) else none

def release (s : Pipe T) (t : T) (pc : PipePc) : Pipe T := { s with lock := none }.goto t pc

def wakeup (s : Pipe T) (side : Side) : Pipe T :=
  { s with
    pc := match (s.queue side).waiting with
      | [] => s.pc
      | u :: _ => Function.update s.pc u (s.pc u).resume
    queue := Function.update s.queue side ⟨true, (s.queue side).waiting.tail⟩ }

/-- The part of `_rt_wqueue_wait` before the thread sleeps: it returns at once if the queue remembers a wake-up. -/
def wait (s : Pipe T) (t : T) (side : Side) (asleep woken : PipePc) : Pipe T :=
  if (s.queue side).flag then
    { s.goto t woken with queue := Function.update s.queue side { s.queue side with flag := false } }
  else
    { s.goto t asleep with
      queue := Function.update s.queue side { s.queue side with waiting := (s.queue side).waiting ++ [t] } }

def waited (s : Pipe T) (t : T) (side : Side) (woken : PipePc) : Pipe T :=
  { s.goto t woken with queue := Function.update s.queue side { s.queue side with flag := false } }

/-- One step of a thread in `pipe_fops_read` or `pipe_fops_write`. -/
def go (s : Pipe T) (t : T) : Option (Pipe T × Option PipeResult) :=
  match s.pc t with
  | .idle => none
  | .readLock nonblock buf count => (s.take t (.readGet nonblock buf count)).map (·, none)
  | .readGet nonblock buf count =>
    let (fifo, buf', len) := rtRingbufferGet s.fifo buf count
    let data := bytesAt buf' len.toNat
    let s := { s with fifo := fifo, got := s.got ++ data }
    if 0 < len ∨ s.writer = false then some (s.goto t (.readSignal data), none)
    else if nonblock then some (s.goto t (.readDone none), none)
    else some (s.goto t (.readUnlock buf' count), none)
  | .readUnlock buf count => some (s.release t (.readWake buf count), none)
  | .readWake buf count => some ((s.goto t (.readWait buf count)).wakeup .writer, none)
  | .readWait buf count => some (s.wait t .reader (.readAsleep buf count) (.readLock false buf count), none)
  | .readAsleep _ _ => none
  | .readWoken buf count => some (s.waited t .reader (.readLock false buf count), none)
  | .readSignal data => some ((s.goto t (.readDone (some data))).wakeup .writer, none)
  | .readDone data => some (s.release t .idle, some (data.elim .eagain .read))
  | .writeLock nonblock pbuf left ret => (s.take t (.writePut nonblock pbuf left ret)).map (·, none)
  | .writePut nonblock pbuf left ret =>
    let (fifo, len) := rtRingbufferPut s.fifo pbuf left
    let s := { s with fifo := fifo, put := s.put ++ bytesAt pbuf len.toNat }
    let ret := ret + len
    let left := left - len
    if left = 0 then some (s.goto t (.writeRelease (some ret)), none)
    else if nonblock then some (s.goto t (.writeRelease (if ret = 0 then none else some ret)), none)
    else some (s.goto t (.writeUnlock (behind pbuf len) left ret), none)
  | .writeUnlock pbuf left ret => some (s.release t (.writeWake pbuf left ret), none)
  | .writeWake pbuf left ret => some ((s.goto t (.writeWait pbuf left ret)).wakeup .reader, none)
  | .writeWait pbuf left ret =>
    some (s.wait t .writer (.writeAsleep pbuf left ret) (.writeLock false pbuf left ret), none)
  | .writeAsleep _ _ _ => none
  | .writeWoken pbuf left ret => some (s.waited t .writer (.writeLock false pbuf left ret), none)
  | .writeRelease ret => some (s.release t (.writeSignal ret), none)
  | .writeSignal ret => some ((s.goto t .idle).wakeup .reader, some (ret.elim .eagain .wrote))

def step (s : Pipe T) : PipeAction T → Option (Pipe T × Option PipeResult)
  | .read t nonblock buf count =>
    match s.pc t with
    | .idle => some (s.goto t (.readLock nonblock buf count), none)
    | _ => none
  | .write t nonblock buf count =>
    match s.pc t with
    | .idle =>
      if count = 0 then some (s, some (.wrote 0)) else some (s.goto t (.writeLock nonblock buf count 0), none)
    | _ => none
  | .go t => s.go t

end steps

/-! ## Who waits -/

end Pipe

namespace PipePc

def side : PipePc → Option Side
  | .idle => none
  | .readLock .. | .readGet .. | .readUnlock .. | .readWake .. | .readWait .. | .readAsleep .. | .readWoken ..
  | .readSignal _ | .readDone _ => some .reader
  | .writeLock .. | .writePut .. | .writeUnlock .. | .writeWake .. | .writeWait .. | .writeAsleep .. | .writeWoken ..
  | .writeRelease _ | .writeSignal _ => some .writer

def stance : PipePc → Stance
  | .idle | .readDone _ => .away
  | .readUnlock .. | .readWake .. => .waits .reader .edge
  | .readWait .. => .waits .reader .wait
  | .readAsleep .. => .waits .reader .asleep
  | .writeUnlock .. | .writeWake .. => .waits .writer .edge
  | .writeWait .. => .waits .writer .wait
  | .writeAsleep .. => .waits .writer .asleep
  | .readLock .. | .readGet .. | .readWoken .. | .readSignal _ => .busy
  | .writeLock .. | .writePut .. | .writeWoken .. | .writeRelease _ | .writeSignal _ => .busy

def holds : PipePc → Bool
  | .readGet .. | .readUnlock .. | .readSignal _ | .readDone _ => true
  | .writePut .. | .writeUnlock .. | .writeRelease _ => true
  | _ => false

end PipePc

namespace Pipe
variable {T : Type}

def need (s : Pipe T) : Side → Prop
  | .reader => s.fifo.content ≠ []
  | .writer => s.fifo.content.length < s.fifo.size

/-- All threads are blocked or finished, and one is blocked though there is something to read, or room to write. -/
def Stuck [DecidableEq T] (s : Pipe T) : Prop :=
  (∀ t, s.go t = none) ∧ ∃ t side, (s.pc t).side = some side ∧ s.need side

def sides (s : Pipe T) : Sides T where
  stance t := (s.pc t).stance
  flag side := (s.queue side).flag
  waiting side := (s.queue side).waiting

/-- What the others are left with when `t` stops. -/
def without [DecidableEq T] (s : Pipe T) (t : T) : Sides T := s.sides.move t .away

/-- A call that is about to return wakes a thread of the other side, or leaves nobody who waits in vain; a read that
gets nothing and begins to wait does so at an empty pipe, or with a wake-up to come. -/
def Allowed [DecidableEq T] (s : Pipe T) : PipeAction T → Prop
  | .go t =>
    match s.pc t with
    | .readGet nonblock _ count =>
      s.writer = true → s.fifo.content = [] ∨ count = 0 →
        if nonblock then (s.without t).Settled s.need
        else s.fifo.content = [] ∨ (s.queue .reader).flag = true ∨ (s.without t).Waits .writer ∨ (s.without t).Moving
    | .readSignal _ => (s.without t).Waits .writer ∨ (s.without t).Settled s.need
    | .writeSignal _ => (s.without t).Waits .reader ∨ (s.without t).Settled s.need
    | _ => True
  | _ => True

/-- The threads in a critical section have the lock, and the bytes that were put are those that were got and those in
the pipe. -/
structure Inv (s : Pipe T) : Prop where
  fifo : s.fifo.Sound
  law : s.put = s.got ++ s.fifo.content
  owner : ∀ t, (s.pc t).holds = true ↔ s.lock = some t
  queued : s.sides.Queued

section steps
variable [DecidableEq T] {s s' : Pipe T} {t : T} {pc : PipePc} {side : Side}

theorem sides_goto (s : Pipe T) (t : T) (pc : PipePc) : (s.goto t pc).sides = s.sides.move t pc.stance := by
  simp only [sides, goto, Sides.move, Sides.mk.injEq, and_true]
  funext u
  exact Function.apply_update (fun _ => PipePc.stance) s.pc t pc u

theorem sides_stay (same : pc.stance = (s.pc t).stance) : (s.goto t pc).sides = s.sides := by
  rw [sides_goto, same, Sides.move]
  exact congrArg (fun stance => { s.sides with stance := stance }) (Function.update_eq_self t s.sides.stance)

theorem stance_resume (asleep : pc.stance = .waits side .asleep) : pc.resume.stance = .busy := by
  cases pc <;> first | rfl | cases asleep

theorem sides_wakeup (queued : s.sides.Queued) (side : Side) : (s.wakeup side).sides = s.sides.wake side := by
  have flag : (fun side' => ((s.wakeup side).queue side').flag) = Function.update s.sides.flag side true := by
    funext side'
    exact Function.apply_update (fun _ => Wqueue.flag) s.queue side _ side'
  have waiting : (fun side' => ((s.wakeup side).queue side').waiting) =
      Function.update s.sides.waiting side (s.sides.waiting side).tail := by
    funext side'
    exact Function.apply_update (fun _ => Wqueue.waiting) s.queue side _ side'
  have stance : (fun t => ((s.wakeup side).pc t).stance) = (s.sides.wake side).stance := by
    cases list : (s.queue side).waiting with
    | nil => simp only [wakeup, Sides.wake, sides, list]
    | cons u rest =>
      have first : (s.pc u).stance = .waits side .asleep :=
        (queued.asleep side u).mp (List.mem_of_mem_head? (by simp only [sides, list, List.head?_cons, Option.mem_def]))
      simp only [wakeup, Sides.wake, sides, list]
      funext t
      rw [← stance_resume first]
      exact Function.apply_update (fun _ => PipePc.stance) s.pc u _ t
  rw [sides, flag, waiting, stance]
  rfl

theorem sides_waited (pc : PipePc) (busy : pc.stance = .busy) : (s.waited t side pc).sides = s.sides.pass t side := by
  have flag : (fun side' => ((s.waited t side pc).queue side').flag) = Function.update s.sides.flag side false := by
    funext side'
    exact Function.apply_update (fun _ => Wqueue.flag) s.queue side _ side'
  have waiting : (fun side' => ((s.waited t side pc).queue side').waiting) = s.sides.waiting := by
    funext side'
    refine (Function.apply_update (fun _ => Wqueue.waiting) s.queue side _ side').trans ?_
    exact congrFun (Function.update_eq_self side fun side' => (s.queue side').waiting) side'
  have stance := congrArg Sides.stance (sides_goto s t pc)
  rw [busy] at stance
  rw [sides, flag, waiting]
  exact congrArg (fun stance => Sides.mk stance _ _) stance

theorem sides_sleep (pc : PipePc) (asleep : pc.stance = .waits side .asleep) (clear : (s.queue side).flag = false)
    (woken : PipePc) : (s.wait t side pc woken).sides = s.sides.sleep t side := by
  have done : s.wait t side pc woken = { s.goto t pc with
      queue := Function.update s.queue side { s.queue side with waiting := (s.queue side).waiting ++ [t] } } := by
    rw [wait, if_neg (by simp [clear])]
  have flag : (fun side' => ((s.wait t side pc woken).queue side').flag) = s.sides.flag := by
    funext side'
    rw [done]
    refine (Function.apply_update (fun _ => Wqueue.flag) s.queue side _ side').trans ?_
    exact congrFun (Function.update_eq_self side fun side' => (s.queue side').flag) side'
  have waiting : (fun side' => ((s.wait t side pc woken).queue side').waiting) =
      Function.update s.sides.waiting side (s.sides.waiting side ++ [t]) := by
    funext side'
    rw [done]
    exact Function.apply_update (fun _ => Wqueue.waiting) s.queue side _ side'
  have stance := congrArg Sides.stance (sides_goto s t pc)
  rw [asleep] at stance
  rw [sides, flag, waiting, done]
  exact congrArg (fun stance => Sides.mk stance _ _) stance

/-! ## The invariant -/

omit [DecidableEq T] in
theorem create_inv (pool : Nat → UInt8) {bufsz : UInt32} (least : Mem.Config.board.alignSize ≤ bufsz.toNat)
    (most : bufsz.toNat < 2 ^ 31) (writer : Bool) : Inv (create pool bufsz writer : Pipe T) where
  fifo := (rtRingbufferInit_sound pool least most).1
  law := ((rtRingbufferInit_sound pool least most).2.1).symm
  owner _ := ⟨nofun, nofun⟩
  queued := ⟨fun _ _ => ⟨nofun, nofun⟩, fun _ => List.nodup_nil⟩

theorem holds_goto (s : Pipe T) (t u : T) (pc : PipePc) :
    ((s.goto t pc).pc u).holds = if u = t then pc.holds else (s.pc u).holds := by
  by_cases own : u = t
  · rw [if_pos own, own]
    exact congrArg PipePc.holds (Function.update_self ..)
  · rw [if_neg own]
    exact congrArg PipePc.holds (Function.update_of_ne own ..)

theorem Inv.goto (inv : Inv s) (pc : PipePc) (same : pc.holds = (s.pc t).holds)
    (before : ∀ side, (s.pc t).stance ≠ .waits side .asleep) (after : ∀ side, pc.stance ≠ .waits side .asleep) :
    Inv (s.goto t pc) := by
  refine ⟨inv.fifo, inv.law, fun u => ?_, ?_⟩
  · rw [holds_goto]
    split
    case isTrue own =>
      rw [same, own]
      exact inv.owner t
    case isFalse => exact inv.owner u
  · rw [sides_goto]
    exact inv.queued.move before after

theorem Inv.enter (inv : Inv s) (pc : PipePc) (inside : pc.holds = true)
    (before : ∀ side, (s.pc t).stance ≠ .waits side .asleep) (after : ∀ side, pc.stance ≠ .waits side .asleep)
    (taken : s.take t pc = some s') : Inv s' := by
  unfold Pipe.take at taken
  split at taken
  case isFalse => cases taken
  case isTrue unlocked =>
    cases taken
    refine ⟨inv.fifo, inv.law, fun u => ?_, ?_⟩
    · rw [holds_goto]
      split
      case isTrue own => exact iff_of_true inside (congrArg some own.symm)
      case isFalse apart =>
        refine iff_of_false (fun held => ?_) fun locked => apart (Option.some.inj locked).symm
        exact nomatch unlocked.symm.trans ((inv.owner u).mp held)
    · rw [sides_goto]
      exact inv.queued.move before after

theorem Inv.leave (inv : Inv s) (pc : PipePc) (before : (s.pc t).holds = true) (after : pc.holds = false)
    (same : pc.stance = (s.pc t).stance) : Inv (s.release t pc) := by
  have locked := (inv.owner t).mp before
  refine ⟨inv.fifo, inv.law, fun u => ?_, ?_⟩
  · refine ⟨fun held => ?_, nofun⟩
    have held : ((s.goto t pc).pc u).holds = true := held
    rw [holds_goto] at held
    split at held
    case isTrue => cases after.symm.trans held
    case isFalse apart => exact absurd (Option.some.inj (((inv.owner u).mp held).symm.trans locked)) apart
  · have sides : (s.release t pc).sides = (s.goto t pc).sides := rfl
    rw [sides, sides_stay same]
    exact inv.queued

theorem Inv.wakeup (inv : Inv s) (side : Side) : Inv (s.wakeup side) := by
  refine ⟨inv.fifo, inv.law, fun u => ?_, ?_⟩
  · have same : ((s.wakeup side).pc u).holds = (s.pc u).holds := by
      have resume (pc : PipePc) : pc.resume.holds = pc.holds := by cases pc <;> rfl
      cases list : (s.queue side).waiting with
      | nil => simp only [Pipe.wakeup, list]
      | cons v rest =>
        simp only [Pipe.wakeup, list, Function.update_apply]
        split
        case isTrue own => rw [resume, own]
        case isFalse => rfl
    rw [same]
    exact inv.owner u
  · rw [sides_wakeup inv.queued]
    exact inv.queued.wake side

theorem Inv.waited (inv : Inv s) (pc : PipePc) (before : (s.pc t).holds = false) (after : pc.holds = false)
    (busy : pc.stance = .busy) (awake : ∀ side, (s.pc t).stance ≠ .waits side .asleep) : Inv (s.waited t side pc) := by
  have gone := inv.goto pc (after.trans before.symm) awake (by simp [busy])
  refine ⟨inv.fifo, inv.law, gone.owner, ?_⟩
  rw [sides_waited pc busy]
  exact Sides.Queued.flags (inv.queued.move awake (by simp)) _

theorem Inv.wait (inv : Inv s) (asleep woken : PipePc) (wait : (s.pc t).stance = .waits side .wait)
    (before : (s.pc t).holds = false) (outside : asleep.holds = false ∧ woken.holds = false)
    (sleeps : asleep.stance = .waits side .asleep) (busy : woken.stance = .busy) : Inv (s.wait t side asleep woken) := by
  cases flag : (s.queue side).flag with
  | true =>
    have done : s.wait t side asleep woken = s.waited t side woken := by rw [Pipe.wait, if_pos flag, Pipe.waited]
    rw [done]
    exact inv.waited woken before outside.2 busy (by simp [wait])
  | false =>
    have done : (s.wait t side asleep woken).pc = (s.goto t asleep).pc := by rw [Pipe.wait, if_neg (by simp [flag])]
    have kept : (s.wait t side asleep woken).lock = s.lock ∧ (s.wait t side asleep woken).fifo = s.fifo ∧
        (s.wait t side asleep woken).got = s.got ∧ (s.wait t side asleep woken).put = s.put := by
      rw [Pipe.wait, if_neg (by simp [flag])]
      exact ⟨rfl, rfl, rfl, rfl⟩
    refine ⟨kept.2.1 ▸ inv.fifo, ?_, fun u => ?_, ?_⟩
    · rw [kept.2.1, kept.2.2.1, kept.2.2.2]
      exact inv.law
    · rw [done, kept.1, holds_goto]
      split
      case isTrue own =>
        rw [outside.1, ← before, own]
        exact inv.owner t
      case isFalse => exact inv.owner u
    · rw [sides_sleep asleep sleeps flag]
      exact inv.queued.sleep fun side' asleep => by cases wait.symm.trans asleep

omit [DecidableEq T] in
theorem Inv.get (inv : Inv s) (buf : Nat → UInt8) (count : UInt32) :
    Inv { s with
      fifo := (rtRingbufferGet s.fifo buf count).1
      got := s.got ++ bytesAt (rtRingbufferGet s.fifo buf count).2.1 (rtRingbufferGet s.fifo buf count).2.2.toNat } := by
  obtain ⟨sound, -, content, -, data⟩ := get_fifo inv.fifo buf count
  refine ⟨sound, ?_, inv.owner, inv.queued⟩
  show s.put = _
  rw [content, data, List.append_assoc, List.take_append_drop, inv.law]

omit [DecidableEq T] in
theorem Inv.fill (inv : Inv s) (pbuf : Nat → UInt8) (left : UInt32) :
    Inv { s with
      fifo := (rtRingbufferPut s.fifo pbuf left).1
      put := s.put ++ bytesAt pbuf (rtRingbufferPut s.fifo pbuf left).2.toNat } := by
  obtain ⟨sound, -, content, len⟩ := put_fifo inv.fifo pbuf left
  refine ⟨sound, ?_, inv.owner, inv.queued⟩
  have data : bytesAt pbuf (rtRingbufferPut s.fifo pbuf left).2.toNat =
      (bytesAt pbuf left.toNat).take (s.fifo.size - s.fifo.content.length) := by
    rw [len, bytesAt_take, bytesAt_length]
  show s.put ++ _ = s.got ++ _
  rw [content, data, inv.law, List.append_assoc]

attribute [local simp] PipePc.stance in
theorem go_inv (inv : Inv s) {result : Option PipeResult} (done : s.go t = some (s', result)) : Inv s' := by
  unfold go at done
  generalize here : s.pc t = pc at done
  have held (inside : pc.holds = true) : (s.pc t).holds = true := here ▸ inside
  have free (outside : pc.holds = false) : (s.pc t).holds = false := here ▸ outside
  have stance (stance : Stance) (same : pc.stance = stance) : (s.pc t).stance = stance := here ▸ same
  have awake (up : ∀ side, pc.stance ≠ .waits side .asleep) : ∀ side, (s.pc t).stance ≠ .waits side .asleep := here ▸ up
  cases pc with
  | idle => cases done
  | readLock nonblock buf count | writeLock nonblock pbuf left ret =>
    obtain ⟨next, taken, same⟩ := Option.map_eq_some_iff.mp done
    cases same
    exact inv.enter _ rfl (awake (by simp)) (by simp) taken
  | readGet nonblock buf count =>
    have got := inv.get buf count
    dsimp only at done
    split at done
    · cases done
      exact got.goto _ (held rfl).symm (awake (by simp)) (by simp)
    split at done
    · cases done
      exact got.goto _ (held rfl).symm (awake (by simp)) (by simp)
    · cases done
      exact got.goto _ (held rfl).symm (awake (by simp)) (by simp)
  | readUnlock buf count | readDone data | writeUnlock pbuf left ret | writeRelease ret =>
    cases done
    exact inv.leave _ (held rfl) rfl (stance _ rfl).symm
  | readWake buf count =>
    cases done
    exact (inv.goto (.readWait buf count) (free rfl).symm (awake (by simp)) (by simp)).wakeup .writer
  | readWait buf count | writeWait pbuf left ret =>
    cases done
    exact inv.wait _ _ (stance _ rfl) (free rfl) ⟨rfl, rfl⟩ rfl rfl
  | readAsleep buf count => cases done
  | readWoken buf count | writeWoken pbuf left ret =>
    cases done
    exact inv.waited _ (free rfl) rfl rfl (awake (by simp))
  | readSignal data =>
    cases done
    exact (inv.goto (.readDone (some data)) (held rfl).symm (awake (by simp)) (by simp)).wakeup .writer
  | writePut nonblock pbuf left ret =>
    have filled := inv.fill pbuf left
    dsimp only at done
    split at done
    · cases done
      exact filled.goto _ (held rfl).symm (awake (by simp)) (by simp)
    split at done
    · cases done
      exact filled.goto _ (held rfl).symm (awake (by simp)) (by simp)
    · cases done
      exact filled.goto _ (held rfl).symm (awake (by simp)) (by simp)
  | writeWake pbuf left ret =>
    cases done
    exact (inv.goto (.writeWait pbuf left ret) (free rfl).symm (awake (by simp)) (by simp)).wakeup .reader
  | writeAsleep pbuf left ret => cases done
  | writeSignal ret =>
    cases done
    exact (inv.goto .idle (free rfl).symm (awake (by simp)) (by simp)).wakeup .reader

theorem start_eq_some {action : PipeAction T} {result : Option PipeResult} (done : s.step action = some (s', result)) :
    (∃ t, action = .go t ∧ s.go t = some (s', result)) ∨ s' = s ∨
      ∃ t pc, s.pc t = .idle ∧ pc.holds = false ∧ pc.stance = .busy ∧ s' = s.goto t pc := by
  cases action with
  | go t => exact .inl ⟨t, rfl, done⟩
  | read t nonblock buf count =>
    simp only [step] at done
    split at done
    next here =>
      cases done
      exact .inr (.inr ⟨t, _, here, rfl, rfl, rfl⟩)
    next => cases done
  | write t nonblock buf count =>
    simp only [step] at done
    split at done
    next here =>
      split at done
      · cases done
        exact .inr (.inl rfl)
      · cases done
        exact .inr (.inr ⟨t, _, here, rfl, rfl, rfl⟩)
    next => cases done

theorem step_inv (inv : Inv s) {action : PipeAction T} {result : Option PipeResult}
    (done : s.step action = some (s', result)) : Inv s' := by
  rcases start_eq_some done with ⟨t, -, done⟩ | rfl | ⟨t, pc, here, outside, busy, rfl⟩
  · exact go_inv inv done
  · exact inv
  · refine inv.goto pc ?_ (by simp [here, PipePc.stance]) (by simp [busy])
    rw [outside, here]
    rfl

/-! ## Nobody waits in vain -/

omit [DecidableEq T] in
theorem get_nothing (inv : Inv s) {buf : Nat → UInt8} {count : UInt32}
    (nothing : ¬0 < (rtRingbufferGet s.fifo buf count).2.2) :
    (rtRingbufferGet s.fifo buf count).1.content = s.fifo.content ∧
      (rtRingbufferGet s.fifo buf count).1.size = s.fifo.size ∧ (s.fifo.content = [] ∨ count = 0) := by
  obtain ⟨-, kept, content, len, -⟩ := get_fifo inv.fifo buf count
  have zero : (rtRingbufferGet s.fifo buf count).2.2.toNat = 0 := by
    rw [UInt32.lt_iff_toNat_lt, UInt32.toNat_zero] at nothing
    omega
  have none : s.fifo.content.take count.toNat = [] := List.eq_nil_of_length_eq_zero (len.symm.trans zero)
  have same := List.take_append_drop count.toNat s.fifo.content
  rw [none, List.nil_append] at same
  refine ⟨content.trans same, kept.size, ?_⟩
  rcases List.take_eq_nil_iff.mp none with zero | empty
  · exact .inr (UInt32.toNat_inj.mp zero)
  · exact .inl empty

omit [DecidableEq T] in
theorem put_full (inv : Inv s) {pbuf : Nat → UInt8} {left : UInt32}
    (rest : left - (rtRingbufferPut s.fifo pbuf left).2 ≠ 0) :
    ¬(rtRingbufferPut s.fifo pbuf left).1.content.length < (rtRingbufferPut s.fifo pbuf left).1.size := by
  obtain ⟨-, kept, content, len⟩ := put_fifo inv.fifo pbuf left
  have most := inv.fifo.count_le
  rw [List.length_take, bytesAt_length] at len
  rw [kept.size, content, List.length_append, List.length_take, bytesAt_length]
  have apart : left.toNat ≠ (rtRingbufferPut s.fifo pbuf left).2.toNat := by
    intro same
    refine rest ?_
    rw [← UInt32.toNat_inj.mp same, UInt32.sub_self]
  have all : s.fifo.content.length = s.fifo.count := Ringbuffer.content_length
  omega

theorem settled_goto (busy : pc.stance = .busy) : (s.goto t pc).sides.Settled s.need := by
  refine .of_busy (t := t) ?_
  rw [sides_goto, busy]
  exact Function.update_self ..

theorem settled_take {result : Option PipeResult} (busy : pc.stance = .busy)
    (done : (s.take t pc).map (·, none) = some (s', result)) : s'.sides.Settled s'.need := by
  obtain ⟨next, taken, same⟩ := Option.map_eq_some_iff.mp done
  cases same
  unfold Pipe.take at taken
  split at taken
  · cases taken
    exact settled_goto busy
  · cases taken

theorem settled_release (settled : s.sides.Settled s.need) (same : pc.stance = (s.pc t).stance) :
    (s.release t pc).sides.Settled (s.release t pc).need := by
  have sides : (s.release t pc).sides = (s.goto t pc).sides := rfl
  rw [sides, sides_stay same]
  exact settled

theorem settled_waited (busy : pc.stance = .busy) : (s.waited t side pc).sides.Settled (s.waited t side pc).need := by
  refine .of_busy (t := t) ?_
  rw [sides_waited pc busy]
  exact Function.update_self ..

theorem settled_wait {asleep woken : PipePc} (settled : s.sides.Settled s.need)
    (wait : (s.pc t).stance = .waits side .wait) (sleeps : asleep.stance = .waits side .asleep) (busy : woken.stance = .busy) :
    (s.wait t side asleep woken).sides.Settled (s.wait t side asleep woken).need := by
  cases flag : (s.queue side).flag with
  | true =>
    have done : s.wait t side asleep woken = s.waited t side woken := by rw [Pipe.wait, if_pos flag, Pipe.waited]
    rw [done]
    exact settled_waited busy
  | false =>
    have need : (s.wait t side asleep woken).need = s.need := by
      rw [Pipe.wait, if_neg (by simp [flag])]
      rfl
    rw [sides_sleep asleep sleeps flag, need]
    exact settled.sleep wait flag

theorem settled_rouse (inv : Inv s) (settled : s.sides.Settled s.need) (edge : (s.pc t).stance = .waits side .edge)
    (wait : pc.stance = .waits side .wait) (same : pc.holds = (s.pc t).holds) :
    ((s.goto t pc).wakeup side.other).sides.Settled s.need := by
  have inv' := inv.goto pc same (by simp [edge]) (by simp [wait])
  rw [sides_wakeup inv'.queued, sides_goto, wait]
  exact settled.rouse inv.queued edge

theorem settled_leave (inv : Inv s) (busy : (s.pc t).stance = .busy) (away : pc.stance = .away)
    (same : pc.holds = (s.pc t).holds) (free : (s.without t).Waits side ∨ (s.without t).Settled s.need) :
    ((s.goto t pc).wakeup side).sides.Settled s.need := by
  have inv' := inv.goto pc same (by simp [busy]) (by simp [away])
  rw [sides_wakeup inv'.queued, sides_goto, away]
  exact Sides.Settled.leave inv.queued busy free

theorem go_settled (inv : Inv s) (settled : s.sides.Settled s.need) (allowed : Allowed s (.go t))
    {result : Option PipeResult} (done : s.go t = some (s', result)) : s'.sides.Settled s'.need := by
  unfold go at done
  simp only [Allowed] at allowed
  generalize here : s.pc t = pc at done allowed
  have holds (inside : Bool) (same : pc.holds = inside) : (s.pc t).holds = inside := here ▸ same
  have stance (stance : Stance) (same : pc.stance = stance) : (s.pc t).stance = stance := here ▸ same
  cases pc with
  | idle => cases done
  | readLock nonblock buf count => exact settled_take rfl done
  | readGet nonblock buf count =>
    dsimp only at done allowed
    split at done
    · cases done
      exact settled_goto rfl
    next nothing =>
      obtain ⟨empty, open'⟩ := not_or.mp nothing
      obtain ⟨content, size, cause⟩ := get_nothing inv empty
      have free := allowed (by simpa using open') cause
      have need : Pipe.need { s with
          fifo := (rtRingbufferGet s.fifo buf count).1
          got := s.got ++ bytesAt (rtRingbufferGet s.fifo buf count).2.1 (rtRingbufferGet s.fifo buf count).2.2.toNat } =
          s.need := by
        funext side
        cases side <;> simp only [Pipe.need, content, size]
      split at done
      · next nonblocking =>
        cases done
        rw [if_pos nonblocking] at free
        rw [sides_goto]
        exact need ▸ free
      · next blocking =>
        cases done
        rw [if_neg blocking] at free
        rw [sides_goto]
        refine Sides.Settled.halt (free.imp (fun none some => ?_) id)
        exact some (content.trans none)
  | readUnlock buf count | readDone data | writeUnlock pbuf left ret =>
    cases done
    exact settled_release settled (stance _ rfl).symm
  | readWake buf count | writeWake pbuf left ret =>
    cases done
    exact settled_rouse inv settled (stance _ rfl) rfl (holds _ rfl).symm
  | readWait buf count | writeWait pbuf left ret =>
    cases done
    exact settled_wait settled (stance _ rfl) rfl rfl
  | readAsleep buf count => cases done
  | readWoken buf count | writeWoken pbuf left ret =>
    cases done
    exact settled_waited rfl
  | readSignal data | writeSignal ret =>
    cases done
    exact settled_leave inv (stance _ rfl) rfl (holds _ rfl).symm allowed
  | writeLock nonblock pbuf left ret => exact settled_take rfl done
  | writePut nonblock pbuf left ret =>
    dsimp only at done
    split at done
    · cases done
      exact settled_goto rfl
    next rest =>
      split at done
      · cases done
        exact settled_goto rfl
      · cases done
        rw [sides_goto]
        exact Sides.Settled.halt (.inl (put_full inv rest))
  | writeAsleep pbuf left ret => cases done
  | writeRelease ret =>
    cases done
    exact settled_goto rfl

theorem step_settled (inv : Inv s) (settled : s.sides.Settled s.need) {action : PipeAction T} (allowed : Allowed s action)
    {result : Option PipeResult} (done : s.step action = some (s', result)) : s'.sides.Settled s'.need := by
  rcases start_eq_some done with ⟨t, rfl, done⟩ | rfl | ⟨t, pc, -, -, busy, rfl⟩
  · exact go_settled inv settled allowed done
  · exact settled
  · exact settled_goto busy

theorem go_holds (inside : (s.pc t).holds = true) : s.go t ≠ none := by
  unfold go
  generalize s.pc t = pc at inside
  cases pc with
  | readGet nonblock buf count | writePut nonblock pbuf left ret =>
    dsimp only
    split
    · exact Option.some_ne_none _
    · split <;> exact Option.some_ne_none _
  | readUnlock | readSignal | readDone | writeUnlock | writeRelease => exact Option.some_ne_none _
  | _ => cases inside

theorem go_none (unlocked : s.lock = none) (blocked : s.go t = none) :
    (s.pc t).side = none ∧ (s.pc t).stance = .away ∨ ∃ side, (s.pc t).side = some side ∧ (s.pc t).stance = .waits side .asleep := by
  have free (pc : PipePc) : s.take t pc ≠ none := by simp [Pipe.take, unlocked]
  by_cases held : (s.pc t).holds = true
  · exact absurd blocked (go_holds held)
  unfold go at blocked
  generalize s.pc t = pc at blocked held
  cases pc with
  | idle => exact .inl ⟨rfl, rfl⟩
  | readAsleep => exact .inr ⟨.reader, rfl, rfl⟩
  | writeAsleep => exact .inr ⟨.writer, rfl, rfl⟩
  | readLock | writeLock => exact absurd (Option.map_eq_none_iff.mp blocked) (free _)
  | readWake | readWait | readWoken | writeWake | writeWait | writeWoken | writeSignal => cases blocked
  | _ => exact absurd rfl held

theorem not_stuck (inv : Inv s) (settled : s.sides.Settled s.need) : ¬s.Stuck := by
  rintro ⟨blocked, t, side, inside, needed⟩
  have unlocked : s.lock = none := by
    cases locked : s.lock with
    | none => rfl
    | some u => exact absurd (blocked u) (go_holds ((inv.owner u).mpr locked))
  have rest (u : T) := go_none unlocked (blocked u)
  have still (u : T) (stance : Stance) (moves : stance = .busy ∨ ∃ side, stance = .waits side .edge ∨ stance = .waits side .wait) :
      s.sides.stance u ≠ stance := by
    rintro rfl
    rcases rest u with ⟨-, away⟩ | ⟨side', -, asleep⟩
    · simp [sides, away] at moves
    · simp [sides, asleep] at moves
  have waits : s.sides.Waits side := by
    rcases rest t with ⟨outside, -⟩ | ⟨side', same, asleep⟩
    · cases outside.symm.trans inside
    · cases same.symm.trans inside
      exact ⟨t, .asleep, asleep⟩
  rcases settled side waits needed with ⟨v, busy⟩ | ⟨side', v, free, -⟩ | ⟨side', v, edge, -⟩
  · exact still v _ (.inl rfl) busy
  · exact free.elim (still v _ (.inr ⟨side', .inl rfl⟩)) (still v _ (.inr ⟨side', .inr rfl⟩))
  · exact still v _ (.inr ⟨side', .inl rfl⟩) edge

/-- In every run the bytes that reads have got are the first of those that writes have put, and the rest is in the pipe;
and in a run whose steps are all allowed nobody is left blocked in vain. -/
theorem pipe_served (pool : Nat → UInt8) (bufsz : UInt32) (least : Mem.Config.board.alignSize ≤ bufsz.toNat)
    (most : bufsz.toNat < 0xFFFF) (writer : Bool) :
    (∀ (labels : List (PipeAction T × Option PipeResult)) (s : Pipe T),
      Run (Performs step) (create pool bufsz writer) labels s → s.put = s.got ++ s.fifo.content) ∧
    ∀ (labels : List (PipeAction T × Option PipeResult)) (s : Pipe T),
      Run (fun s label s' => Allowed s label.1 ∧ Performs step s label s') (create pool bufsz writer) labels s →
        ¬s.Stuck := by
  have start : Inv (create pool bufsz writer : Pipe T) := create_inv pool least (by omega) writer
  constructor
  · intro labels s run
    exact (run.invariant Inv (fun _ _ _ inv done => step_inv inv done) start).law
  · intro labels s run
    have fresh : (create pool bufsz writer : Pipe T).sides.Settled (create pool bufsz writer : Pipe T).need := by
      rintro side ⟨t, stage, waits⟩
      cases waits
    obtain ⟨inv, settled⟩ := run.invariant (fun s => Inv s ∧ s.sides.Settled s.need)
      (fun s label s' both done => ⟨step_inv both.1 done.2, step_settled both.1 both.2 done.1 done.2⟩) ⟨start, fresh⟩
    exact not_stuck inv settled

end steps

section demo

theorem pipe_served_eight :
    (∀ (labels : List (PipeAction Nat × Option PipeResult)) (s : Pipe Nat),
      Run (Performs step) (create (fun _ => 0) 8 true) labels s → s.put = s.got ++ s.fifo.content) ∧
    ∀ (labels : List (PipeAction Nat × Option PipeResult)) (s : Pipe Nat),
      Run (fun s label s' => Allowed s label.1 ∧ Performs step s label s') (create (fun _ => 0) 8 true) labels s →
        ¬s.Stuck :=
  pipe_served (fun _ => 0) 8 (by decide) (by decide) true

/-- Threads `a` and `b` wait to read one byte each, and thread `c` writes two. -/
def twoReaders {Thread : Type} (a b c : Thread) : List (PipeAction Thread) :=
  [.read a false (fun _ => 0) 1, .go a, .go a, .go a, .go a, .go a,
    .read b false (fun _ => 0) 1, .go b, .go b, .go b, .go b, .go b,
    .write c false (fun _ => 7) 2, .go c, .go c, .go c, .go c,
    .go a, .go a, .go a, .go a, .go a]

/-- The write wakes the first only, and it returns with one byte: the second stays blocked at the other. -/
theorem pipe_served_twoReaders :
    ¬ ∀ (labels : List (PipeAction (Fin 3) × Option PipeResult)) (s : Pipe (Fin 3)),
      Run (Performs step) (create (fun _ => 0) 8 true) labels s → s.put = s.got ++ s.fifo.content ∧ ¬s.Stuck := by
  intro claimed
  refine (claimed _ _ (drive_get
    (show (drive step (create (fun _ => 0) 8 true) (twoReaders (0 : Fin 3) 1 2)).isSome = true by decide))).2 ⟨?_, 1, .reader, ?_, ?_⟩
  · intro t
    rw [← Option.isNone_iff_eq_none]
    revert t
    decide
  · decide
  · show Ringbuffer.content _ ≠ []
    decide

end demo

end Pipe

end RtThread.Posix
