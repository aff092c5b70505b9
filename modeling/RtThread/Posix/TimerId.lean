import RtThread.Lib.Segment
import RtThread.Lib.Transition
import Mathlib.Data.List.Perm.Basic
import Mathlib.Data.List.Range

/-! POSIX timers and their ids: `timer_create`, `timer_settime`, `timer_gettime` and `timer_delete` of `ctime.c` over
the ids of `resource_id.c`. -/

set_option autoImplicit false
namespace RtThread.Posix
open Lib
open Function (update update_of_ne update_self)

/-- `resource_id_t`: the cells of `_res` hold the links of the free ones, by their index. -/
structure ResourceId where
  size : Nat
  res : Nat → Option Nat
  noused : Nat
  free : Option Nat

def resourceIdGet (mgr : ResourceId) : ResourceId × Option Nat :=
  match mgr.free with
  | some cur => ({ mgr with free := mgr.res cur }, some cur)
  | none =>
    if mgr.noused < mgr.size then ({ mgr with noused := mgr.noused + 1 }, some mgr.noused)
    else (mgr, none)

def resourceIdPut (mgr : ResourceId) (no : Nat) : ResourceId :=
  if no < mgr.size then { mgr with res := Function.update mgr.res no mgr.free, free := some no } else mgr

structure TimeSpec where
  sec : Int64
  nsec : Int64
  deriving DecidableEq

structure ITimerSpec where
  interval : TimeSpec
  value : TimeSpec
  deriving DecidableEq

/-- `struct timer_obj`, but for its high-resolution timer and what it notifies. -/
structure TimerObj where
  interval : TimeSpec
  value : TimeSpec
  reload : UInt32
  active : Bool
  clockid : Nat
  timerId : Nat

inductive Errno where
  | einval
  | enomem
  | efault
  deriving DecidableEq

inductive TimerResult where
  | created (id : Nat)
  /-- -1, without an errno -/
  | overflow
  | failed (errno : Errno)
  | done
  | remaining (its : ITimerSpec)
  | error (err : Int32)
  deriving DecidableEq

/-- The timers, their objects in memory, and the timers that clients hold: `live` has the id and the object of each
timer that has been created and not been deleted. -/
structure PosixTimers (A : Type) where
  idTimer : ResourceId
  timerid : Nat → Option A
  obj : A → TimerObj
  allocated : A → Bool
  live : List (Nat × A)

inductive TimerCall (A : Type) where
  /-- with the object that `rt_malloc` gives -/
  | create (clockid : Nat) (thread null : Bool) (memory : Option A)
  | delete (id : Nat)
  | gettime (id : Nat) (null : Bool) (remain res : UInt32)
  /-- with the outcome of the clock that `flags` asks for -/
  | settime (id : Nat) (absolute : Bool) (value : ITimerSpec) (clock : Int32 × TimeSpec) (res : UInt32)
  /-- the timer runs out -/
  | expire (a : A) (res : UInt32)

def timerIdMax : Nat := 50

/-- CLOCK_REALTIME, CLOCK_REALTIME_ALARM -/
def rtcClocks : List Nat := [1, 8]

/-- CLOCK_MONOTONIC, CLOCK_BOOTTIME, CLOCK_BOOTTIME_ALARM, CLOCK_PROCESS_CPUTIME_ID, CLOCK_THREAD_CPUTIME_ID -/
def bootClocks : List Nat := [4, 7, 9, 2, 3]

def nanosecondPerSecond : Int64 := 1000000000

def rtKtimeResmul : Int64 := 1000000

def TimeSpec.zero : TimeSpec := ⟨0, 0⟩

/-- The checks of `timer_settime` on its value. -/
def ITimerSpec.invalid (value : ITimerSpec) : Bool :=
  value.interval.nsec < 0 || value.interval.nsec ≥ nanosecondPerSecond || value.interval.sec < 0 ||
    value.value.nsec < 0 || value.value.nsec ≥ nanosecondPerSecond || value.value.sec < 0

namespace PosixTimers
variable {A : Type}

section calls
variable [DecidableEq A]

def setObj (w : PosixTimers A) (a : A) (timer : TimerObj) : PosixTimers A :=
  { w with obj := Function.update w.obj a timer }

def timerCreate (w : PosixTimers A) (clockid : Nat) (thread null : Bool) (memory : Option A) :
    PosixTimers A × TimerResult :=
  if null then (w, .failed .einval)
  else if thread then (w, .failed .einval)
  else if clockid ∉ rtcClocks ++ bootClocks then (w, .failed .einval)
  else
    match memory with
    | none => (w, .failed .enomem)
    | some a =>
      let timer : TimerObj :=
        { (w.obj a) with interval := .zero, reload := 0, active := false, clockid := clockid }
      let w := { w.setObj a timer with allocated := Function.update w.allocated a true }
      match resourceIdGet w.idTimer with
      | (_, none) => (w, .overflow)
      | (idTimer, some id) =>
        ({ w.setObj a { timer with timerId := id } with
            idTimer := idTimer, timerid := Function.update w.timerid id (some a), live := (id, a) :: w.live },
          .created id)

def timerDelete (w : PosixTimers A) (id : Nat) : PosixTimers A × TimerResult :=
  if id ≥ timerIdMax then (w, .failed .einval)
  else
    match w.timerid id with
    | none => (w, .failed .einval)
    | some a =>
      let w := { w with idTimer := resourceIdPut w.idTimer id }
      let w := if (w.obj a).active then w.setObj a { w.obj a with active := false } else w
      ({ w with allocated := Function.update w.allocated a false, live := w.live.filter fun timer => timer.1 ≠ id },
        .done)

def timerGettime (w : PosixTimers A) (id : Nat) (null : Bool) (remain res : UInt32) : TimerResult :=
  match w.timerid id with
  | none => .failed .einval
  | some a =>
    if null then .failed .efault
    else
      let timer := w.obj a
      let nanoseconds := remain * res / 1000000
      let value : TimeSpec :=
        if timer.active then
          ⟨(nanoseconds / 1000000000).toInt32.toInt64, (nanoseconds % 1000000000).toInt32.toInt64⟩
        else .zero
      .remaining ⟨timer.interval, value⟩

/-- What `timer_settime` does with an object. -/
def arm (timer : TimerObj) (absolute : Bool) (value : ITimerSpec) (clock : Int32 × TimeSpec) (res : UInt32) :
    TimerObj × TimerResult :=
  if value.value = .zero then ({ timer with active := false }, .done)
  else if timer.clockid ∉ rtcClocks ++ bootClocks then (timer, .failed .einval)
  else
    let (err, ts) := if absolute then clock else (0, .zero)
    if err ≠ 0 then (timer, .error err)
    else
      let ns := value.value.nsec - ts.nsec + (value.value.sec - ts.sec) * nanosecondPerSecond
      if ns ≤ 0 then (timer, .done)
      else
        ({ timer with
            reload := (ns * rtKtimeResmul / Int64.ofNat res.toNat).toUInt64.toUInt32
            interval := value.interval
            value := value.value
            active := true },
          .done)

def timerSettime (w : PosixTimers A) (id : Nat) (absolute : Bool) (value : ITimerSpec) (clock : Int32 × TimeSpec)
    (res : UInt32) : PosixTimers A × TimerResult :=
  match w.timerid id with
  | none => (w, .failed .einval)
  | some a =>
    if value.invalid then (w, .failed .einval)
    else
      let (timer, result) := arm (w.obj a) absolute value clock res
      (w.setObj a timer, result)

def wrapper (timer : TimerObj) (res : UInt32) : TimerObj :=
  let timer := if timer.reload = 0 then { timer with active := false } else timer
  let ns := timer.interval.sec * nanosecondPerSecond + timer.interval.nsec
  { timer with reload := (ns * rtKtimeResmul / Int64.ofNat res.toNat).toUInt64.toUInt32 }

/-- A call, or a timer that runs out. `rt_malloc` gives memory that is not in use, and only a timer that is there runs
out. -/
def step (w : PosixTimers A) : TimerCall A → Option (PosixTimers A × TimerResult)
  | .create clockid thread null memory =>
    if ∀ a ∈ memory, w.allocated a = false then some (w.timerCreate clockid thread null memory) else none
  | .delete id => some (w.timerDelete id)
  | .gettime id null remain res => some (w, w.timerGettime id null remain res)
  | .settime id absolute value clock res => some (w.timerSettime id absolute value clock res)
  | .expire a res => if w.allocated a then some (w.setObj a (wrapper (w.obj a) res), .done) else none

end calls

def ids (w : PosixTimers A) : List Nat := w.live.map Prod.fst

/-- No timers yet. Behind `_g_timerid` there is memory that is not the timers'. -/
def start (stray : Nat → Option A) (obj : A → TimerObj) (allocated : A → Bool) : PosixTimers A where
  idTimer := ⟨timerIdMax, fun _ => none, 0, none⟩
  timerid id := if id < timerIdMax then none else stray id
  obj := obj
  allocated := allocated
  live := []

/-- A call does not take the id of a deleted timer for a timer: the id is live, or there is nothing in its place, or
the call fails before it looks there. -/
def allows (w : PosixTimers A) : TimerCall A → Bool
  | .create .. => true
  | .delete id => id ∈ w.ids || id ≥ timerIdMax || w.timerid id = none
  | .gettime id null .. => id ∈ w.ids || null || w.timerid id = none
  | .settime id _ value .. => id ∈ w.ids || value.invalid || w.timerid id = none
  | .expire .. => true

def target : TimerCall A → Option Nat
  | .delete id => some id
  | .gettime id .. => some id
  | .settime id .. => some id
  | .create .. => none
  | .expire .. => none

def code : TimerResult → Int
  | .created _ => 0
  | .overflow => -1
  | .failed _ => -1
  | .done => 0
  | .remaining _ => 0
  | .error err => err.toInt

structure Sound (w : PosixTimers A) : Prop where
  once : w.ids.Nodup
  denotes : ∀ timer ∈ w.live, w.timerid timer.1 = some timer.2 ∧ w.allocated timer.2 = true

structure Right (w : PosixTimers A) (call : TimerCall A) (w' : PosixTimers A) (result : TimerResult) : Prop where
  created : ∀ id, result = .created id → id ∉ w.ids ∧ ∃ a, w'.live = (id, a) :: w.live
  overflow : result = .overflow → w.ids.length = timerIdMax
  dead : ∀ id, target call = some id → id ∉ w.ids → code result = -1 ∧ w' = w
  kept : ∀ timer ∈ w.live, timer ∈ w'.live ∨ call = .delete timer.1 ∧ result = .done

/-- The free list is `chain`; it and the live ids are the ids given out so far. -/
structure Inv (w : PosixTimers A) (chain : List Nat) : Prop where
  links : Segment w.idTimer.res w.idTimer.free chain none
  pool : (chain ++ w.ids).Perm (List.range w.idTimer.noused)
  size : w.idTimer.size = timerIdMax
  bound : w.idTimer.noused ≤ timerIdMax
  fresh : ∀ id, w.idTimer.noused ≤ id → id < timerIdMax → w.timerid id = none
  denotes : ∀ timer ∈ w.live, w.timerid timer.1 = some timer.2 ∧ w.allocated timer.2 = true
  owners : (w.live.map Prod.snd).Nodup

variable {w : PosixTimers A} {chain : List Nat}

theorem Inv.used (inv : Inv w chain) {id : Nat} (given : id ∈ chain ++ w.ids) : id < w.idTimer.noused :=
  List.mem_range.mp (inv.pool.mem_iff.mp given)

theorem Inv.nodup (inv : Inv w chain) : (chain ++ w.ids).Nodup := inv.pool.nodup_iff.mpr List.nodup_range

theorem Inv.sound (inv : Inv w chain) : w.Sound where
  once := (List.nodup_append.mp inv.nodup).2.1
  denotes := inv.denotes

theorem Inv.unshared (inv : Inv w chain) {timer other : Nat × A} (first : timer ∈ w.live) (second : other ∈ w.live)
    (same : timer.2 = other.2) : timer = other :=
  List.inj_on_of_nodup_map inv.owners first second same

theorem ids_of_mem {timer : Nat × A} (live : timer ∈ w.live) : timer.1 ∈ w.ids := List.mem_map_of_mem live

theorem start_inv (stray : Nat → Option A) (obj : A → TimerObj) (allocated : A → Bool) :
    Inv (start stray obj allocated) [] where
  links := rfl
  pool := .refl _
  size := rfl
  bound := Nat.zero_le _
  fresh _ _ below := if_pos below
  denotes := nofun
  owners := List.nodup_nil

variable [DecidableEq A]

theorem Inv.setObj (inv : Inv w chain) (a : A) (timer : TimerObj) : Inv (w.setObj a timer) chain :=
  ⟨inv.links, inv.pool, inv.size, inv.bound, inv.fresh, inv.denotes, inv.owners⟩

theorem Inv.drop (inv : Inv w chain) {id : Nat} {a : A} (live : (id, a) ∈ w.live) :
    Inv { w with
      idTimer := resourceIdPut w.idTimer id
      allocated := update w.allocated a false
      live := w.live.filter fun timer => timer.1 ≠ id } (id :: chain) := by
  have used := inv.used (List.mem_append_right _ (ids_of_mem live))
  have inside : id < w.idTimer.size := Nat.lt_of_lt_of_le used (inv.size ▸ inv.bound)
  have put : resourceIdPut w.idTimer id =
      { w.idTimer with res := update w.idTimer.res id w.idTimer.free, free := some id } := if_pos inside
  have listed : id ∉ chain := fun free =>
    (List.nodup_append.mp inv.nodup).2.2 id free id (ids_of_mem live) rfl
  rw [put]
  refine ⟨⟨rfl, ?_⟩, ?_, inv.size, inv.bound, inv.fresh, ?_, ?_⟩
  · show Segment _ (update w.idTimer.res id w.idTimer.free id) chain none
    rw [update_self]
    refine inv.links.congr fun other free => update_of_ne ?_ ..
    rintro rfl
    exact listed free
  · have rest : (w.live.filter fun timer => timer.1 ≠ id).map Prod.fst = w.ids.erase id := by
      rw [inv.sound.once.erase_eq_filter, ids, List.filter_map]
      congr 1
      exact List.filter_congr fun timer _ => decide_not
    refine List.Perm.trans ?_ inv.pool
    show (id :: (chain ++ (w.live.filter fun timer => timer.1 ≠ id).map Prod.fst)).Perm _
    rw [rest]
    exact List.perm_middle.symm.trans ((List.perm_cons_erase (ids_of_mem live)).symm.append_left chain)
  · intro timer kept
    obtain ⟨old, differ⟩ := List.mem_filter.mp kept
    refine ⟨(inv.denotes timer old).1, (update_of_ne ?_ ..).trans (inv.denotes timer old).2⟩
    intro same
    have one := inv.unshared old live same
    exact of_decide_eq_true differ (congrArg Prod.fst one)
  · exact inv.owners.sublist (List.filter_sublist.map Prod.snd)

section runs
variable {stray : Nat → Option A} {obj : A → TimerObj} {allocated : A → Bool}

end runs

section demo

/-- Objects are made at the addresses 7, 8 and 9. -/
def demo : List (TimerCall Nat) :=
  [.create 1 false false (some 7), .create 4 false false (some 8), .settime 1 false ⟨.zero, ⟨2, 0⟩⟩ (0, .zero) 1000,
    .delete 0, .create 1 false false (some 9), .gettime 0 false 0 1000]

end demo

end PosixTimers

end RtThread.Posix
