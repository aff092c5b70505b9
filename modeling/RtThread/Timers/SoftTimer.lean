import RtThread.Timers.TimerList
import RtThread.Lib.Transition

/-! The loop of the timer thread, with every locked section a step of its own, and the soft timers that are
started meanwhile: when it sleeps too long. -/

set_option autoImplicit false
namespace RtThread.Timers
open Lib
open Function (update)

/-- Where the timer thread is in `_timer_thread_entry`. -/
inductive Stage (I : Type) where
  /-- before `_timer_list_next_timeout` -/
  | reading
  /-- no timer was found: before `rt_thread_suspend_with_flag` -/
  | suspending
  /-- before `rt_tick_get` -/
  | ticking (nextTimeout : UInt32)
  /-- before `rt_thread_delay` -/
  | delaying (nextTimeout currentTick : UInt32)
  | suspended
  /-- in `rt_thread_delay`, until its thread timer is due -/
  | sleeping (wake : Nat)
  /-- before a locked section of `rt_soft_timer_check` that looks at the list -/
  | checking
  /-- in the timeout function of `t` -/
  | calling (t : I)
  deriving DecidableEq, Repr

structure SoftTimers (I : Type) where
  time : Nat
  timer : I → Timer
  /-- `_soft_timer_list` -/
  list : List I
  /-- the temporary list of `rt_soft_timer_check` -/
  temp : Option I
  /-- `_soft_timer_status == RT_SOFT_TIMER_BUSY` -/
  busy : Bool
  stage : Stage I

section
variable {I : Type} [DecidableEq I]

namespace SoftTimers

def remove (w : SoftTimers I) (t : I) : SoftTimers I :=
  { w with list := w.list.erase t, temp := if w.temp = some t then none else w.temp }

def insert (w : SoftTimers I) (t : I) : SoftTimers I :=
  let w := w.remove t
  let timer := Function.update w.timer t ((w.timer t).start w.time)
  { w with timer := timer, list := timerInsert timer t w.list }

/-- RT_THREAD_SUSPEND_MASK in the state of the timer thread. -/
def asleep (w : SoftTimers I) : Bool :=
  match w.stage with
  | .suspended | .sleeping _ => true
  | _ => false

end SoftTimers

/-- rt_timer_start of a soft timer: a timer thread that is suspended is resumed, and goes on behind its wait. -/
def rtTimerStart (w : SoftTimers I) (t : I) : SoftTimers I :=
  let w := w.insert t
  if w.busy = false ∧ w.asleep then { w with stage := .checking } else w

def timerListNextTimeout (w : SoftTimers I) : SoftTimers I :=
  match w.list with
  | t :: _ => { w with stage := .ticking (w.timer t).timeoutTick }
  | [] => { w with stage := .suspending }

def getCurrentTick (w : SoftTimers I) (nextTimeout : UInt32) : SoftTimers I :=
  let currentTick := rtTickGet w.time
  if nextTimeout - currentTick < rtTickMax / 2 then { w with stage := .delaying nextTimeout currentTick }
  else { w with stage := .checking }

def rtThreadDelay (w : SoftTimers I) (nextTimeout currentTick : UInt32) : SoftTimers I :=
  let tick := nextTimeout - currentTick
  if tick = 0 then { w with stage := .checking } else { w with stage := .sleeping (w.time + tick.toNat) }

/-- One round of `rt_soft_timer_check` up to the timeout function, or its end. -/
def softTimerCheck (w : SoftTimers I) : SoftTimers I :=
  match w.list with
  | [] => { w with stage := .reading }
  | t :: _ =>
    if rtTickGet w.time - (w.timer t).timeoutTick < rtTickMax / 2 then
      let w := w.remove t
      let timer :=
        if (w.timer t).periodic then w.timer
        else Function.update w.timer t { w.timer t with activated := false }
      { w with timer := timer, temp := some t, busy := true, stage := .calling t }
    else { w with stage := .reading }

/-- The rest of the round behind the timeout function of `t`. -/
def softTimerCalled (w : SoftTimers I) (t : I) : SoftTimers I :=
  let w := { w with busy := false, stage := .checking }
  if w.temp = none then w
  else
    let w := { w with temp := none }
    if (w.timer t).periodic ∧ (w.timer t).activated then
      rtTimerStart { w with timer := Function.update w.timer t { w.timer t with activated := false } } t
    else w

inductive SoftAction (I : Type) where
  /-- a tick interrupt -/
  | tick
  /-- another thread or an interrupt starts a soft timer -/
  | start (t : I)
  | nextTimeout
  | suspend
  | currentTick
  | delay
  /-- the thread timer of the timer thread -/
  | wake
  | check
  | called

def softStep (w : SoftTimers I) : SoftAction I → Option (SoftTimers I × Unit)
  | .tick => some ({ w with time := w.time + 1 }, ())
  | .start t => some (rtTimerStart w t, ())
  | .nextTimeout => if w.stage = .reading then some (timerListNextTimeout w, ()) else none
  | .suspend => if w.stage = .suspending then some ({ w with stage := .suspended }, ()) else none
  | .currentTick =>
    match w.stage with
    | .ticking nextTimeout => some (getCurrentTick w nextTimeout, ())
    | _ => none
  | .delay =>
    match w.stage with
    | .delaying nextTimeout currentTick => some (rtThreadDelay w nextTimeout currentTick, ())
    | _ => none
  | .wake =>
    match w.stage with
    | .sleeping due => if due ≤ w.time then some ({ w with stage := .checking }, ()) else none
    | _ => none
  | .check => if w.stage = .checking then some (softTimerCheck w, ()) else none
  | .called =>
    match w.stage with
    | .calling t => some (softTimerCalled w t, ())
    | _ => none

def softInitial (time : Nat) (timer : I → Timer) : SoftTimers I := ⟨time, timer, [], none, false, .reading⟩

/-- No timer of the list is so late that rt_timer_start puts one of `initTick` in front of it. -/
def inTime (w : SoftTimers I) (t : I) : Bool :=
  (w.list.erase t).all fun u => decide (w.time + (w.timer t).initTick.toNat ≤ (w.timer u).due + 0x80000001)

def softAllows (w : SoftTimers I) : SoftAction I → Bool
  | .start t => inTime w t
  | .called =>
    match w.stage with
    | .calling t =>
      !(w.temp.isSome && (w.timer t).periodic && (w.timer t).activated) || inTime w t
    | _ => true
  | .suspend => w.list.isEmpty
  | .delay =>
    match w.stage, w.list with
    | .delaying nextTimeout currentTick, t :: _ =>
      decide (nextTimeout = currentTick) ||
        decide (rtTickGet w.time = currentTick ∧ (w.timer t).timeoutTick = nextTimeout ∧
          w.time ≤ (w.timer t).due + 0x80000001)
    | _, _ => true
  | _ => true

structure SoftGood (w : SoftTimers I) : Prop where
  nodup : w.list.Nodup
  ticks : ∀ t ∈ w.list, (w.timer t).timeoutTick = rtTickGet (w.timer t).due
  near : ∀ t ∈ w.list, (w.timer t).due < w.time + 0x7FFFFFFF
  sorted : w.list.Pairwise fun a b => dueRank w.timer b ≤ dueRank w.timer a
  busy : w.busy = true → ∃ t, w.stage = .calling t
  delaying : ∀ nextTimeout currentTick, w.stage = .delaying nextTimeout currentTick →
    nextTimeout - currentTick < rtTickMax / 2
  suspended : w.stage = .suspended → w.list = []
  sleeping : ∀ wake, w.stage = .sleeping wake → ∀ t ∈ w.list, wake ≤ (w.timer t).due

variable {w w' : SoftTimers I} {t : I}

def Stage.between : Stage I → Bool
  | .reading | .suspending | .ticking _ | .checking => true
  | _ => false

omit [DecidableEq I] in
theorem SoftGood.idle (good : SoftGood w) (elsewhere : ∀ t, w.stage ≠ .calling t) : w.busy = false := by
  apply eq_false_of_ne_true
  intro busy
  obtain ⟨t, calling⟩ := good.busy busy
  exact elsewhere t calling

omit [DecidableEq I] in
theorem SoftGood.goOn (good : SoftGood w) (elsewhere : ∀ t, w.stage ≠ .calling t) (stage : Stage I)
    (between : stage.between = true) : SoftGood { w with stage := stage } where
  nodup := good.nodup
  ticks := good.ticks
  near := good.near
  sorted := good.sorted
  busy busy := by
    have idle := good.idle elsewhere
    have working : w.busy = true := busy
    rw [idle] at working
    cases working
  delaying next current here := by
    have here : stage = .delaying next current := here
    subst here
    cases between
  suspended here := by
    have here : stage = .suspended := here
    subst here
    cases between
  sleeping wake here := by
    have here : stage = .sleeping wake := here
    subst here
    cases between

section
variable (good : SoftGood w)
include good

omit [DecidableEq I] in
theorem SoftGood.tick : SoftGood { w with time := w.time + 1 } where
  nodup := good.nodup
  ticks := good.ticks
  near t inside := Nat.lt_of_lt_of_le (good.near t inside) (Nat.add_le_add_right (Nat.le_succ w.time) _)
  sorted := good.sorted
  busy := good.busy
  delaying := good.delaying
  suspended := good.suspended
  sleeping := good.sleeping

theorem SoftGood.insert (time : inTime w t = true) :
    (w.insert t).list.Nodup ∧
      (∀ u ∈ (w.insert t).list, ((w.insert t).timer u).timeoutTick = rtTickGet ((w.insert t).timer u).due) ∧
      (∀ u ∈ (w.insert t).list, ((w.insert t).timer u).due < w.time + 0x7FFFFFFF) ∧
      (w.insert t).list.Pairwise fun a b => dueRank (w.insert t).timer b ≤ dueRank (w.insert t).timer a := by
  have own : (w.insert t).timer t = (w.timer t).start w.time := Function.update_self ..
  have others : ∀ u ∈ w.list.erase t, u ≠ t ∧ u ∈ w.list := fun u inside => good.nodup.mem_erase_iff.mp inside
  have same : ∀ u ∈ w.list.erase t, (w.insert t).timer u = w.timer u := fun u inside =>
    Function.update_of_ne (others u inside).1 ..
  have comparable : Comparable (w.insert t).timer (w.list.erase t) t := by
    constructor
    · rw [own]
      exact (w.timer t).start_timeout w.time
    · intro u inside
      rw [same u inside]
      exact good.ticks u (others u inside).2
    · intro u inside
      have near := good.near u (others u inside).2
      rw [own, same u inside]
      simp only [Timer.start]
      omega
    · intro u inside
      have late := of_decide_eq_true (List.all_eq_true.mp time u inside)
      rw [own, same u inside]
      exact late
  have list : (w.insert t).list = (w.list.erase t).orderedInsert
      (fun a b => dueRank (w.insert t).timer b < dueRank (w.insert t).timer a) t := timerInsert_eq comparable
  have before : (w.list.erase t).Pairwise fun a b => dueRank (w.insert t).timer b ≤ dueRank (w.insert t).timer a := by
    apply (good.sorted.sublist List.erase_sublist).imp_of_mem
    intro a b inA inB order
    simp only [dueRank, same a inA, same b inB]
    exact order
  have members : ∀ u ∈ (w.insert t).list, u = t ∨ u ∈ w.list.erase t := by
    intro u inside
    rw [list] at inside
    exact (List.mem_orderedInsert _).mp inside
  refine ⟨?_, ?_, ?_, ?_⟩
  · rw [list]
    have fresh : t ∉ w.list.erase t := fun inside => (others t inside).1 rfl
    exact (List.perm_orderedInsert _ t _).nodup_iff.mpr (List.nodup_cons.mpr ⟨fresh, good.nodup.erase t⟩)
  · intro u inside
    rcases members u inside with rfl | old
    · exact comparable.own
    · exact comparable.ticks u old
  · intro u inside
    rcases members u inside with rfl | old
    · have short := (w.timer u).short_toNat
      rw [own]
      simp only [Timer.start]
      omega
    · rw [same u old]
      exact good.near u (others u old).2
  · rw [list]
    exact orderedInsert_sorted _ t before

theorem SoftGood.start (time : inTime w t = true) : SoftGood (rtTimerStart w t) := by
  obtain ⟨nodup, ticks, near, sorted⟩ := good.insert time
  simp only [rtTimerStart]
  split
  case isTrue resumed =>
    refine ⟨nodup, ticks, near, sorted, ?_, ?_, ?_, ?_⟩
    · intro busy
      rw [resumed.1] at busy
      cases busy
    · intro next current here
      cases here
    · intro here
      cases here
    · intro wake here
      cases here
  case isFalse awake =>
    -- a timer thread that was not resumed did not wait
    have running : w.asleep = false := by
      cases busy : w.busy with
      | true =>
        obtain ⟨u, calling⟩ := good.busy busy
        simp [SoftTimers.asleep, calling]
      | false => exact eq_false_of_ne_true fun sleeping => awake ⟨busy, sleeping⟩
    refine ⟨nodup, ticks, near, sorted, good.busy, good.delaying, ?_, ?_⟩
    · intro here
      have stage : w.stage = .suspended := here
      simp [SoftTimers.asleep, stage] at running
    · intro wake here
      have stage : w.stage = .sleeping wake := here
      simp [SoftTimers.asleep, stage] at running

theorem SoftGood.delay {next current : UInt32} (stage : w.stage = .delaying next current)
    (may : softAllows w .delay = true) : SoftGood (rtThreadDelay w next current) := by
  have elsewhere : ∀ t, w.stage ≠ .calling t := by
    intro t calling
    rw [stage] at calling
    cases calling
  unfold rtThreadDelay
  by_cases now : next - current = 0
  · simp only [if_pos now]
    exact good.goOn elsewhere .checking rfl
  · simp only [if_neg now]
    refine ⟨good.nodup, good.ticks, good.near, good.sorted, ?_, ?_, ?_, ?_⟩
    · intro busy
      have working : w.busy = true := busy
      rw [good.idle elsewhere] at working
      cases working
    · intro next current here
      cases here
    · intro here
      cases here
    · intro wake here
      cases list : w.list with
      | nil => exact fun t inside => absurd inside List.not_mem_nil
      | cons t rest =>
        have apart : next ≠ current := by
          rintro rfl
          exact now (UInt32.sub_self _)
        have inside : t ∈ w.list := by simp [list]
        simp only [softAllows, stage, list, apart, decide_false, Bool.false_or, decide_eq_true_eq] at may
        obtain ⟨ticked, head, late⟩ := may
        have half := good.delaying next current stage
        rw [← ticked, ← head, good.ticks t inside, tick_sub_lt_half (good.near t inside) late] at half
        have near := good.near t inside
        have wakes : wake = w.time + (next - current).toNat := by
          cases here
          rfl
        have exact : wake = (w.timer t).due := by
          rw [wakes, ← ticked, ← head, good.ticks t inside, UInt32.toNat_sub, rtTickGet_toNat, rtTickGet_toNat]
          omega
        have sorted := good.sorted
        rw [list, List.pairwise_cons] at sorted
        intro u listed
        rcases List.mem_cons.mp listed with rfl | later
        · exact exact.le
        · have order := sorted.1 u later
          simp only [dueRank] at order
          simp only
          omega

theorem SoftGood.check (stage : w.stage = .checking) : SoftGood (softTimerCheck w) := by
  have elsewhere : ∀ t, w.stage ≠ .calling t := by
    intro t calling
    rw [stage] at calling
    cases calling
  have ended := good.goOn elsewhere .reading rfl
  unfold softTimerCheck
  cases list : w.list with
  | nil =>
    rw [list] at ended
    exact ended
  | cons t rest =>
    simp only
    split
    case isFalse =>
      rw [list] at ended
      exact ended
    case isTrue =>
      have left : w.list.erase t = rest := by simp [list]
      have fields : ∀ u, ((if ((w.remove t).timer t).periodic then (w.remove t).timer
          else update (w.remove t).timer t { (w.remove t).timer t with activated := false }) u).due =
            (w.timer u).due ∧
          ((if ((w.remove t).timer t).periodic then (w.remove t).timer
          else update (w.remove t).timer t { (w.remove t).timer t with activated := false })
            u).timeoutTick = (w.timer u).timeoutTick := by
        intro u
        split
        · exact ⟨rfl, rfl⟩
        · by_cases own : u = t
          · subst own
            simp [SoftTimers.remove]
          · simp [SoftTimers.remove, own]
      have inside : ∀ u, u ∈ w.list.erase t → u ∈ w.list := fun u => List.mem_of_mem_erase
      constructor
      · exact good.nodup.erase t
      · intro u listed
        rw [(fields u).1, (fields u).2]
        exact good.ticks u (inside u listed)
      · intro u listed
        rw [(fields u).1]
        exact good.near u (inside u listed)
      · apply (good.sorted.sublist List.erase_sublist).imp
        intro a b order
        simp only [dueRank, (fields a).1, (fields b).1]
        exact order
      · exact fun _ => ⟨t, rfl⟩
      · intro next current here
        cases here
      · intro here
        cases here
      · intro wake here
        cases here

theorem SoftGood.called (stage : w.stage = .calling t)
    (may : softAllows w .called = true) : SoftGood (softTimerCalled w t) := by
  have after : SoftGood { w with busy := false, stage := .checking } := by
    refine ⟨good.nodup, good.ticks, good.near, good.sorted, ?_, ?_, ?_, ?_⟩
    · intro busy
      cases busy
    · intro next current here
      cases here
    · intro here
      cases here
    · intro wake here
      cases here
  simp only [softTimerCalled]
  split
  case isTrue => exact after
  case isFalse some =>
    have emptied : SoftGood { w with busy := false, stage := .checking, temp := none } :=
      ⟨after.nodup, after.ticks, after.near, after.sorted, after.busy, after.delaying, after.suspended,
        after.sleeping⟩
    split
    case isFalse => exact emptied
    case isTrue again =>
      have time : inTime w t = true := by
        have temp : w.temp.isSome = true := Option.isSome_iff_ne_none.mpr some
        simpa [softAllows, stage, temp, again.1, again.2] using may
      have fields : ∀ u, (update w.timer t { w.timer t with activated := false } u).due =
            (w.timer u).due ∧
          (update w.timer t { w.timer t with activated := false } u).timeoutTick =
            (w.timer u).timeoutTick ∧
          (update w.timer t { w.timer t with activated := false } u).initTick =
            (w.timer u).initTick := by
        intro u
        by_cases own : u = t
        · subst own
          simp
        · simp [own]
      have marked : SoftGood { w with
          busy := false, stage := .checking, temp := none
          timer := update w.timer t { w.timer t with activated := false } } := by
        refine ⟨emptied.nodup, ?_, ?_, ?_, emptied.busy, emptied.delaying, emptied.suspended, ?_⟩
        · intro u inside
          rw [(fields u).1, (fields u).2.1]
          exact emptied.ticks u inside
        · intro u inside
          rw [(fields u).1]
          exact emptied.near u inside
        · apply emptied.sorted.imp
          intro a b order
          simp only [dueRank, (fields a).1, (fields b).1]
          exact order
        · intro wake here
          cases here
      apply marked.start
      unfold inTime at time ⊢
      rw [List.all_eq_true] at time ⊢
      intro u inside
      rw [(fields u).1, (fields t).2.2]
      exact time u inside

theorem softStep_good {action : SoftAction I} {result : SoftTimers I × Unit}
    (may : softAllows w action = true) (step : softStep w action = some result) : SoftGood result.1 := by
  cases action with
  | tick =>
    cases step
    exact good.tick
  | start t =>
    cases step
    exact good.start may
  | nextTimeout =>
    simp only [softStep] at step
    split at step
    case isFalse => cases step
    case isTrue stage =>
      cases step
      have elsewhere : ∀ t, w.stage ≠ .calling t := by simp [stage]
      unfold timerListNextTimeout
      split
      · exact good.goOn elsewhere (.ticking _) rfl
      · exact good.goOn elsewhere .suspending rfl
  | suspend =>
    simp only [softStep] at step
    split at step
    case isFalse => cases step
    case isTrue stage =>
      cases step
      have empty : w.list = [] := List.isEmpty_iff.mp may
      have elsewhere : ∀ t, w.stage ≠ .calling t := by simp [stage]
      refine ⟨good.nodup, good.ticks, good.near, good.sorted, ?_, ?_, fun _ => empty, ?_⟩
      · intro busy
        have working : w.busy = true := busy
        rw [good.idle elsewhere] at working
        cases working
      · intro next current here
        cases here
      · intro wake here
        cases here
  | currentTick =>
    simp only [softStep] at step
    split at step
    case h_2 => cases step
    case h_1 next stage =>
      cases step
      have elsewhere : ∀ t, w.stage ≠ .calling t := by simp [stage]
      simp only [getCurrentTick]
      split
      case isFalse => exact good.goOn elsewhere .checking rfl
      case isTrue half =>
        refine ⟨good.nodup, good.ticks, good.near, good.sorted, ?_, ?_, ?_, ?_⟩
        · intro busy
          have working : w.busy = true := busy
          rw [good.idle elsewhere] at working
          cases working
        · intro next' current' here
          cases here
          exact half
        · intro here
          cases here
        · intro wake here
          cases here
  | delay =>
    simp only [softStep] at step
    split at step
    case h_2 => cases step
    case h_1 next current stage =>
      cases step
      exact good.delay stage may
  | wake =>
    simp only [softStep] at step
    split at step
    case h_2 => cases step
    case h_1 due stage =>
      split at step
      case isFalse => cases step
      case isTrue =>
        cases step
        exact good.goOn (by simp [stage]) .checking rfl
  | check =>
    simp only [softStep] at step
    split at step
    case isFalse => cases step
    case isTrue stage =>
      cases step
      exact good.check stage
  | called =>
    simp only [softStep] at step
    split at step
    case h_2 => cases step
    case h_1 t stage =>
      cases step
      exact good.called stage may

end

theorem softRuns_good {labels : List (SoftAction I × Unit)} (start : SoftGood w)
    (run : Run (Performs (guarded softStep softAllows)) w labels w') : SoftGood w' := by
  apply run.invariant SoftGood _ start
  intro s label s' good taken
  obtain ⟨may, step⟩ := guarded_eq_some taken
  exact softStep_good good may step

omit [DecidableEq I] in
theorem softInitial_good (time : Nat) (timer : I → Timer) : SoftGood (softInitial time timer) where
  nodup := List.nodup_nil
  ticks := nofun
  near := nofun
  sorted := List.Pairwise.nil
  busy := nofun
  delaying := nofun
  suspended := nofun
  sleeping := nofun

/-- In every run in which the timer thread acts on what is still so (the list it found empty is empty when it
suspends itself; the next timeout and the tick it read are those of the list and of the clock when it
begins to sleep) and no timer is later than half the range allows: while it is suspended there is no soft
timer, and while it sleeps none is due before it wakes. -/
theorem softTimer_wakeup (time : Nat) (timer : I → Timer) {labels : List (SoftAction I × Unit)}
    (run : Run (Performs (guarded softStep softAllows)) (softInitial time timer) labels w) :
    (w.stage = .suspended → w.list = []) ∧
      ∀ wake, w.stage = .sleeping wake → ∀ t ∈ w.list, wake ≤ (w.timer t).due := by
  have good := softRuns_good (softInitial_good time timer) run
  exact ⟨good.suspended, good.sleeping⟩

/-- A round of `rt_soft_timer_check` calls a timer that is due, off the list by then, and no timer left is due before it.
It ends only where no timer is due, but for one that is late by half the range. -/
def CallsEarliest (w : SoftTimers I) : Prop :=
  (∃ t ∈ w.list, (softTimerCheck w).stage = .calling t ∧ (w.timer t).due ≤ w.time ∧
      (softTimerCheck w).list = w.list.erase t ∧ t ∉ w.list.erase t ∧
      ∀ u ∈ w.list.erase t, (w.timer t).due ≤ (w.timer u).due) ∨
    softTimerCheck w = { w with stage := .reading } ∧
      ((∀ t ∈ w.list, w.time < (w.timer t).due + 0x7FFFFFFF) → ∀ t ∈ w.list, w.time < (w.timer t).due)

theorem softTimer_order (time : Nat) (timer : I → Timer) {labels : List (SoftAction I × Unit)}
    (run : Run (Performs (guarded softStep softAllows)) (softInitial time timer) labels w) : CallsEarliest w := by
  have good := softRuns_good (softInitial_good time timer) run
  unfold CallsEarliest softTimerCheck
  cases list : w.list with
  | nil => exact .inr ⟨rfl, fun _ => nofun⟩
  | cons t rest =>
    have head : t ∈ w.list := by simp [list]
    have nodup := good.nodup
    have sorted := good.sorted
    rw [list, List.nodup_cons] at nodup
    rw [list, List.pairwise_cons] at sorted
    have later : ∀ u ∈ rest, (w.timer t).due ≤ (w.timer u).due := fun u inside =>
      Int.ofNat_le.mp (Int.neg_le_neg_iff.mp (sorted.1 u inside))
    have near := good.near t head
    have ticks : rtTickGet w.time - (w.timer t).timeoutTick < rtTickMax / 2 ↔
        (2 ^ 32 - (w.timer t).due % 2 ^ 32 + w.time % 2 ^ 32) % 2 ^ 32 < 0x7FFFFFFF := by
      rw [good.ticks t head, UInt32.lt_iff_toNat_lt, half_toNat, UInt32.toNat_sub, rtTickGet_toNat, rtTickGet_toNat]
    simp only [ticks]
    split
    case isTrue now =>
      refine .inl ⟨t, List.mem_cons_self, rfl, by omega, ?_⟩
      rw [List.erase_cons_head]
      exact ⟨by simp [SoftTimers.remove, list], nodup.1, later⟩
    case isFalse wait =>
      refine .inr ⟨rfl, fun inTime u inside => ?_⟩
      have first : w.time < (w.timer t).due := by
        have short := inTime t List.mem_cons_self
        omega
      rcases List.mem_cons.mp inside with rfl | behind
      · exact first
      · exact Nat.lt_of_lt_of_le first (later u behind)

end

def demoTimer (initTick : Fin 100) (periodic : Bool) : Timer where
  initTick := UInt32.ofNat initTick
  timeoutTick := 0
  periodic := periodic
  activated := false
  due := 0
  short := by
    rw [UInt32.lt_iff_toNat_lt, half_toNat, UInt32.toNat_ofNat']
    omega

/-- Across the wrap of the tick: a timer of 5 ticks, then one of 2 while the thread sleeps. -/
def softDemo : List (SoftAction Bool) :=
  [.nextTimeout, .suspend, .start true, .check, .nextTimeout, .currentTick, .delay, .tick, .start false, .check,
    .nextTimeout, .currentTick, .delay]

theorem softTimer_wakeup_demo :
    let timer : Bool → Timer := fun b => if b then demoTimer 5 true else demoTimer 2 false
    let done := (drive (guarded softStep softAllows) (softInitial 0xFFFFFFFE timer) softDemo).get (by decide)
    (done.1.stage = .suspended → done.1.list = []) ∧
      ∀ wake, done.1.stage = .sleeping wake → ∀ t ∈ done.1.list, wake ≤ (done.1.timer t).due :=
  softTimer_wakeup 0xFFFFFFFE _ (drive_get (by decide))

theorem softTimer_order_demo :
    let timer : Bool → Timer := fun b => if b then demoTimer 5 true else demoTimer 2 false
    CallsEarliest ((drive (guarded softStep softAllows) (softInitial 0xFFFFFFFE timer)
      [.nextTimeout, .suspend, .start true, .start false, .tick, .tick]).get (by decide)).1 :=
  softTimer_order 0xFFFFFFFE _ (drive_get (by decide))

def softLost : List (SoftAction Unit) := [.nextTimeout, .start (), .suspend]

theorem softTimer_lost :
    let start : SoftTimers Unit := softInitial 0 fun _ => demoTimer 5 false
    let done := (drive softStep start softLost).get (by decide)
    Run (Performs softStep) start done.2 done.1 ∧ done.1.stage = .suspended ∧ done.1.list ≠ [] :=
  ⟨drive_get (by decide), by decide, by decide⟩

end RtThread.Timers
