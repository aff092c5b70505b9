import RtThread.Lib.Throughout
import RtThread.Work.Accepted

/-! `rt_workqueue_cancel_work_sync`: a thread waits for the item that is executed, or cancels one that is not. -/

set_option autoImplicit false
namespace RtThread.Work
open Lib

/-- `queue->sem` -/
structure Sem (T : Type) where
  value : Nat
  waiters : List T

namespace Sem
variable {T : Type} (sem : Sem T)

/-- `none` for -RT_ETIMEOUT -/
def rtSemTrytake : Option (Sem T) := if sem.value > 0 then some { sem with value := sem.value - 1 } else none

/-- With RT_WAITING_FOREVER; `false` where the thread is suspended. -/
def rtSemTake (t : T) : Sem T × Bool :=
  if sem.value > 0 then ({ sem with value := sem.value - 1 }, true)
  else ({ sem with waiters := sem.waiters ++ [t] }, false)

def rtSemRelease : Sem T × Option T :=
  match sem.waiters with
  | t :: waiters => ({ sem with waiters := waiters }, some t)
  | [] => ({ sem with value := sem.value + 1 }, none)

end Sem

/-- The loop of `_workqueue_work_completion`, with the threads it resumes; `none` when the fuel does not last. -/
def workqueueWorkCompletion {T : Type} : Nat → Sem T → Option (Sem T × List T)
  | 0, _ => none
  | fuel + 1, sem =>
    match sem.rtSemTrytake with
    | some sem => some (sem, [])
    | none =>
      let (sem, resumed) := sem.rtSemRelease
      (workqueueWorkCompletion fuel sem).map fun (sem, more) => (sem, resumed.toList ++ more)

/-- Where a thread is in `rt_workqueue_cancel_work_sync`. -/
inductive Phase (I : Type) where
  | outside
  /-- it has found the item executed, and is before `rt_sem_take` -/
  | waits (i : I)
  | blocked (i : I)
  /-- it has found the item not executed, and is before `_workqueue_cancel_work` -/
  | cancels (i : I)
  /-- nothing is left to do but to return -/
  | leaving (i : I)
  deriving DecidableEq

def Phase.item {I : Type} : Phase I → Option I
  | .outside => none
  | .waits i | .blocked i | .cancels i | .leaving i => some i

def Phase.resumed {I : Type} : Phase I → Phase I
  | .blocked i => .leaving i
  | phase => phase

structure SyncQueue (I T : Type) where
  queue : WorkQueue I
  sem : Sem T
  /-- the item whose function has returned, until `_workqueue_work_completion` is over -/
  acking : Option I
  phase : T → Phase I
  /-- no submission of the item since the thread's call began -/
  fresh : T → Bool

inductive SyncAction (I T : Type) where
  | queue (a : WorkAction I)
  | call (t : T) (i : I)
  | semTake (t : T)
  | cancel (t : T)
  | completion
  | ret (t : T)

section
variable {I T : Type} [DecidableEq I] [DecidableEq T]

def submits (a : WorkAction I) (e : WorkEvent I) : Option I :=
  match a with
  | .submit i _ | .urgent i => if e = .failed then none else some i
  | _ => none

namespace SyncQueue
variable (s : SyncQueue I T)

omit [DecidableEq I] in
def goto (t : T) (phase : Phase I) : SyncQueue I T := { s with phase := Function.update s.phase t phase }

def step : SyncAction I T → Option (SyncQueue I T)
  | .queue a =>
    if a = .take ∧ s.acking.isSome then none
    else
      (workStep s.queue a).map fun (queue, e) =>
        { s with
          queue := queue
          acking := if a = .done then s.queue.workCurrent else s.acking
          fresh := fun t => s.fresh t && !((submits a e).isSome && (s.phase t).item == submits a e) }
  | .call t i =>
    if s.phase t = .outside then
      let s := { s with fresh := Function.update s.fresh t true }
      some (s.goto t (if s.queue.workCurrent = some i then .waits i else .cancels i))
    else none
  | .semTake t =>
    match s.phase t with
    | .waits i =>
      let (sem, taken) := s.sem.rtSemTake t
      let s := { s with sem := sem }
      some (s.goto t (if taken then .leaving i else .blocked i))
    | _ => none
  | .cancel t =>
    match s.phase t with
    | .cancels i =>
      match workqueueCancelWork s.queue i with
      -- an assertion fails, and the thread stops there
      | none => some s
      | some (queue, _) =>
        let s := { s with queue := queue }
        some (s.goto t (.leaving i))
    | _ => none
  | .completion =>
    if s.acking.isSome then
      (workqueueWorkCompletion (s.sem.waiters.length + 2) s.sem).map fun (sem, resumed) =>
        { s with
          sem := sem
          acking := none
          phase := fun t => if t ∈ resumed then (s.phase t).resumed else s.phase t }
    else none
  | .ret t =>
    match s.phase t with
    | .leaving _ => some (s.goto t .outside)
    | _ => none

def Step (s : SyncQueue I T) (a : SyncAction I T) (s' : SyncQueue I T) : Prop := s.step a = some s'

omit [DecidableEq I] [DecidableEq T] in
def start : SyncQueue I T := ⟨workInitial, ⟨0, []⟩, none, fun _ => .outside, fun _ => false⟩

/-- A call that returns without a submission of the item since it began leaves the item neither executed nor linked,
and a thread that is blocked waits for an item that is executed or whose completion resumes it. -/
structure Sound (s : SyncQueue I T) : Prop where
  returns : ∀ t i, s.phase t = .leaving i → s.fresh t = true →
    s.queue.workCurrent ≠ some i ∧ i ∉ s.queue.workList ∧ i ∉ s.queue.delayedList
  blocked : ∀ t i, s.phase t = .blocked i → s.queue.workCurrent = some i ∨ s.acking = some i

/-- An item found executed is not queued again, the worker does not take an item between a thread's look at
`work_current` and its locked section, and no completion comes between a thread's look and its `rt_sem_take`. -/
def Allowed (s : SyncQueue I T) : SyncAction I T → Prop
  | .call _ i => s.queue.workCurrent = some i →
      i ∉ s.queue.workList ∧ i ∉ s.queue.delayedList ∧ (s.queue.item i).submitting = false
  | .queue .take => ∀ t i, s.phase t = .cancels i → s.queue.workList.head? ≠ some i
  | .completion => ∀ t i, s.phase t ≠ .waits i
  | _ => True

end SyncQueue

end

theorem workqueueWorkCompletion_eq {T : Type} (waiters : List T) {fuel : Nat} (enough : waiters.length + 2 ≤ fuel) :
    workqueueWorkCompletion fuel ⟨0, waiters⟩ = some (⟨0, []⟩, waiters) := by
  induction waiters generalizing fuel with
  | nil =>
    match fuel, enough with
    | fuel + 2, _ => rfl
  | cons t waiters ih =>
    match fuel, enough with
    | fuel + 1, enough =>
      have rest := ih (Nat.le_of_succ_le_succ enough)
      change Option.map _ (workqueueWorkCompletion fuel ⟨0, waiters⟩) = _
      rw [rest]
      rfl

section queue
variable {I : Type} [DecidableEq I] {w w' : WorkQueue I} {e : WorkEvent I} {a : WorkAction I} {i j : I}

/-- The timer of an item is initialised just while RT_WORK_STATE_SUBMITTING is set. -/
def WorkQueue.Timed (w : WorkQueue I) : Prop := ∀ i, (w.item i).timer.attached = (w.item i).submitting

omit [DecidableEq I] in
theorem Item.arm_submitting {k next : Item} {ticks : UInt32} (armed : k.arm ticks = some next) :
    next.submitting = true := by
  unfold Item.arm at armed
  split at armed
  case isTrue set =>
    obtain ⟨timer, -, rfl⟩ := Option.map_eq_some_iff.mp armed
    exact set
  case isFalse =>
    obtain ⟨timer, -, rfl⟩ := Option.map_eq_some_iff.mp armed
    rfl

theorem Item.disarm_timer {k next : Item} (timed : k.timer.attached = k.submitting) (disarmed : k.disarm = some next) :
    next.timer.attached = false ∧ next.submitting = false := by
  unfold Item.disarm at disarmed
  split at disarmed
  case isTrue =>
    obtain ⟨timer, stopped, rfl⟩ := Option.map_eq_some_iff.mp disarmed
    obtain ⟨old, -, detached⟩ := Option.bind_eq_some_iff.mp stopped
    obtain ⟨-, same⟩ := Option.ite_none_right_eq_some.mp detached
    cases same
    exact ⟨rfl, rfl⟩
  case isFalse clear =>
    cases disarmed
    have none := Bool.eq_false_iff.mpr clear
    exact ⟨timed.trans none, none⟩

theorem WorkQueue.Timed.set (timed : w.Timed) {k : Item} (own : k.timer.attached = k.submitting) : (w.set i k).Timed := by
  intro j
  change (Function.update w.item i k j).timer.attached = (Function.update w.item i k j).submitting
  by_cases same : j = i
  · rw [same, Function.update_self]
    exact own
  · rw [Function.update_of_ne same]
    exact timed j

omit [DecidableEq I] in
theorem WorkQueue.Timed.resume (timed : w.Timed) : w.resume.Timed := by
  unfold WorkQueue.Timed
  rw [resume_item]
  exact timed

theorem workqueueCancelWork_timed (timed : w.Timed) (code : workqueueCancelWork w i = some (w', e)) : w'.Timed := by
  obtain ⟨k, disarmed, result⟩ := Option.map_eq_some_iff.mp code
  cases result
  obtain ⟨attached, submitting⟩ := Item.disarm_timer (by exact timed i) disarmed
  exact WorkQueue.Timed.set (w := w.listRemove i) timed (attached.trans submitting.symm)

theorem workStep_timed (timed : w.Timed) (step : workStep w a = some (w', e)) : w'.Timed := by
  cases workStep_effect step with
  | failed | timerCheck | enter | sleep | done => exact timed
  | submitNow i =>
    refine WorkQueue.Timed.resume (WorkQueue.Timed.set (w := (w.listRemove i).workTail i) timed ?_)
    exact timed i
  | @submitLater i _ _ _ armed =>
    exact WorkQueue.Timed.set (w := w.listRemove i) timed ((Item.arm_attached armed).trans (Item.arm_submitting armed).symm)
  | timerStart i | @expire i => exact WorkQueue.Timed.set (w := w) timed (timed i)
  | cancel code => exact workqueueCancelWork_timed timed code
  | urgent => exact WorkQueue.Timed.resume timed
  | timeout _ code =>
    obtain ⟨-, -, removed, rfl, ⟨-, rfl⟩ | ⟨-, rfl⟩⟩ := delayedWorkTimeoutHandler_cases code
    · exact WorkQueue.Timed.resume (WorkQueue.Timed.set timed rfl)
    · exact WorkQueue.Timed.resume (WorkQueue.Timed.set timed rfl)
  | take => exact WorkQueue.Timed.set timed (timed _)

structure WorkQueue.Quiet (w : WorkQueue I) (i : I) : Prop where
  work : i ∉ w.workList
  delayed : i ∉ w.delayedList
  timer : (w.item i).timer.attached = false

omit [DecidableEq I] in
theorem WorkQueue.Quiet.same (quiet : w.Quiet j) (same : Same w w' j) : w'.Quiet j where
  work := mt same.work.mp quiet.work
  delayed := mt same.delayed.mp quiet.delayed
  timer := by rw [same.item]; exact quiet.timer

theorem workqueueCancelWork_quiet (linked : w.Linked) (timed : w.Timed)
    (code : workqueueCancelWork w i = some (w', e)) : w'.Quiet i := by
  have gone := linked.removed i
  rw [List.mem_append, not_or] at gone
  obtain ⟨k, disarmed, result⟩ := Option.map_eq_some_iff.mp code
  cases result
  refine ⟨gone.1, gone.2, ?_⟩
  change (Function.update (w.listRemove i).item i _ i).timer.attached = false
  rw [Function.update_self]
  exact (Item.disarm_timer (by exact timed i) disarmed).1

theorem workStep_quiet (timed : w.Timed) (linked : w.Linked) (quiet : w.Quiet j) (step : workStep w a = some (w', e))
    (other : submits a e ≠ some j) : w'.Quiet j := by
  by_cases own : a.item w = some j
  swap
  · exact quiet.same (workStep_same step own)
  cases workStep_effect step with
  | failed => exact quiet
  | submitNow | submitLater | urgent =>
    cases own
    exact absurd rfl other
  | timerCheck | enter =>
    cases own
    exact ⟨quiet.work, quiet.delayed, quiet.timer⟩
  | timerStart | expire =>
    cases own
    refine ⟨quiet.work, quiet.delayed, ?_⟩
    change (Function.update w.item j _ j).timer.attached = false
    rw [Function.update_self]
    exact quiet.timer
  | cancel code =>
    cases own
    exact workqueueCancelWork_quiet linked timed code
  | timeout _ code =>
    cases own
    have attached := (delayedWorkTimeoutHandler_cases code).2.1
    rw [quiet.timer] at attached
    cases attached
  | sleep | take => exact absurd (List.mem_of_mem_head? own) quiet.work
  | done => cases own

omit [DecidableEq I] in
theorem resume_working (working : w.resume.worker = .working) : w.worker = .working := by
  unfold WorkQueue.resume at working
  split at working
  · cases working
  · exact working

theorem workStep_current (step : workStep w a = some (w', e)) :
    a = .take ∧ w.worker = .looking ∧ (w'.workCurrent = w.workCurrent ∨ w'.workCurrent = w.workList.head?) ∨
      a = .done ∧ w.worker = .working ∧ w'.worker ≠ .working ∧ w'.workCurrent = none ∨
      a ≠ .take ∧ a ≠ .done ∧ (w'.worker = .working → w.worker = .working) ∧ w'.workCurrent = w.workCurrent := by
  cases workStep_effect step with
  | failed _ idle busy => exact .inr (.inr ⟨idle, busy, id, rfl⟩)
  | submitNow | urgent => exact .inr (.inr ⟨nofun, nofun, resume_working, resume_workCurrent _⟩)
  | submitLater | timerCheck | timerStart | expire | enter => exact .inr (.inr ⟨nofun, nofun, id, rfl⟩)
  | cancel code =>
    obtain ⟨k, -, result⟩ := Option.map_eq_some_iff.mp code
    cases result
    exact .inr (.inr ⟨nofun, nofun, id, rfl⟩)
  | timeout _ code =>
    obtain ⟨-, -, removed, rfl, ⟨-, rfl⟩ | ⟨-, rfl⟩⟩ := delayedWorkTimeoutHandler_cases code
    · exact .inr (.inr ⟨nofun, nofun, resume_working, resume_workCurrent _⟩)
    · exact .inr (.inr ⟨nofun, nofun, resume_working, resume_workCurrent _⟩)
  | sleep looking => exact .inl ⟨rfl, looking, .inl rfl⟩
  | take looking list => exact .inl ⟨rfl, looking, .inr (congrArg List.head? list).symm⟩
  | done working => exact .inr (.inl ⟨rfl, working, nofun, rfl⟩)

end queue

section sync
variable {I T : Type} [DecidableEq I] [DecidableEq T] {s s' : SyncQueue I T} {t : T} {i : I}

namespace SyncQueue

def WaitsFor (s : SyncQueue I T) (t : T) (i : I) : Prop := s.phase t = .waits i ∨ s.phase t = .blocked i

structure Inv (s : SyncQueue I T) : Prop where
  linked : s.queue.Linked
  timed : s.queue.Timed
  awake : s.queue.Awake
  acking : s.acking.isSome = true → s.queue.workCurrent = none ∧ s.queue.worker ≠ .working
  value : s.sem.value = 0
  waiters : ∀ t i, s.phase t = .blocked i → t ∈ s.sem.waiters
  waits : ∀ t i, s.WaitsFor t i → s.queue.workCurrent = some i ∨ s.acking = some i
  waited : ∀ t i, s.WaitsFor t i → s.fresh t = true → s.queue.Quiet i
  cancels : ∀ t i, s.phase t = .cancels i → s.queue.workCurrent ≠ some i
  left : ∀ t i, s.phase t = .leaving i → s.fresh t = true → s.queue.workCurrent ≠ some i ∧ s.queue.Quiet i

omit [DecidableEq I] [DecidableEq T] in
theorem Inv.sound (inv : s.Inv) : s.Sound where
  returns t i leaving fresh :=
    have left := inv.left t i leaving fresh
    ⟨left.1, left.2.work, left.2.delayed⟩
  blocked t i blocked := inv.waits t i (.inr blocked)

omit [DecidableEq I] [DecidableEq T] in
theorem start_inv : (start : SyncQueue I T).Inv where
  linked := List.nodup_nil
  timed _ := rfl
  awake := .initial
  acking := nofun
  value := rfl
  waiters _ _ := nofun
  waits t i waits := by cases waits <;> contradiction
  waited t i waits := by cases waits <;> contradiction
  cancels _ _ := nofun
  left _ _ := nofun

omit [DecidableEq I] in
theorem Inv.goto (inv : s.Inv) {phase : Phase I} (fresh : T → Bool) (others : ∀ u, u ≠ t → fresh u = s.fresh u)
    (sem : Sem T) (value : sem.value = 0) (waiters : ∀ u i, s.phase u = .blocked i → u ≠ t → u ∈ sem.waiters)
    (blocked : ∀ i, phase = .blocked i → t ∈ sem.waiters)
    (waits : ∀ i, phase = .waits i ∨ phase = .blocked i →
      (s.queue.workCurrent = some i ∨ s.acking = some i) ∧ (fresh t = true → s.queue.Quiet i))
    (cancels : ∀ i, phase = .cancels i → s.queue.workCurrent ≠ some i)
    (left : ∀ i, phase = .leaving i → fresh t = true → s.queue.workCurrent ≠ some i ∧ s.queue.Quiet i) :
    ({ s with sem := sem, fresh := fresh }.goto t phase : SyncQueue I T).Inv := by
  have place : ∀ u, ({ s with sem := sem, fresh := fresh }.goto t phase : SyncQueue I T).phase u =
      if u = t then phase else s.phase u := fun u => Function.update_apply ..
  refine { inv with value := value, waiters := ?_, waits := ?_, waited := ?_, cancels := ?_, left := ?_ }
  · intro u i here
    rw [place] at here
    split at here
    case isTrue own => exact own ▸ blocked i here
    case isFalse other => exact waiters u i here other
  · intro u i here
    rw [WaitsFor, place] at here
    split at here
    case isTrue => exact (waits i here).1
    case isFalse => exact inv.waits u i here
  · intro u i here recent
    rw [WaitsFor, place] at here
    split at here
    case isTrue own => exact (waits i here).2 (own ▸ recent)
    case isFalse other => exact inv.waited u i here (others u other ▸ recent)
  · intro u i here
    rw [place] at here
    split at here
    case isTrue => exact cancels i here
    case isFalse => exact inv.cancels u i here
  · intro u i here recent
    rw [place] at here
    split at here
    case isTrue own => exact left i here (own ▸ recent)
    case isFalse other => exact inv.left u i here (others u other ▸ recent)

variable {a : WorkAction I} {e : WorkEvent I} {w : WorkQueue I}

omit [DecidableEq T] in
theorem Inv.queueStep (inv : s.Inv) (busy : a = .take → s.acking.isSome = false) (step : workStep s.queue a = some (w, e))
    (allowed : s.Allowed (.queue a)) (fresh : T → Bool)
    (recent : ∀ t, fresh t = true → s.fresh t = true ∧ ∀ i, (s.phase t).item = some i → submits a e ≠ some i) :
    ({ s with queue := w, acking := if a = .done then s.queue.workCurrent else s.acking, fresh := fresh } :
      SyncQueue I T).Inv := by
  have current := workStep_current step
  have quiet : ∀ t i, (s.phase t).item = some i → fresh t = true → s.queue.Quiet i → w.Quiet i :=
    fun t i about fresh quiet => workStep_quiet inv.timed inv.linked quiet step ((recent t fresh).2 i about)
  have about : ∀ t i, s.WaitsFor t i → (s.phase t).item = some i := by
    rintro t i (here | here) <;> rw [here] <;> rfl
  refine { linked := workStep_linked inv.linked step, timed := workStep_timed inv.timed step,
           awake := workStep_awake inv.awake step, acking := ?_, value := inv.value, waiters := inv.waiters,
           waits := ?_, waited := ?_, cancels := ?_, left := ?_ }
  · intro acking
    obtain ⟨rfl, -, -⟩ | ⟨-, -, rest, none⟩ | ⟨-, other, working, same⟩ := current
    · dsimp only at acking
      rw [if_neg nofun, busy rfl] at acking
      cases acking
    · exact ⟨none, rest⟩
    · dsimp only at acking ⊢
      rw [if_neg other] at acking
      exact ⟨same.trans (inv.acking acking).1, fun now => (inv.acking acking).2 (working now)⟩
  · intro t i waits
    have before := inv.waits t i waits
    obtain ⟨rfl, looking, -⟩ | ⟨rfl, working, -, -⟩ | ⟨-, other, -, same⟩ := current
    · -- the worker takes nothing while a thread waits
      have idle : s.queue.workCurrent = none := inv.awake.current (by rw [looking]; nofun)
      have open' : s.acking = none := Option.not_isSome_iff_eq_none.mp (Bool.eq_false_iff.mp (busy rfl))
      rw [idle, open'] at before
      exact before.elim nofun nofun
    · obtain executed | acking := before
      · exact .inr executed
      · exact absurd working (inv.acking (Option.isSome_of_mem acking)).2
    · dsimp only
      rw [same, if_neg other]
      exact before
  · exact fun t i waits fresh => quiet t i (about t i waits) fresh (inv.waited t i waits (recent t fresh).1)
  · intro t i here
    have before := inv.cancels t i here
    obtain ⟨rfl, -, same | taken⟩ | ⟨-, -, -, none⟩ | ⟨-, -, -, same⟩ := current
    · exact same ▸ before
    · dsimp only
      rw [taken]
      exact allowed t i here
    · dsimp only
      rw [none]
      exact nofun
    · exact same ▸ before
  · intro t i here fresh
    obtain ⟨other, before⟩ := inv.left t i here (recent t fresh).1
    refine ⟨?_, quiet t i (by rw [here]; rfl) fresh before⟩
    obtain ⟨rfl, -, same | taken⟩ | ⟨-, -, -, none⟩ | ⟨-, -, -, same⟩ := current
    · exact same ▸ other
    · dsimp only
      rw [taken]
      exact fun head => before.work (List.mem_of_mem_head? head)
    · dsimp only
      rw [none]
      exact nofun
    · exact same ▸ other

theorem Inv.step (inv : s.Inv) {a : SyncAction I T} (allowed : s.Allowed a) (step : s.Step a s') : s'.Inv := by
  unfold Step SyncQueue.step at step
  cases a with
  | queue a =>
    dsimp only at step
    obtain ⟨free, step⟩ := Option.ite_none_left_eq_some.mp step
    obtain ⟨⟨queue, e⟩, taken, rfl⟩ := Option.map_eq_some_iff.mp step
    refine inv.queueStep (fun take => ?_) taken allowed _ fun t fresh => ?_
    · exact Bool.eq_false_iff.mpr fun acking => free ⟨take, acking⟩
    · obtain ⟨before, other⟩ := Bool.and_eq_true_iff.mp fresh
      refine ⟨before, fun i about submitted => ?_⟩
      rw [submitted, about] at other
      simp at other
  | call t i =>
    dsimp only at step
    obtain ⟨-, step⟩ := Option.ite_none_right_eq_some.mp step
    cases step
    refine inv.goto _ (fun u other => Function.update_of_ne other ..) s.sem inv.value
      (fun u i blocked _ => inv.waiters u i blocked) ?_ ?_ ?_ ?_
    · intro j
      split <;> nofun
    · intro j here
      split at here
      case isTrue executed =>
        have same : i = j := by
          rcases here with here | here
          · exact (Phase.waits.inj here)
          · cases here
        subst same
        obtain ⟨work, delayed, submitting⟩ := allowed executed
        exact ⟨.inl executed, fun _ => ⟨work, delayed, (inv.timed i).trans submitting⟩⟩
      case isFalse => rcases here with here | here <;> cases here
    · intro j here
      split at here
      case isTrue => cases here
      case isFalse other =>
        cases here
        exact other
    · intro j here
      split at here <;> cases here
  | semTake t =>
    dsimp only at step
    split at step
    case h_2 => cases step
    case h_1 i here =>
      have blocks : s.sem.rtSemTake t = ({ s.sem with waiters := s.sem.waiters ++ [t] }, false) := by
        unfold Sem.rtSemTake
        rw [if_neg (by rw [inv.value]; decide)]
      rw [blocks] at step
      cases step
      refine inv.goto s.fresh (fun _ _ => rfl) _ inv.value ?_ ?_ ?_ nofun nofun
      · exact fun u j blocked _ => List.mem_append_left _ (inv.waiters u j blocked)
      · exact fun _ _ => List.mem_append_right _ List.mem_cons_self
      · intro j there
        have same : i = j := by
          rcases there with there | there
          · cases there
          · exact Phase.blocked.inj there
        subst same
        exact ⟨inv.waits t i (.inl here), inv.waited t i (.inl here)⟩
  | cancel t =>
    dsimp only at step
    split at step
    case h_2 => cases step
    case h_1 i here =>
      split at step
      case h_1 =>
        cases step
        exact inv
      case h_2 queue e code =>
        cases step
        have cancelled : workStep s.queue (.cancel i) = some (queue, e) := congrArg (asserted s.queue) code
        have after := inv.queueStep (a := .cancel i) nofun cancelled trivial s.fresh fun _ fresh => ⟨fresh, fun _ _ => nofun⟩
        have quiet := workqueueCancelWork_quiet inv.linked inv.timed code
        have other := after.cancels t i here
        refine after.goto s.fresh (fun _ _ => rfl) s.sem inv.value (fun u j blocked _ => inv.waiters u j blocked)
          nofun (by rintro j (there | there) <;> cases there) nofun ?_
        rintro j ⟨⟩ -
        exact ⟨other, quiet⟩
  | completion =>
    dsimp only at step
    obtain ⟨acking, step⟩ := Option.ite_none_right_eq_some.mp step
    obtain ⟨⟨sem, resumed⟩, ended, rfl⟩ := Option.map_eq_some_iff.mp step
    have whole : s.sem = ⟨0, s.sem.waiters⟩ := by rw [← inv.value]
    rw [whole, workqueueWorkCompletion_eq s.sem.waiters (Nat.le_refl _)] at ended
    cases ended
    have place : ∀ u i, (if u ∈ s.sem.waiters then (s.phase u).resumed else s.phase u) = .leaving i →
        s.phase u = .leaving i ∨ s.phase u = .blocked i := by
      intro u i here
      split at here
      · cases phase : s.phase u <;> rw [phase] at here <;> cases here
        · exact .inr rfl
        · exact .inl rfl
      · exact .inl here
    have gone : ∀ u i, ¬((if u ∈ s.sem.waiters then (s.phase u).resumed else s.phase u) = .waits i ∨
        (if u ∈ s.sem.waiters then (s.phase u).resumed else s.phase u) = .blocked i) := by
      intro u i
      cases phase : s.phase u with
      | waits j => exact absurd phase (allowed u j)
      | blocked j =>
        rw [if_pos (inv.waiters u j phase)]
        rintro (here | here) <;> cases here
      | outside | cancels j | leaving j => rintro (here | here) <;> split at here <;> cases here
    refine { linked := inv.linked, timed := inv.timed, awake := inv.awake, acking := nofun, value := rfl,
             waiters := fun u i here => absurd (.inr here) (gone u i),
             waits := fun u i here => absurd here (gone u i),
             waited := fun u i here => absurd here (gone u i), cancels := ?_, left := ?_ }
    · intro u i here
      refine inv.cancels u i ?_
      dsimp only at here
      split at here
      · cases phase : s.phase u <;> rw [phase] at here <;> cases here
        rfl
      · exact here
    · intro u i here fresh
      rcases place u i here with leaving | blocked
      · exact inv.left u i leaving fresh
      · refine ⟨?_, inv.waited u i (.inr blocked) fresh⟩
        dsimp only
        rw [(inv.acking acking).1]
        exact nofun
  | ret t =>
    dsimp only at step
    split at step
    case h_2 => cases step
    case h_1 =>
      cases step
      exact inv.goto s.fresh (fun _ _ => rfl) s.sem inv.value (fun u j blocked _ => inv.waiters u j blocked) nofun
        (by rintro j (there | there) <;> cases there) nofun nofun

/-- Where each step meets the conditions, calls return as they should and completions resume all that wait. -/
theorem cancel_work_sync (actions : List (SyncAction I T)) (each : EachStep Step start actions (Allowed (T := T))) :
    Throughout Step (start : SyncQueue I T) actions Sound := by
  have kept : ∀ (s : SyncQueue I T) a s', s.Inv → s.Allowed a → s.Step a s' → s'.Inv :=
    fun _ _ _ inv allowed step => inv.step allowed step
  exact fun before mid inside run => (each.throughout kept start_inv before mid inside run).sound

end SyncQueue

end sync

def allowsOne (s : SyncQueue Bool Unit) : SyncAction Bool Unit → Bool
  | .call _ i => s.queue.workCurrent ≠ some i ∨
      i ∉ s.queue.workList ∧ i ∉ s.queue.delayedList ∧ (s.queue.item i).submitting = false
  | .queue .take => (s.phase ()).item ≠ s.queue.workList.head? ∨ (s.phase ()).item = none
  | .completion => match s.phase () with
    | .waits _ => false
    | _ => true
  | _ => true

def waitDemo : List (SyncAction Bool Unit) :=
  [.queue (.submit true 0), .queue .take, .call () true, .semTake (), .queue .done, .completion, .ret ()]

theorem allowsOne_allowed {s : SyncQueue Bool Unit} {a : SyncAction Bool Unit} (allows : allowsOne s a = true) :
    s.Allowed a := by
  cases a with
  | call t i => exact fun executed => (of_decide_eq_true allows).resolve_left (not_not.mpr executed)
  | queue a =>
    cases a with
    | take =>
      intro t i here head
      rcases of_decide_eq_true allows with other | none
      · exact other (by rw [head]; exact congrArg Phase.item here)
      · rw [show s.phase () = .cancels i from here] at none
        cases none
    | _ => trivial
  | completion =>
    intro t i here
    rw [allowsOne, show s.phase () = .waits i from here] at allows
    cases allows
  | _ => trivial

theorem cancel_work_sync_demo : Throughout SyncQueue.Step SyncQueue.start waitDemo SyncQueue.Sound :=
  SyncQueue.cancel_work_sync waitDemo fun before a mid next inside run step =>
    allowsOne_allowed (eachStep_of_eachAllowed (by decide +kernel) before a mid next inside run step)

/-- The item is submitted again while it is executed: the call waits for the completion, and leaves it queued. -/
def requeueDemo : List (SyncAction Unit Unit) :=
  [.queue (.submit () 0), .queue .take, .queue (.submit () 0), .call () (), .semTake (), .queue .done, .completion]

theorem cancel_work_sync_requeued :
    ∃ s, Run SyncQueue.Step (SyncQueue.start : SyncQueue Unit Unit) requeueDemo s ∧ s.phase () = .leaving () ∧
      s.fresh () = true ∧ () ∈ s.queue.workList ∧
      ¬Throughout SyncQueue.Step (SyncQueue.start : SyncQueue Unit Unit) requeueDemo SyncQueue.Sound := by
  have ends : (requeueDemo.foldlM SyncQueue.step (SyncQueue.start : SyncQueue Unit Unit)).any (fun s =>
      s.phase () = .leaving () ∧ s.fresh () = true ∧ () ∈ s.queue.workList) = true := by decide +kernel
  obtain ⟨s, done, last⟩ := (Option.any_eq_true _ _).mp ends
  obtain ⟨leaving, fresh, queued⟩ := of_decide_eq_true last
  have run : Run SyncQueue.Step (SyncQueue.start : SyncQueue Unit Unit) requeueDemo s := run_of_foldlM done
  exact ⟨s, run, leaving, fresh, queued, fun all =>
    ((all requeueDemo s (List.prefix_refl _) run).returns () () leaving fresh).2.1 queued⟩

end RtThread.Work
