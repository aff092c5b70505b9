import Mathlib.Order.Nat
import RtThread.Kernel.Mutex
import RtThread.Kernel.ThreadCalls

/-! What `_thread_update_priority` preserves.

It follows the chain of owners. On the way it changes priorities, the places
of threads in their waiting lists and the recorded priorities of mutexes, and
nothing else.
-/

set_option autoImplicit false

namespace RtThread.Kernel

open Sched

namespace System

variable (k : System)

@[simp] theorem setSched_sched (sched : Sched) : (k.setSched sched).sched = sched := rfl

@[simp] theorem setSched_ipc (sched : Sched) : (k.setSched sched).ipc = k.ipc := rfl

@[simp] theorem setSched_mutex (sched : Sched) : (k.setSched sched).mutex = k.mutex := rfl

@[simp] theorem setIpc_sched (t : Tid) (value : ThreadIpc) : (k.setIpc t value).sched = k.sched := rfl

@[simp] theorem setIpc_ipc (t : Tid) (value : ThreadIpc) : (k.setIpc t value).ipc = Function.update k.ipc t value := rfl

@[simp] theorem setIpc_mutex (t : Tid) (value : ThreadIpc) : (k.setIpc t value).mutex = k.mutex := rfl

@[simp] theorem setMutex_sched (m : Mid) (value : Mutex) : (k.setMutex m value).sched = k.sched := rfl

@[simp] theorem setMutex_ipc (m : Mid) (value : Mutex) : (k.setMutex m value).ipc = k.ipc := rfl

@[simp] theorem setMutex_mutex (m : Mid) (value : Mutex) :
    (k.setMutex m value).mutex = Function.update k.mutex m value := rfl

end System

def Mild (fault : Option Fault) : Prop :=
  fault = none ∨ fault = some .nullOwner ∨ fault = some .unfinished

theorem mild_or {fault : Option Fault} {cause : Fault} (mild : Mild fault)
    (kind : cause = .nullOwner ∨ cause = .unfinished) : Mild (fault.or (some cause)) := by
  rcases mild with rfl | rfl | rfl
  · exact kind.elim (fun h => .inr (.inl (by rw [h]; rfl))) fun h => .inr (.inr (by rw [h]; rfl))
  · exact .inr (.inl rfl)
  · exact .inr (.inr rfl)

section
variable (priorityMax : Nat)

structure Sane (k : System) : Prop where
  settled : Settled priorityMax k.sched
  init : ∀ t, (k.sched.thread t).initPriority < priorityMax

end

structure Propagated (k k' : System) : Prop where
  ipc : k'.ipc = k.ipc
  mutex : ∀ m, k'.mutex m = { k.mutex m with priority := (k'.mutex m).priority }
  stat : ∀ t, (k'.sched.thread t).stat = (k.sched.thread t).stat
  initPriority : ∀ t, (k'.sched.thread t).initPriority = (k.sched.thread t).initPriority
  timer : ∀ t, (k'.sched.thread t).timer = (k.sched.thread t).timer
  link : ∀ t, (k.sched.thread t).stat.suspended = false → ∀ q : Queue, q.aside = true →
    ((k'.sched.thread t).tlist = some q ↔ (k.sched.thread t).tlist = some q)
  current : k'.sched.current = k.sched.current
  lockNest : k'.sched.lockNest = k.sched.lockNest
  fault : k'.sched.fault = none → k.sched.fault = none
  mild : Mild k.sched.fault → Mild k'.sched.fault

theorem Propagated.refl (k : System) : Propagated k k :=
  ⟨rfl, fun _ => rfl, fun _ => rfl, fun _ => rfl, fun _ => rfl, fun _ _ _ _ => Iff.rfl, rfl, rfl, id, id⟩

theorem Propagated.trans {k₁ k₂ k₃ : System} (first : Propagated k₁ k₂) (rest : Propagated k₂ k₃) :
    Propagated k₁ k₃ where
  ipc := rest.ipc.trans first.ipc
  mutex m := by rw [rest.mutex m, first.mutex m]
  stat t := (rest.stat t).trans (first.stat t)
  initPriority t := (rest.initPriority t).trans (first.initPriority t)
  timer t := (rest.timer t).trans (first.timer t)
  link t awake q aside := (rest.link t (by rwa [first.stat]) q aside).trans (first.link t awake q aside)
  current := rest.current.trans first.current
  lockNest := rest.lockNest.trans first.lockNest
  fault none := first.fault (rest.fault none)
  mild mild := rest.mild (first.mild mild)

section
variable {priorityMax : Nat} {k : System} {t : Tid} {m : Mid} {p : Nat}

theorem propagated_setPriority (k : System) (m : Mid) (p : Nat) : Propagated k (k.setPriority m p) := by
  refine ⟨rfl, fun m' => ?_, fun _ => rfl, fun _ => rfl, fun _ => rfl, fun _ _ _ _ => Iff.rfl, rfl, rfl, id, id⟩
  by_cases same : m' = m
  · subst same; simp [System.setPriority]
  · simp [System.setPriority, same]

theorem propagated_fail (k : System) {cause : Fault} (kind : cause = .nullOwner ∨ cause = .unfinished) :
    Propagated k (k.fail cause) := by
  refine ⟨rfl, fun _ => rfl, fun _ => rfl, fun _ => rfl, fun _ => rfl, fun _ _ _ _ => Iff.rfl, rfl, rfl, fun none => ?_,
    fun mild => mild_or mild kind⟩
  cases fault : k.sched.fault with
  | none => rfl
  | some cause' => simp [System.fail, Sched.fail, fault] at none

theorem Propagated.of_sched {sched : Sched} (others : ∀ u, u ≠ t → sched.thread u = k.sched.thread u)
    (stat : (sched.thread t).stat = (k.sched.thread t).stat)
    (initPriority : (sched.thread t).initPriority = (k.sched.thread t).initPriority)
    (timer : (sched.thread t).timer = (k.sched.thread t).timer)
    (link : (k.sched.thread t).stat.suspended = false → ∀ q : Queue, q.aside = true →
      ((sched.thread t).tlist = some q ↔ (k.sched.thread t).tlist = some q)) (rest : SameRest k.sched sched) :
    Propagated k (k.setSched sched) := by
  refine ⟨rfl, fun _ => rfl, fun u => ?_, fun u => ?_, fun u => ?_, fun u awake q aside => ?_, rest.current,
    rest.lockNest, fun none => rest.fault ▸ none, fun mild => rest.fault.symm ▸ mild⟩
  case refine_4 =>
    rw [System.setSched_sched]
    by_cases same : u = t
    · subst same; exact link awake q aside
    · rw [others u same]
  all_goals
    rw [System.setSched_sched]
    by_cases same : u = t
    · subst same; assumption
    · rw [others u same]

theorem Sane.fail (sane : Sane priorityMax k) (cause : Fault) : Sane priorityMax (k.fail cause) := by
  obtain ⟨⟨⟨linked, nodup, fits, loose, masks, bound, marks⟩, busy⟩, init⟩ := sane
  refine ⟨⟨⟨linked, nodup, fun t tight => ?_, loose, masks, bound, marks⟩, busy⟩, init⟩
  obtain ⟨links, running, timer⟩ := fits t tight
  exact ⟨links, running, timer⟩

theorem Sane.setPriority (sane : Sane priorityMax k) (m : Mid) (p : Nat) : Sane priorityMax (k.setPriority m p) :=
  ⟨sane.settled, sane.init⟩

def raise (priorityMax : Nat) (k : System) (t : Tid) (p : Nat) : System :=
  k.setSched (changePriority priorityMax k.sched t p)

theorem Sane.raised (sane : Sane priorityMax k) (limit : priorityMax ≤ 256) (t : Tid) (bound : p < priorityMax) :
    let k' := raise priorityMax k t p
    Sane priorityMax k' ∧ Propagated k k' ∧ OnlyThread t k.sched k'.sched ∧ k'.mutex = k.mutex ∧
      k'.currentPriority t = p := by
  intro k'
  obtain ⟨settled, only, stat, priority, initPriority, timer⟩ := sane.settled.change limit t bound
  have propagated := Propagated.of_sched (k := k) only.others stat initPriority timer
    (fun _ q aside => by rw [← settled.linked, ← sane.settled.linked, only.queue q aside]) only.rest
  exact ⟨⟨settled, fun u => (propagated.initPriority u).symm ▸ sane.init u⟩, propagated, only, rfl, priority⟩

/-- The new priority of a waiting thread, its new place among the threads that wait for `m`, and the
priority `m` then records. -/
def retarget (priorityMax : Nat) (k : System) (t : Tid) (p : Nat) (m : Mid) (suspendFlag : SuspendFlag) : System :=
  let k := raise priorityMax k t p
  mutexUpdatePriority
    (k.setSched (ipcListSuspend priorityMax (k.sched.rtListRemove t) (.mutex m) t true suspendFlag).2) m

/-- What `retarget` does. -/
structure Retargeted (k : System) (t : Tid) (p : Nat) (m : Mid) (k' : System) : Prop where
  others : ∀ u, u ≠ t → k'.sched.thread u = k.sched.thread u
  priority : k'.currentPriority t = p
  queue : ∀ q, q.aside = true → k'.sched.queue q =
    if q = .mutex m then insertByPriority k'.currentPriority t ((k.sched.rtListRemove t).queue q)
    else (k.sched.rtListRemove t).queue q
  recorded : (k'.mutex m).priority = firstPriority k' (k'.waiting m)
  mutexes : ∀ m', m' ≠ m → k'.mutex m' = k.mutex m'
  fault : k'.sched.fault = k.sched.fault

theorem firstPriority_congr {k k' : System} (same : ∀ t, k'.currentPriority t = k.currentPriority t) (list : List Tid) :
    firstPriority k' list = firstPriority k list := by
  cases list with
  | nil => rfl
  | cons t rest => exact same t

theorem mutexUpdatePriority_priority (k : System) (m : Mid) :
    ((mutexUpdatePriority k m).mutex m).priority = firstPriority (mutexUpdatePriority k m) ((mutexUpdatePriority k m).waiting m) := by
  show (Function.update k.mutex m _ m).priority = _
  rw [Function.update_self]
  exact firstPriority_congr (k := mutexUpdatePriority k m) (fun _ => rfl) _

theorem Sane.retargeted (sane : Sane priorityMax k) (limit : priorityMax ≤ 256)
    (suspended : (k.sched.thread t).stat.suspended = true) (bound : p < priorityMax) (m : Mid) (suspendFlag : SuspendFlag) :
    let k' := retarget priorityMax k t p m suspendFlag
    (ipcListSuspend priorityMax ((raise priorityMax k t p).sched.rtListRemove t) (.mutex m) t true suspendFlag).1 = .ok ∧
      Sane priorityMax k' ∧ Propagated k k' ∧ Retargeted k t p m k' := by
  intro k'
  obtain ⟨sane₁, propagated₁, only, mutex, priority⟩ := sane.raised limit t bound
  have suspended₁ : ((raise priorityMax k t p).sched.thread t).stat.suspended = true := by
    rw [propagated₁.stat]; exact suspended
  obtain ⟨ok, settled₂, requeued⟩ := sane₁.settled.requeue (t := t) suspended₁ (q := .mutex m) rfl (by simp) suspendFlag
  have propagated₂ := Propagated.of_sched (k := raise priorityMax k t p) requeued.others requeued.stat
    requeued.initPriority requeued.timer (fun awake => by rw [awake] at suspended₁; cases suspended₁) requeued.rest
  have propagated := (propagated₁.trans propagated₂).trans (propagated_setPriority _ m _ : Propagated _ k')
  have priorities : ∀ u, k'.currentPriority u = (raise priorityMax k t p).currentPriority u := by
    intro u
    by_cases own : u = t
    · rw [own]; exact requeued.priority
    · show (k'.sched.thread u).currentPriority = _
      rw [show k'.sched.thread u = _ from requeued.others u own]
      rfl
  -- the priority changes of a suspended thread leave every list as it is
  have still : ∀ q, q.aside = true → ((raise priorityMax k t p).sched.rtListRemove t).queue q =
      (k.sched.rtListRemove t).queue q := by
    intro q aside
    have unready : ¬ (k.sched.thread t).stat = .ready := fun ready => by rw [ready] at suspended; cases suspended
    have shape : (raise priorityMax k t p).sched = k.sched.setThread t { k.sched.thread t with
        currentPriority := p, mask := ReadyBitmap.maskOf priorityMax p } := by
      show changePriority priorityMax k.sched t p = _
      simp only [changePriority, unready, if_false]
    rw [rtListRemove_queue, rtListRemove_queue, only.queue q aside, shape]
    simp
  refine ⟨ok, ⟨settled₂, fun u => (propagated.initPriority u).symm ▸ sane.init u⟩, propagated, ?_⟩
  refine ⟨fun u other => ?_, (priorities t).trans priority, fun q aside => ?_, mutexUpdatePriority_priority _ m,
    fun m' other => ?_, requeued.rest.fault.trans only.rest.fault⟩
  · exact (requeued.others u other).trans (only.others u other)
  · show (ipcListSuspend priorityMax ((raise priorityMax k t p).sched.rtListRemove t) (.mutex m) t true
      suspendFlag).2.queue q = _
    rw [requeued.queue q aside, still q aside, show k'.currentPriority = _ from funext priorities]
    split
    case isTrue here => rw [here, still (.mutex m) rfl]; rfl
    case isFalse => rfl
  · show Function.update (raise priorityMax k t p).mutex m _ m' = _
    rw [Function.update_of_ne other, mutex]

/-! ## The priority a thread is owed -/

theorem le_foldl_demand (demand : Mid → Nat) (start q : Nat) (taken : List Mid) :
    q ≤ taken.foldl (fun priority m => if priority > demand m then demand m else priority) start ↔
      q ≤ start ∧ ∀ m ∈ taken, q ≤ demand m := by
  induction taken generalizing start with
  | nil => simp
  | cons m rest ih =>
    rw [List.foldl_cons, ih, List.forall_mem_cons, ← and_assoc]
    refine and_congr_left' ?_
    split <;> omega

/-- `_thread_get_mutex_priority` is the greatest lower bound of the initial priority and what the
thread's mutexes demand. -/
theorem le_threadGetMutexPriority {q : Nat} : q ≤ threadGetMutexPriority k t ↔
    q ≤ (k.sched.thread t).initPriority ∧ ∀ m ∈ (k.ipc t).takenObjectList, q ≤ (k.mutex m).demand :=
  le_foldl_demand (fun m => (k.mutex m).demand) _ q _

theorem threadGetMutexPriority_le_init (k : System) (t : Tid) :
    threadGetMutexPriority k t ≤ (k.sched.thread t).initPriority :=
  (le_threadGetMutexPriority.mp (Nat.le_refl _)).1

theorem threadGetMutexPriority_le_demand (k : System) (t : Tid) (taken : m ∈ (k.ipc t).takenObjectList) :
    threadGetMutexPriority k t ≤ (k.mutex m).demand :=
  (le_threadGetMutexPriority.mp (Nat.le_refl _)).2 m taken

theorem Sane.owed_lt (sane : Sane priorityMax k) (t : Tid) : threadGetMutexPriority k t < priorityMax :=
  Nat.lt_of_le_of_lt (threadGetMutexPriority_le_init k t) (sane.init t)

/-! ## Following the owners -/

theorem threadUpdatePriority_succ (sane : Sane priorityMax k) (limit : priorityMax ≤ 256) (bound : p < priorityMax)
    (fuel : Nat) (suspendFlag : SuspendFlag) :
    threadUpdatePriority priorityMax (fuel + 1) k t p suspendFlag =
      if (k.sched.thread t).stat.suspended then
        match (k.ipc t).pendingObject with
        | none => raise priorityMax k t p
        | some m =>
          let k' := retarget priorityMax k t p m suspendFlag
          match (k.mutex m).owner with
          | none => k'.fail .nullOwner
          | some owner =>
            if threadGetMutexPriority k' owner ≠ k'.currentPriority owner then
              threadUpdatePriority priorityMax fuel k' owner (threadGetMutexPriority k' owner) suspendFlag
            else k'
      else raise priorityMax k t p := by
  obtain ⟨-, propagated, -⟩ := sane.raised limit t bound
  have stat : ((changePriority priorityMax k.sched t p).thread t).stat = (k.sched.thread t).stat := propagated.stat t
  simp only [threadUpdatePriority, System.setSched_sched, stat, System.setSched_ipc]
  by_cases suspended : (k.sched.thread t).stat.suspended = true
  · simp only [suspended, if_true]
    cases (k.ipc t).pendingObject with
    | none => rfl
    | some m =>
      obtain ⟨ok, -, propagated', -⟩ := sane.retargeted limit suspended bound m suspendFlag
      have owner : ((retarget priorityMax k t p m suspendFlag).mutex m).owner = (k.mutex m).owner := by
        rw [propagated'.mutex m]
      simp only [raise, System.setSched_sched] at ok
      simp only [ok, ne_eq, not_true_eq_false, if_false]
      show (match ((retarget priorityMax k t p m suspendFlag).mutex m).owner with | none => _ | some owner => _) = _
      rw [owner]
      rfl
  · simp only [suspended]
    rfl

theorem Sane.update_rule (limit : priorityMax ≤ 256) (suspendFlag : SuspendFlag) (P : System → Tid → Nat → Prop)
    (Q : System → Prop)
    (last : ∀ k t p, Sane priorityMax k → P k t p → p < priorityMax →
      ((k.sched.thread t).stat.suspended = true → (k.ipc t).pendingObject = none) → Q (raise priorityMax k t p))
    (stop : ∀ k t p m owner, Sane priorityMax k → P k t p → p < priorityMax → (k.sched.thread t).stat.suspended = true →
      (k.ipc t).pendingObject = some m → (k.mutex m).owner = some owner →
      let k' := retarget priorityMax k t p m suspendFlag
      threadGetMutexPriority k' owner = k'.currentPriority owner → Q k')
    (next : ∀ k t p m owner, Sane priorityMax k → P k t p → p < priorityMax → (k.sched.thread t).stat.suspended = true →
      (k.ipc t).pendingObject = some m → (k.mutex m).owner = some owner →
      let k' := retarget priorityMax k t p m suspendFlag
      P k' owner (threadGetMutexPriority k' owner))
    (fault : ∀ k t p, Sane priorityMax k → P k t p → Q (k.fail .unfinished))
    (orphan : ∀ k t p m, Sane priorityMax k → P k t p → p < priorityMax → (k.sched.thread t).stat.suspended = true →
      (k.ipc t).pendingObject = some m → (k.mutex m).owner = none →
      Q ((retarget priorityMax k t p m suspendFlag).fail .nullOwner)) :
    ∀ fuel k t p, Sane priorityMax k → P k t p → p < priorityMax →
      Q (threadUpdatePriority priorityMax fuel k t p suspendFlag) := by
  intro fuel
  induction fuel with
  | zero => exact fun k t p sane pre _ => fault k t p sane pre
  | succ fuel ih =>
    intro k t p sane pre bound
    rw [threadUpdatePriority_succ sane limit bound]
    split
    case isFalse awake => exact last k t p sane pre bound fun suspended => absurd suspended awake
    case isTrue suspended =>
      cases pending : (k.ipc t).pendingObject with
      | none => exact last k t p sane pre bound fun _ => pending
      | some m =>
        obtain ⟨-, sane', -⟩ := sane.retargeted limit suspended bound m suspendFlag
        dsimp only
        cases owner : (k.mutex m).owner with
        | none => exact orphan k t p m sane pre bound suspended pending owner
        | some o =>
          dsimp only
          split
          · exact ih _ _ _ sane' (next k t p m o sane pre bound suspended pending owner) (sane'.owed_lt o)
          case isFalse same => exact stop k t p m o sane pre bound suspended pending owner (not_not.mp same)

theorem Sane.update (sane : Sane priorityMax k) (limit : priorityMax ≤ 256) (bound : p < priorityMax) (fuel : Nat)
    (suspendFlag : SuspendFlag) :
    let k' := threadUpdatePriority priorityMax fuel k t p suspendFlag
    Sane priorityMax k' ∧ Propagated k k' := by
  refine Sane.update_rule limit suspendFlag (fun k' _ _ => Propagated k k') (fun k' => Sane priorityMax k' ∧ Propagated k k')
    ?_ ?_ ?_ ?_ ?_ fuel k t p sane (.refl k) bound
  · intro k₁ t p sane₁ before bound _
    obtain ⟨sane', propagated, -⟩ := sane₁.raised limit t bound
    exact ⟨sane', before.trans propagated⟩
  · intro k₁ t p m owner sane₁ before bound suspended _ _ k' _
    obtain ⟨-, sane', propagated, -⟩ := sane₁.retargeted limit suspended bound m suspendFlag
    exact ⟨sane', before.trans propagated⟩
  · intro k₁ t p m owner sane₁ before bound suspended _ _ k'
    obtain ⟨-, -, propagated, -⟩ := sane₁.retargeted limit suspended bound m suspendFlag
    exact before.trans propagated
  · intro k₁ t p sane₁ before
    exact ⟨sane₁.fail _, before.trans (propagated_fail k₁ (.inr rfl))⟩
  · intro k₁ t p m sane₁ before bound suspended _ _
    obtain ⟨-, sane', propagated, -⟩ := sane₁.retargeted limit suspended bound m suspendFlag
    exact ⟨sane'.fail _, (before.trans propagated).trans (propagated_fail _ (.inl rfl))⟩

end

end RtThread.Kernel
