import RtThread.Kernel.Waiting

/-! What each section of the mutex calls does.

Every section is a few assignments and a quiet change. The lemmas here give
the assignments; what the change leaves alone is known from `Quiet`.
-/

set_option autoImplicit false

namespace RtThread.Kernel

open Sched

/-- The `taken_list` nodes and the lists they are linked into agree. -/
structure Taken (k : System) : Prop where
  linked : ∀ m t, m ∈ (k.ipc t).takenObjectList ↔ (k.mutex m).takenList = some t
  nodup : ∀ t, (k.ipc t).takenObjectList.Nodup

structure Owned (k : System) : Prop extends Taken k where
  owner : ∀ m, (k.mutex m).takenList = (k.mutex m).owner

structure Good (priorityMax : Nat) (k : System) : Prop where
  sane : Sane priorityMax k
  owned : Owned k
  mild : Mild k.sched.fault

namespace System

variable (k : System)

/-- The assignments of a `rt_list_insert_after` of an unlinked `taken_list`. -/
def putTaken (t : Tid) (m : Mid) : System :=
  (k.setIpc t { k.ipc t with takenObjectList := m :: (k.ipc t).takenObjectList }).setMutex m
    { k.mutex m with takenList := some t }

/-- The assignments of a `rt_list_remove` of a linked `taken_list`. -/
def dropTaken (t : Tid) (m : Mid) : System :=
  (k.setIpc t { k.ipc t with takenObjectList := (k.ipc t).takenObjectList.erase m }).setMutex m
    { k.mutex m with takenList := none }

end System

section
variable {priorityMax : Nat} {k k' : System} {t c : Tid} {m : Mid} {p : Nat}

theorem takenListInsert_unlinked (unlinked : (k.mutex m).takenList = none) (t : Tid) :
    k.takenListInsert t m = k.putTaken t m := by
  simp [System.takenListInsert, unlinked, System.putTaken]

theorem takenListRemove_linked (linked : (k.mutex m).takenList = some t) :
    k.takenListRemove m = k.dropTaken t m := by
  simp [System.takenListRemove, linked, System.dropTaken]

theorem Taken.congr (taken : Taken k) (list : ∀ t, (k'.ipc t).takenObjectList = (k.ipc t).takenObjectList)
    (link : ∀ m, (k'.mutex m).takenList = (k.mutex m).takenList) : Taken k' where
  linked m t := by rw [list, link]; exact taken.linked m t
  nodup t := by rw [list]; exact taken.nodup t

theorem Taken.put (taken : Taken k) (unlinked : (k.mutex m).takenList = none) (t : Tid) : Taken (k.putTaken t m) where
  linked m' u := by
    have fresh : ∀ u, m ∉ (k.ipc u).takenObjectList := fun u => by rw [taken.linked, unlinked]; simp
    show m' ∈ (Function.update k.ipc t _ u).takenObjectList ↔ (Function.update k.mutex m _ m').takenList = some u
    by_cases own : u = t
    · subst own
      by_cases here : m' = m
      · subst here; simp
      · simp [here, taken.linked]
    · by_cases here : m' = m
      · subst here; simpa [own, Ne.symm own] using fresh u
      · simp [own, here, taken.linked]
  nodup u := by
    show (Function.update k.ipc t _ u).takenObjectList.Nodup
    by_cases own : u = t
    · subst own
      rw [Function.update_self]
      exact List.nodup_cons.mpr ⟨by rw [taken.linked, unlinked]; simp, taken.nodup u⟩
    · rw [Function.update_of_ne own]; exact taken.nodup u

theorem Taken.drop (taken : Taken k) (linked : (k.mutex m).takenList = some t) : Taken (k.dropTaken t m) where
  linked m' u := by
    show m' ∈ (Function.update k.ipc t _ u).takenObjectList ↔ (Function.update k.mutex m _ m').takenList = some u
    by_cases own : u = t
    · subst own
      by_cases here : m' = m
      · subst here; simp [(taken.nodup u).mem_erase_iff]
      · simp [here, (taken.nodup u).mem_erase_iff, taken.linked]
    · by_cases here : m' = m
      · subst here; simpa [own, taken.linked, linked] using Ne.symm own
      · simp [own, here, taken.linked]
  nodup u := by
    show (Function.update k.ipc t _ u).takenObjectList.Nodup
    by_cases own : u = t
    · subst own; rw [Function.update_self]; exact (taken.nodup u).erase m
    · rw [Function.update_of_ne own]; exact taken.nodup u

theorem Propagated.owner (same : Propagated k k') (m : Mid) : (k'.mutex m).owner = (k.mutex m).owner := by
  rw [same.mutex m]

theorem Propagated.takenList (same : Propagated k k') (m : Mid) : (k'.mutex m).takenList = (k.mutex m).takenList := by
  rw [same.mutex m]

theorem Propagated.taken (same : Propagated k k') (taken : Taken k) : Taken k' :=
  taken.congr (fun t => by rw [same.ipc]) same.takenList

theorem Quiet.owned (quiet : Quiet priorityMax k k') (owned : Owned k) : Owned k' :=
  ⟨quiet.propagated.taken owned.toTaken, fun m => by
    rw [quiet.propagated.takenList, quiet.propagated.owner]; exact owned.owner m⟩

theorem Quiet.good (quiet : Quiet priorityMax k k') (good : Good priorityMax k) : Good priorityMax k' :=
  ⟨quiet.sane, quiet.owned good.owned, quiet.propagated.mild good.mild⟩

theorem Sane.congr (sane : Sane priorityMax k) (same : k'.sched = k.sched) : Sane priorityMax k' :=
  ⟨same ▸ sane.settled, fun t => same ▸ sane.init t⟩

theorem Sane.running (sane : Sane priorityMax k) (current : k.sched.current = some c)
    (awake : (k.sched.thread c).stat.suspended = false) :
    (k.sched.thread c).stat = .running ∨ (k.sched.thread c).stat = .close := by
  obtain ⟨unready, started⟩ := sane.settled.busy c current
  cases status : (k.sched.thread c).stat with
  | running => exact .inl rfl
  | close => exact .inr rfl
  | ready => exact absurd status unready
  | init => exact absurd status started
  | suspend flag => rw [status] at awake; cases awake

/-! ## Taking -/

theorem Sane.takeFree (sane : Sane priorityMax k) (limit : priorityMax ≤ 256) (unlinked : (k.mutex m).takenList = none)
    (fuel : Nat) (t : Tid) (suspendFlag : SuspendFlag) :
    ∃ k₁, Quiet priorityMax (k.setMutex m { k.mutex m with owner := some t, priority := 0xff, hold := 1 }) k₁ ∧
      takeFree priorityMax fuel k t m suspendFlag = k₁.putTaken t m := by
  have start : Sane priorityMax (k.setMutex m { k.mutex m with owner := some t, priority := 0xff, hold := 1 }) :=
    sane.congr rfl
  unfold Kernel.takeFree
  dsimp only
  split
  case isTrue lower =>
    have bound := Nat.lt_trans lower.2 (start.settled.bound t)
    have quiet := Quiet.update start limit bound fuel t suspendFlag
    refine ⟨_, quiet, takenListInsert_unlinked ?_ t⟩
    rw [quiet.propagated.takenList]
    simpa using unlinked
  case isFalse =>
    exact ⟨_, .refl start, takenListInsert_unlinked (by simpa using unlinked) t⟩

theorem ipcListSuspend_close (closed : (k.sched.thread c).stat = .close) (current : k.sched.current = some c) (q : Queue)
    (prio : Bool) (suspendFlag : SuspendFlag) :
    ipcListSuspend priorityMax k.sched q c prio suspendFlag = (.error, k.sched) := by
  simp [ipcListSuspend, rtThreadSuspendWithFlag, closed, current, Stat.suspended]

def parkIn (priorityMax : Nat) (k : System) (q : Queue) (t : Tid) (prio : Bool) (suspendFlag : SuspendFlag) : System :=
  k.setSched (ipcListSuspend priorityMax k.sched q t prio suspendFlag).2

theorem Sane.park (sane : Sane priorityMax k) (limit : priorityMax ≤ 256) (current : k.sched.current = some c)
    (running : (k.sched.thread c).stat = .running) {q : Queue} (aside : q.aside = true) (live : q ≠ .defunct) (prio : Bool)
    (suspendFlag : SuspendFlag) :
    let k' := parkIn priorityMax k q c prio suspendFlag
    (ipcListSuspend priorityMax k.sched q c prio suspendFlag).1 = .ok ∧ Sane priorityMax k' ∧
      Parked c q (waitPlace k.sched prio c) k.sched k'.sched := by
  obtain ⟨ok, settled, parked, -⟩ := sane.settled.park limit current running aside live prio suspendFlag
  refine ⟨ok, ⟨settled, fun u => ?_⟩, parked⟩
  by_cases own : u = c
  · rw [own]; exact parked.initPriority.symm ▸ sane.init c
  · show ((ipcListSuspend priorityMax k.sched q c prio suspendFlag).2.thread u).initPriority < priorityMax
    rw [parked.others u own]; exact sane.init u

theorem Sane.setTimer (sane : Sane priorityMax k) (suspended : (k.sched.thread t).stat.suspended = true) :
    Sane priorityMax (k.setSched (k.sched.setTimer t true)) := by
  refine ⟨sane.settled.timer t true fun _ => suspended, fun u => ?_⟩
  by_cases own : u = t
  · subst own; simpa using sane.init u
  · simpa [own] using sane.init u

theorem Sane.takeWait (sane : Sane priorityMax k) (limit : priorityMax ≤ 256) (current : k.sched.current = some c)
    (running : (k.sched.thread c).stat = .running) (fuel : Nat) (m : Mid) (owner : Tid) (timeout : Int)
    (suspendFlag : SuspendFlag) :
    ∃ k₁, Quiet priorityMax ((parkIn priorityMax k (.mutex m) c true suspendFlag).setPendingObject c (some m)) k₁ ∧
      takeWait priorityMax fuel k c m owner timeout suspendFlag =
        (.waits, if timeout > 0 then k₁.setSched (k₁.sched.setTimer c true) else k₁) := by
  obtain ⟨ok, sane', -⟩ := sane.park limit current running (q := .mutex m) rfl (by simp) true suspendFlag
  have start : Sane priorityMax ((parkIn priorityMax k (.mutex m) c true suspendFlag).setPendingObject c (some m)) :=
    sane'.congr rfl
  unfold Kernel.takeWait
  simp only [ok, ne_eq, not_true_eq_false, if_false]
  refine ⟨_, ?_, rfl⟩
  split
  · have recorded := Quiet.setPriority start m (k.currentPriority c)
    split
    · exact recorded.trans (.update recorded.sane limit (sane.settled.bound c) fuel owner .uninterruptible)
    · exact recorded
  · exact .refl start

theorem takeWait_close (closed : (k.sched.thread c).stat = .close) (current : k.sched.current = some c) (fuel : Nat)
    (m : Mid) (owner : Tid) (timeout : Int) (suspendFlag : SuspendFlag) :
    takeWait priorityMax fuel k c m owner timeout suspendFlag = (.returns .error, k) := by
  unfold takeWait
  simp only [ipcListSuspend_close closed current]
  rfl

/-! The cases of `_rt_mutex_take`. -/

section
variable {fuel : Nat} {timeout : Int} {suspendFlag : SuspendFlag} {o : Tid}

theorem rtMutexTake_free (free : (k.mutex m).owner = none) :
    rtMutexTake priorityMax fuel k c m timeout suspendFlag =
      (.returns .ok, takeFree priorityMax fuel (k.setError c .ok) c m suspendFlag) := by
  have free' : ((k.setError c .ok).mutex m).owner = none := free
  unfold rtMutexTake
  dsimp only
  rw [free']

theorem rtMutexTake_again (owner : (k.mutex m).owner = some c) (room : (k.mutex m).hold < rtMutexHoldMax) :
    rtMutexTake priorityMax fuel k c m timeout suspendFlag =
      (.returns .ok, (k.setError c .ok).setMutex m { k.mutex m with hold := (k.mutex m).hold + 1 }) := by
  have owner' : ((k.setError c .ok).mutex m).owner = some c := owner
  have room' : ((k.setError c .ok).mutex m).hold < rtMutexHoldMax := room
  unfold rtMutexTake
  dsimp only
  rw [owner']
  dsimp only
  rw [if_pos rfl, if_pos room', ← owner']
  rfl

theorem rtMutexTake_full (owner : (k.mutex m).owner = some c) (full : ¬ (k.mutex m).hold < rtMutexHoldMax) :
    rtMutexTake priorityMax fuel k c m timeout suspendFlag = (.returns .full, k.setError c .ok) := by
  have owner' : ((k.setError c .ok).mutex m).owner = some c := owner
  have full' : ¬ ((k.setError c .ok).mutex m).hold < rtMutexHoldMax := full
  unfold rtMutexTake
  dsimp only
  rw [owner']
  dsimp only
  rw [if_pos rfl, if_neg full']

theorem rtMutexTake_refused (owner : (k.mutex m).owner = some o) (other : o ≠ c) (now : timeout = 0) :
    rtMutexTake priorityMax fuel k c m timeout suspendFlag =
      (.returns .timeout, (k.setError c .ok).setError c .timeout) := by
  have owner' : ((k.setError c .ok).mutex m).owner = some o := owner
  unfold rtMutexTake
  dsimp only
  rw [owner']
  dsimp only
  rw [if_neg other, if_pos now]

theorem rtMutexTake_wait (owner : (k.mutex m).owner = some o) (other : o ≠ c) (later : timeout ≠ 0) :
    rtMutexTake priorityMax fuel k c m timeout suspendFlag =
      takeWait priorityMax fuel (k.setError c .ok) c m o timeout suspendFlag := by
  have owner' : ((k.setError c .ok).mutex m).owner = some o := owner
  unfold rtMutexTake
  dsimp only
  rw [owner']
  dsimp only
  rw [if_neg other, if_neg later]

end

/-! ## Releasing -/

theorem rtListRemove_idem (k : Sched) (t : Tid) : (k.rtListRemove t).rtListRemove t = k.rtListRemove t :=
  rtListRemove_unlinked (by simp)

theorem rtThreadResume_unlinked (k : Sched) (t : Tid) :
    rtThreadResume priorityMax (k.rtListRemove t) t =
      if (k.thread t).stat.suspended then (.ok, rtScheduleInsertThread priorityMax (resumeRemove k t) t)
      else (.error, k.rtListRemove t) := by
  simp [rtThreadResume, resumeRemove, rtListRemove_idem]

def wakeUp (priorityMax : Nat) (k : System) (t : Tid) : System :=
  k.setSched (rtScheduleInsertThread priorityMax (resumeRemove k.sched t) t)

theorem Sane.wakeUp (sane : Sane priorityMax k) (limit : priorityMax ≤ 256)
    (suspended : (k.sched.thread t).stat.suspended = true) :
    let k' := wakeUp priorityMax k t
    Sane priorityMax k' ∧ Woken t k.sched k'.sched := by
  obtain ⟨settled, woken, -⟩ := sane.settled.resume limit suspended
  have shape : (rtThreadResume priorityMax k.sched t).2 = (Kernel.wakeUp priorityMax k t).sched := by
    simp only [rtThreadResume, suspended, if_true, Kernel.wakeUp, System.setSched_sched]
  rw [shape] at settled woken
  refine ⟨⟨settled, fun u => ?_⟩, woken⟩
  by_cases own : u = t
  · rw [own, woken.initPriority]; exact sane.init t
  · rw [woken.others u own]; exact sane.init u

theorem resumed_eq (suspended : (k.sched.thread t).stat.suspended = true) :
    k.setSched (rtThreadResume priorityMax k.sched t).2 = wakeUp priorityMax k t := by
  simp only [rtThreadResume, suspended, if_true, wakeUp]

def grant (k : System) (m : Mid) (next : Tid) : System :=
  ((k.setMutex m { k.mutex m with owner := some next, hold := 1 }).putTaken next m).setPendingObject next none

theorem grant_mutex (next : Tid) : (grant k m next).mutex = Function.update k.mutex m
    { k.mutex m with owner := some next, hold := 1, takenList := some next } := by
  simp [grant, System.putTaken, System.setPendingObject]

theorem grant_ipc (next : Tid) : (grant k m next).ipc = Function.update k.ipc next
    { k.ipc next with pendingObject := none, takenObjectList := m :: (k.ipc next).takenObjectList } := by
  simp [grant, System.putTaken, System.setPendingObject]

theorem handOver_eq (suspended : (k.sched.thread t).stat.suspended = true) (unlinked : (k.mutex m).takenList = none) :
    handOver priorityMax k m t = mutexUpdatePriority (wakeUp priorityMax (grant k m t) t) m := by
  unfold handOver
  dsimp only
  rw [takenListInsert_unlinked (by simpa using unlinked)]
  have still : (k.sched.thread t).stat.suspended = true := suspended
  show mutexUpdatePriority (System.setSched _ (rtThreadResume priorityMax (k.sched.rtListRemove t) t).2) m = _
  rw [rtThreadResume_unlinked, if_pos still]
  rfl

def freed (k : System) (c : Tid) (m : Mid) : System :=
  (k.setMutex m { k.mutex m with hold := holdDown (k.mutex m).hold }).dropTaken c m

def boosted (k : System) (c : Tid) (m : Mid) : Prop :=
  (k.mutex m).ceilingPriority ≠ 0xff ∨ k.currentPriority c = (k.mutex m).priority

instance (k : System) (c : Tid) (m : Mid) : Decidable (boosted k c m) := inferInstanceAs (Decidable (_ ∨ _))

def lowered (priorityMax : Nat) (k : System) (c : Tid) (m : Mid) : System :=
  if boosted k c m then raise priorityMax (freed k c m) c (threadGetMutexPriority (freed k c m) c) else freed k c m

@[simp] theorem freed_sched : (freed k c m).sched = k.sched := rfl

theorem freed_mutex : (freed k c m).mutex = Function.update k.mutex m
    { k.mutex m with hold := holdDown (k.mutex m).hold, takenList := none } := by
  simp [freed, System.dropTaken]

theorem Sane.lowered (sane : Sane priorityMax k) (limit : priorityMax ≤ 256) (c : Tid) (m : Mid) :
    let k' := lowered priorityMax k c m
    Sane priorityMax k' ∧ Propagated (freed k c m) k' ∧ ∀ m', k'.waiting m' = k.waiting m' := by
  have start : Sane priorityMax (freed k c m) := sane.congr rfl
  unfold Kernel.lowered
  split
  · obtain ⟨sane', propagated, only, -⟩ := start.raised limit c (start.owed_lt c)
    exact ⟨sane', propagated, fun m' => only.queue (.mutex m') rfl⟩
  · exact ⟨start, .refl _, fun _ => rfl⟩

theorem Owned.freed (owned : Owned k) (owner : (k.mutex m).owner = some c) :
    Taken (freed k c m) ∧ ∀ m', m' ≠ m → ((freed k c m).mutex m').takenList = ((freed k c m).mutex m').owner := by
  have same : ∀ m', ((k.setMutex m { k.mutex m with hold := holdDown (k.mutex m).hold }).mutex m').takenList =
      (k.mutex m').takenList := by
    intro m'
    by_cases here : m' = m
    · subst here; simp
    · simp [here]
  have counted : Taken (k.setMutex m { k.mutex m with hold := holdDown (k.mutex m).hold }) :=
    owned.toTaken.congr (fun _ => rfl) same
  refine ⟨counted.drop ((same m).trans ((owned.owner m).trans owner)), fun m' here => ?_⟩
  rw [freed_mutex, Function.update_of_ne here]
  exact owned.owner m'

theorem rtMutexRelease_last (sane : Sane priorityMax k) (limit : priorityMax ≤ 256) (owner : (k.mutex m).owner = some c)
    (linked : (k.mutex m).takenList = some c) (last : holdDown (k.mutex m).hold = 0) :
    rtMutexRelease priorityMax k c m =
      match k.waiting m with
      | [] => (.ok, decide (boosted k c m), (lowered priorityMax k c m).setMutex m
          { (lowered priorityMax k c m).mutex m with owner := none, priority := 0xff })
      | next :: _ => (.ok, true, handOver priorityMax (lowered priorityMax k c m) m next) := by
  rw [← (sane.lowered limit c m).2.2 m]
  have removed : (k.setMutex m { k.mutex m with hold := holdDown (k.mutex m).hold }).takenListRemove m = freed k c m :=
    takenListRemove_linked (by simpa using linked)
  have mutex : (freed k c m).mutex m = { k.mutex m with hold := holdDown (k.mutex m).hold, takenList := none } := by
    rw [freed_mutex, Function.update_self]
  have hold : ((k.setMutex m { k.mutex m with hold := holdDown (k.mutex m).hold }).mutex m).hold = 0 := by simpa using last
  unfold rtMutexRelease
  rw [if_neg (not_not.mpr owner)]
  dsimp only
  rw [if_neg (not_not.mpr hold), removed, mutex]
  rfl

theorem rtMutexRelease_nested (owner : (k.mutex m).owner = some c) (more : holdDown (k.mutex m).hold ≠ 0) :
    rtMutexRelease priorityMax k c m =
      (.ok, false, k.setMutex m { k.mutex m with hold := holdDown (k.mutex m).hold }) := by
  have hold : ((k.setMutex m { k.mutex m with hold := holdDown (k.mutex m).hold }).mutex m).hold ≠ 0 := by simpa using more
  unfold rtMutexRelease
  rw [if_neg (not_not.mpr owner)]
  dsimp only
  rw [if_pos hold]

theorem rtMutexRelease_foreign (foreign : (k.mutex m).owner ≠ some c) :
    rtMutexRelease priorityMax k c m = (.error, false, k.setError c .error) := by
  unfold rtMutexRelease
  simp only [foreign, ne_eq, not_false_eq_true, if_true]

end

end RtThread.Kernel
