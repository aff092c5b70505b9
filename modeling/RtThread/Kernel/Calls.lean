import RtThread.Kernel.MutexCalls
import RtThread.Kernel.Effect

/-! Every step keeps the kernel well formed. -/

set_option autoImplicit false

namespace RtThread.Kernel

open Sched
open Function (update_of_ne update_self)

section
variable {priorityMax : Nat} {k k' : System} {t c : Tid} {m : Mid} {p : Nat}

theorem Good.congr (good : Good priorityMax k) (sched : k'.sched = k.sched)
    (list : ∀ t, (k'.ipc t).takenObjectList = (k.ipc t).takenObjectList)
    (mutex : ∀ m, (k'.mutex m).takenList = (k.mutex m).takenList ∧ (k'.mutex m).owner = (k.mutex m).owner) :
    Good priorityMax k' :=
  ⟨good.sane.congr sched, ⟨good.owned.toTaken.congr list fun m => (mutex m).1,
    fun m => by rw [(mutex m).1, (mutex m).2]; exact good.owned.owner m⟩, sched ▸ good.mild⟩

theorem Good.of_sched (good : Good priorityMax k) {sched : Sched} (sane : Sane priorityMax (k.setSched sched))
    (fault : sched.fault = k.sched.fault) : Good priorityMax (k.setSched sched) :=
  ⟨sane, ⟨⟨good.owned.linked, good.owned.nodup⟩, good.owned.owner⟩, fault.symm ▸ good.mild⟩

theorem Good.settled {sched : Sched} (good : Good priorityMax (k.setSched sched)) : Settled priorityMax sched :=
  good.sane.settled

theorem setIpc_taken (value : ThreadIpc) (same : value.takenObjectList = (k.ipc t).takenObjectList) (u : Tid) :
    ((k.setIpc t value).ipc u).takenObjectList = (k.ipc u).takenObjectList := by
  show (Function.update k.ipc t value u).takenObjectList = _
  by_cases own : u = t
  · rw [own, update_self, same]
  · rw [update_of_ne own]

theorem Good.setError (good : Good priorityMax k) (t : Tid) (err : Err) : Good priorityMax (k.setError t err) :=
  good.congr rfl (setIpc_taken _ rfl) fun _ => ⟨rfl, rfl⟩

theorem Good.setPendingObject (good : Good priorityMax k) (t : Tid) (pending : Option Mid) :
    Good priorityMax (k.setPendingObject t pending) :=
  good.congr rfl (setIpc_taken _ rfl) fun _ => ⟨rfl, rfl⟩

theorem Good.setMutex (good : Good priorityMax k) (m : Mid) (value : Mutex) (owner : value.owner = (k.mutex m).owner)
    (link : value.takenList = (k.mutex m).takenList) : Good priorityMax (k.setMutex m value) := by
  refine good.congr rfl (fun _ => rfl) fun m' => ?_
  show (Function.update k.mutex m value m').takenList = _ ∧ (Function.update k.mutex m value m').owner = _
  by_cases here : m' = m
  · rw [here, update_self]; exact ⟨link, owner⟩
  · rw [update_of_ne here]; exact ⟨rfl, rfl⟩

theorem Sane.of_settled (sane : Sane priorityMax k) {sched : Sched} (settled : Settled priorityMax sched)
    (others : ∀ u, u ≠ t → sched.thread u = k.sched.thread u)
    (init : (sched.thread t).initPriority = (k.sched.thread t).initPriority) : Sane priorityMax (k.setSched sched) := by
  refine ⟨settled, fun u => ?_⟩
  by_cases own : u = t
  · rw [own, System.setSched_sched, init]; exact sane.init t
  · rw [System.setSched_sched, others u own]; exact sane.init u

theorem Sane.of_waits (sane : Sane priorityMax k) {sched : Sched} (settled : Settled priorityMax sched)
    (same : SameWaits k.sched sched) : Sane priorityMax (k.setSched sched) :=
  ⟨settled, fun u => by rw [System.setSched_sched, same.initPriority]; exact sane.init u⟩

/-! ## Mutex calls -/

section
variable (good : Good priorityMax k) (limit : priorityMax ≤ 256)
include good limit

theorem Good.takeFree (free : (k.mutex m).owner = none)
    (fuel : Nat) (t : Tid) (suspendFlag : SuspendFlag) :
    Good priorityMax (takeFree priorityMax fuel k t m suspendFlag) := by
  have unlinked := (good.owned.owner m).trans free
  obtain ⟨k₁, quiet, shape⟩ := good.sane.takeFree limit unlinked fuel t suspendFlag
  have list : ∀ m', ((k.setMutex m { k.mutex m with owner := some t, priority := 0xff, hold := 1 }).mutex m').takenList =
      (k.mutex m').takenList := by
    intro m'
    by_cases here : m' = m
    · subst here; simp
    · simp [here]
  have taken₁ := quiet.propagated.taken (good.owned.toTaken.congr (fun _ => rfl) list)
  rw [shape]
  refine ⟨quiet.sane.congr rfl, ⟨taken₁.put ?_ t, fun m' => ?_⟩, quiet.propagated.mild good.mild⟩
  · rw [quiet.propagated.takenList, list, unlinked]
  · show (Function.update k₁.mutex m _ m').takenList = (Function.update k₁.mutex m _ m').owner
    by_cases here : m' = m
    · subst here
      rw [update_self]
      show some t = (k₁.mutex m').owner
      rw [quiet.propagated.owner]
      simp
    · rw [update_of_ne here, quiet.propagated.takenList, quiet.propagated.owner]
      simpa [here] using good.owned.owner m'

section
variable (current : k.sched.current = some c) (awake : (k.sched.thread c).stat.suspended = false) (fuel : Nat)
include current awake fuel

theorem Good.takeWait (m : Mid) (owner : Tid) (timeout : Int)
    (suspendFlag : SuspendFlag) :
    Good priorityMax (takeWait priorityMax fuel k c m owner timeout suspendFlag).2 := by
  rcases good.sane.running current awake with running | closed
  · obtain ⟨k₁, quiet, shape⟩ := good.sane.takeWait limit current running fuel m owner timeout suspendFlag
    obtain ⟨-, sane, parked⟩ := good.sane.park limit current running (q := .mutex m) rfl (by simp) true suspendFlag
    have start : Good priorityMax ((parkIn priorityMax k (.mutex m) c true suspendFlag).setPendingObject c (some m)) :=
      (good.of_sched sane parked.rest.fault).setPendingObject c (some m)
    rw [shape]
    dsimp only
    split
    · refine (quiet.good start).of_sched (quiet.sane.setTimer ?_) rfl
      rw [quiet.propagated.stat]
      exact parked.suspended
    · exact quiet.good start
  · rw [takeWait_close closed current]
    exact good

theorem Good.take (m : Mid) (timeout : Int)
    (suspendFlag : SuspendFlag) :
    Good priorityMax (rtMutexTake priorityMax fuel k c m timeout suspendFlag).2 := by
  have start := good.setError c .ok
  cases owner : (k.mutex m).owner with
  | none => rw [rtMutexTake_free owner]; exact start.takeFree limit owner fuel c suspendFlag
  | some o =>
    by_cases own : o = c
    · subst own
      by_cases room : (k.mutex m).hold < rtMutexHoldMax
      · rw [rtMutexTake_again owner room]; exact start.setMutex m _ rfl rfl
      · rw [rtMutexTake_full owner room]; exact start
    · by_cases now : timeout = 0
      · rw [rtMutexTake_refused owner own now]; exact start.setError c .timeout
      · rw [rtMutexTake_wait owner own now]
        exact start.takeWait limit current awake fuel m o timeout suspendFlag

end

theorem Good.check (fuel : Nat) (c : Tid) (m : Mid) :
    Good priorityMax (takeCheck priorityMax fuel k c m).2 := by
  unfold takeCheck
  split
  · exact good
  · exact (Quiet.leave good.sane limit fuel m c).good good

end

theorem Taken.owned (taken : Taken k) (others : ∀ m', m' ≠ m → (k.mutex m').takenList = (k.mutex m').owner)
    (own : (k.mutex m).takenList = (k.mutex m).owner) : Owned k :=
  ⟨taken, fun m' => by
    by_cases here : m' = m
    · rw [here]; exact own
    · exact others m' here⟩

theorem Good.handOver (sane : Sane priorityMax k) (taken : Taken k) (mild : Mild k.sched.fault) (limit : priorityMax ≤ 256)
    (unlinked : (k.mutex m).takenList = none) (others : ∀ m', m' ≠ m → (k.mutex m').takenList = (k.mutex m').owner)
    (suspended : (k.sched.thread t).stat.suspended = true) : Good priorityMax (handOver priorityMax k m t) := by
  rw [handOver_eq suspended unlinked]
  have granted : Sane priorityMax (grant k m t) := sane.congr rfl
  obtain ⟨sane', woken⟩ := granted.wakeUp limit suspended
  have set : ∀ m', ((k.setMutex m { k.mutex m with owner := some t, hold := 1 }).mutex m').takenList =
      (k.mutex m').takenList := by
    intro m'
    by_cases here : m' = m
    · subst here; simp
    · simp [here]
  have counted : Taken (k.setMutex m { k.mutex m with owner := some t, hold := 1 }) := taken.congr (fun _ => rfl) set
  have put := counted.put ((set m).trans unlinked) t
  have taken' : Taken (grant k m t) := put.congr (setIpc_taken _ rfl) fun _ => rfl
  have owned : Owned (grant k m t) := by
    refine taken'.owned (m := m) (fun m' here => ?_) ?_
    · simpa [grant, System.putTaken, System.setPendingObject, here] using others m' here
    · simp [grant, System.putTaken, System.setPendingObject]
  have good : Good priorityMax (wakeUp priorityMax (grant k m t) t) :=
    ⟨sane', ⟨⟨owned.linked, owned.nodup⟩, owned.owner⟩, by rw [woken.rest.fault]; exact mild⟩
  exact good.setMutex m _ rfl rfl

theorem Good.release (good : Good priorityMax k) (limit : priorityMax ≤ 256) (c : Tid) (m : Mid) :
    Good priorityMax (rtMutexRelease priorityMax k c m).2.2 := by
  by_cases owner : (k.mutex m).owner = some c
  case neg => rw [rtMutexRelease_foreign owner]; exact good.setError c .error
  by_cases last : holdDown (k.mutex m).hold = 0
  case neg => rw [rtMutexRelease_nested owner last]; exact good.setMutex m _ rfl rfl
  rw [rtMutexRelease_last good.sane limit owner ((good.owned.owner m).trans owner) last]
  obtain ⟨taken, others⟩ := good.owned.freed owner
  obtain ⟨sane, propagated, list⟩ := good.sane.lowered limit c m
  have unlinked : ((lowered priorityMax k c m).mutex m).takenList = none := by
    rw [propagated.takenList, freed_mutex, update_self]
  have others' : ∀ m', m' ≠ m → ((lowered priorityMax k c m).mutex m').takenList =
      ((lowered priorityMax k c m).mutex m').owner := fun m' here => by
    rw [propagated.takenList, propagated.owner]; exact others m' here
  have taken' := propagated.taken taken
  have mild := propagated.mild good.mild
  cases waiting : k.waiting m with
  | nil =>
    dsimp only
    have left : Taken ((lowered priorityMax k c m).setMutex m
        { (lowered priorityMax k c m).mutex m with owner := none, priority := 0xff }) := by
      refine taken'.congr (fun _ => rfl) fun m' => ?_
      by_cases here : m' = m
      · subst here; simp
      · simp [here]
    refine ⟨sane.congr rfl, left.owned (m := m) (fun m' here => ?_) ?_, mild⟩
    · simpa [here] using others' m' here
    · simpa using unlinked
  | cons next rest =>
    dsimp only
    have first : next ∈ (lowered priorityMax k c m).waiting m := by rw [list, waiting]; exact List.mem_cons_self
    exact .handOver sane taken' mild limit unlinked others' (sane.waiting_suspended first).2

theorem Quiet.demand (sane : Sane priorityMax k) (limit : priorityMax ≤ 256) (fuel : Nat) (owner : Tid) :
    Quiet priorityMax k (if threadGetMutexPriority k owner ≠ k.currentPriority owner then
      threadUpdatePriority priorityMax fuel k owner (threadGetMutexPriority k owner) .uninterruptible else k) := by
  split
  · exact .update sane limit (sane.owed_lt owner) fuel owner .uninterruptible
  · exact .refl sane

theorem Good.ceiling (good : Good priorityMax k) (limit : priorityMax ≤ 256) (fuel : Nat) (m : Mid) (p : Nat) :
    Good priorityMax (rtMutexSetprioceiling priorityMax fuel k m p) := by
  have start := good.setMutex m { k.mutex m with ceilingPriority := p } rfl rfl
  unfold rtMutexSetprioceiling
  dsimp only
  split
  · exact start
  · exact (Quiet.demand start.sane limit fuel _).good start

/-! ## Thread calls -/

theorem rtListRemove_eq (unlinked : (k.sched.thread t).tlist = none) : k.setSched (k.sched.rtListRemove t) = k := by
  rw [rtListRemove_unlinked unlinked]
  rfl

theorem Good.closed (good : Good priorityMax k) (limit : priorityMax ≤ 256) (live : (k.sched.thread t).stat ≠ .close) :
    let k' := k.setSched (closeThread priorityMax k.sched t)
    Good priorityMax k' ∧ Closed t k.sched k'.sched := by
  obtain ⟨settled, closed⟩ := good.sane.settled.close limit live
  exact ⟨good.of_sched (good.sane.of_settled settled closed.others closed.initPriority) closed.rest.fault, closed⟩

theorem Good.defunct (good : Good priorityMax k) (closed : (k.sched.thread t).stat = .close)
    (unlinked : (k.sched.thread t).tlist = none) :
    Good priorityMax (k.setSched (rtThreadDefunctEnqueue k.sched t)) := by
  obtain ⟨settled, thread, -, rest⟩ := good.sane.settled.defunct closed unlinked
  refine good.of_sched (good.sane.of_settled (t := t) settled (fun u other => ?_) ?_) rest.fault
  · rw [thread, update_of_ne other]
  · rw [thread, update_self]

theorem Settled.closed_links (settled : Settled priorityMax k.sched) (closed : (k.sched.thread t).stat = .close)
    {q : Queue} (link : (k.sched.thread t).tlist = some q) : q = .defunct := by
  have links := (settled.fits t id).links
  rw [closed] at links
  exact links q link

theorem Quiet.unlinked (quiet : Quiet priorityMax k k') (closed : (k.sched.thread t).stat = .close)
    (unlinked : (k.sched.thread t).tlist = none) :
    (k'.sched.thread t).stat = .close ∧ (k'.sched.thread t).tlist = none := by
  have closed' := (quiet.propagated.stat t).trans closed
  refine ⟨closed', ?_⟩
  cases link : (k'.sched.thread t).tlist with
  | none => rfl
  | some q =>
    have defunct := quiet.sane.settled.closed_links closed' link
    subst defunct
    have before := (quiet.propagated.link t (by rw [closed]; rfl) .defunct rfl).mp link
    rw [unlinked] at before
    cases before

section
variable {fuel : Nat}

theorem rtThreadDetach_closed (closed : (k.sched.thread t).stat = .close) : rtThreadDetach priorityMax fuel k t = k := by
  unfold rtThreadDetach
  rw [if_pos closed]

theorem rtThreadDetach_clean (live : (k.sched.thread t).stat ≠ .close) (pending : (k.ipc t).pendingObject = none) :
    let k₁ := k.setSched (closeThread priorityMax k.sched t)
    rtThreadDetach priorityMax fuel k t = k₁.setSched (rtThreadDefunctEnqueue k₁.sched t) := by
  have pending' : ((k.setSched (closeThread priorityMax k.sched t)).ipc t).pendingObject = none := pending
  unfold rtThreadDetach
  rw [if_neg live]
  dsimp only
  rw [pending']

theorem rtThreadDetach_drop (live : (k.sched.thread t).stat ≠ .close) (pending : (k.ipc t).pendingObject = some m)
    (unlinked : ((closeThread priorityMax k.sched t).thread t).tlist = none) :
    let k₁ := (leaveMutex priorityMax fuel (k.setSched (closeThread priorityMax k.sched t)) m t).setPendingObject t none
    rtThreadDetach priorityMax fuel k t = k₁.setSched (rtThreadDefunctEnqueue k₁.sched t) := by
  have pending' : ((k.setSched (closeThread priorityMax k.sched t)).ipc t).pendingObject = some m := pending
  unfold rtThreadDetach rtMutexDropThread
  rw [if_neg live]
  dsimp only
  rw [pending']
  dsimp only
  rw [rtListRemove_eq (k := k.setSched (closeThread priorityMax k.sched t)) unlinked]

end

theorem Good.detach (good : Good priorityMax k) (limit : priorityMax ≤ 256) (fuel : Nat) (t : Tid) :
    Good priorityMax (rtThreadDetach priorityMax fuel k t) := by
  by_cases live : (k.sched.thread t).stat = .close
  · rw [rtThreadDetach_closed live]; exact good
  obtain ⟨good', closed⟩ := good.closed limit live
  cases pending : (k.ipc t).pendingObject with
  | none =>
    rw [rtThreadDetach_clean live pending]
    exact good'.defunct closed.stat closed.unlinked
  | some m =>
    have quiet := Quiet.leave good'.sane limit fuel m t
    obtain ⟨stat, unlinked⟩ := quiet.unlinked closed.stat closed.unlinked
    rw [rtThreadDetach_drop live pending closed.unlinked]
    exact ((quiet.good good').setPendingObject t none).defunct stat unlinked

theorem Good.exit (good : Good priorityMax k) (limit : priorityMax ≤ 256) (live : (k.sched.thread t).stat ≠ .close) :
    Good priorityMax (threadExit priorityMax k t) := by
  obtain ⟨good', closed⟩ := good.closed limit live
  exact good'.defunct closed.stat closed.unlinked

theorem Sane.expired (sane : Sane priorityMax k) (limit : priorityMax ≤ 256) (timer : (k.sched.thread t).timer = true) :
    let sched := threadTimeout priorityMax (k.sched.setTimer t false) t
    Sane priorityMax (k.setSched sched) ∧ Woken t k.sched sched := by
  have suspended := (sane.settled.fits t id).timer timer
  have stopped := sane.settled.timer t false (by simp)
  obtain ⟨settled, woken⟩ := stopped.timeout limit (t := t) (by simpa using suspended) (by simp)
  have whole : Woken t k.sched (threadTimeout priorityMax (k.sched.setTimer t false) t) := by
    refine ⟨fun u other => ?_, fun q aside => ?_, ⟨woken.rest.current, woken.rest.lockNest, woken.rest.fault⟩,
      woken.active, ?_, ?_⟩
    · rw [woken.others u other, setTimer_thread, update_of_ne other]
    · rw [woken.queue q aside, setTimer_thread, update_self]
      rfl
    · rw [woken.priority]; simp
    · rw [woken.initPriority]; simp
  exact ⟨sane.of_settled settled whole.others whole.initPriority, whole⟩

section
variable (good : Good priorityMax k) (limit : priorityMax ≤ 256)
include good limit

theorem Good.expire (timer : (k.sched.thread t).timer = true) :
    Good priorityMax (threadExpire priorityMax k t) := by
  obtain ⟨sane, woken⟩ := good.sane.expired limit timer
  exact (good.setError t .timeout).of_sched (sane.congr rfl) woken.rest.fault

theorem Good.resume (t : Tid) :
    Good priorityMax (k.setSched (rtThreadResume priorityMax k.sched t).2) := by
  by_cases suspended : (k.sched.thread t).stat.suspended = true
  · obtain ⟨sane, woken⟩ := good.sane.wakeUp limit suspended
    rw [resumed_eq suspended]
    exact good.of_sched sane woken.rest.fault
  · simp only [rtThreadResume, suspended]
    exact good

theorem Good.wake (t : Tid) (err : Err) :
    Good priorityMax (objectWake priorityMax k t err) :=
  (good.setError t err).resume limit t

end

theorem suspend_refused (current : k.sched.current = some c)
    (idle : (k.sched.thread c).stat ≠ .ready ∧ (k.sched.thread c).stat ≠ .running) (suspendFlag : SuspendFlag) :
    rtThreadSuspendWithFlag priorityMax k.sched c suspendFlag = (.error, k.sched) := by
  simp [rtThreadSuspendWithFlag, current, idle]

section
variable (good : Good priorityMax k)
include good

theorem Good.suspend (limit : priorityMax ≤ 256) (current : k.sched.current = some c)
    (suspendFlag : SuspendFlag) :
    let result := rtThreadSuspendWithFlag priorityMax k.sched c suspendFlag
    Good priorityMax (k.setSched result.2) ∧
      (result.1 = .ok → (result.2.thread c).stat.suspended = true) := by
  by_cases running : (k.sched.thread c).stat = .running
  · obtain ⟨ok, settled, only, stat, -, -, init, -⟩ := good.sane.settled.suspend limit current running suspendFlag
    exact ⟨good.of_sched (good.sane.of_settled settled only.others init) only.rest.fault, fun _ => by rw [stat]; rfl⟩
  · rw [suspend_refused current ⟨(good.sane.settled.busy c current).1, running⟩]
    exact ⟨good, fun bad => by cases bad⟩

theorem Good.setTimer (suspended : (k.sched.thread t).stat.suspended = true) :
    Good priorityMax (k.setSched (k.sched.setTimer t true)) :=
  good.of_sched (good.sane.setTimer suspended) rfl

theorem Good.sleep (limit : priorityMax ≤ 256) (current : k.sched.current = some c) :
    Good priorityMax (rtThreadSleep priorityMax k c).2 := by
  obtain ⟨good', suspended⟩ := (good.setError c .ok).suspend limit current .interruptible
  unfold rtThreadSleep
  dsimp only
  split
  case isTrue ok => exact good'.setTimer (suspended ok)
  case isFalse => exact good'

theorem Good.wait (limit : priorityMax ≤ 256) (current : k.sched.current = some c)
    (awake : (k.sched.thread c).stat.suspended = false) (o : Nat) (prio : Bool) (timeout : Int)
    (suspendFlag : SuspendFlag) :
    Good priorityMax (objectWait priorityMax k c o prio timeout suspendFlag).2 := by
  have start := good.setError c .intr
  unfold objectWait
  dsimp only
  rcases good.sane.running current awake with running | closed
  · obtain ⟨ok, sane, parked⟩ := start.sane.park limit current running (q := .object o) rfl (by simp) prio suspendFlag
    have good' := start.of_sched sane parked.rest.fault
    rw [if_neg (not_not.mpr ok)]
    dsimp only
    split
    · exact good'.setTimer parked.suspended
    · exact good'
  · have refused : ipcListSuspend priorityMax (k.setError c .intr).sched (.object o) c prio suspendFlag =
        (.error, (k.setError c .intr).sched) := ipcListSuspend_close (k := k.setError c .intr) closed current _ _ _
    rw [refused]
    exact start

theorem Good.mark (t : Tid) (value : Thread) (stat : value.stat = (k.sched.thread t).stat)
    (priority : value.currentPriority = (k.sched.thread t).currentPriority)
    (initPriority : value.initPriority = (k.sched.thread t).initPriority) (mask : value.mask = (k.sched.thread t).mask)
    (timer : value.timer = (k.sched.thread t).timer) (link : value.tlist = (k.sched.thread t).tlist) :
    Good priorityMax (k.setSched (k.sched.setThread t value)) ∧ SameWaits k.sched (k.sched.setThread t value) := by
  obtain ⟨settled, same⟩ := good.sane.settled.mark t value stat priority initPriority mask timer link
  exact ⟨good.of_sched (good.sane.of_waits settled same) rfl, same⟩

theorem Good.dispatch (limit : priorityMax ≤ 256) (current : k.sched.current = some c) :
    Good priorityMax (dispatch priorityMax k) := by
  obtain ⟨settled, same, -, fault, -⟩ := good.sane.settled.schedule limit current
  exact good.of_sched (good.sane.of_waits settled same) fault

theorem Good.yield (c : Tid) : Good priorityMax (k.setSched (rtThreadYield k.sched c)) :=
  (good.mark c { k.sched.thread c with remainingTick := (k.sched.thread c).initTick, yield := true }
    rfl rfl rfl rfl rfl rfl).1

theorem Good.tick (limit : priorityMax ≤ 256) (current : k.sched.current = some c) :
    Good priorityMax (k.setSched (rtTickIncrease priorityMax k.sched c)) := by
  unfold rtTickIncrease
  split
  · exact (good.yield c).dispatch limit current
  · generalize countDown (k.sched.thread c).remainingTick = remaining
    exact (good.mark c { k.sched.thread c with remainingTick := remaining } rfl rfl rfl rfl rfl rfl).1

theorem Good.startup (limit : priorityMax ≤ 256) (init : (k.sched.thread t).stat = .init) :
    Good priorityMax (k.setSched (rtThreadStartup priorityMax k.sched t)) := by
  obtain ⟨settled, woken, -⟩ := good.sane.settled.startup limit init
  exact good.of_sched (good.sane.of_settled settled woken.others woken.initPriority) woken.rest.fault

theorem Good.start (limit : priorityMax ≤ 256) (current : k.sched.current = none)
    (ready : (k.sched.thread t).stat = .ready) :
    Good priorityMax (k.setSched (rtSystemSchedulerStart priorityMax k.sched)) := by
  obtain ⟨settled, same, -, fault, -⟩ := good.sane.settled.start limit current ready
  exact good.of_sched (good.sane.of_waits settled same) fault

theorem Good.lockNest (n : Nat) :
    Good priorityMax (k.setSched { k.sched with lockNest := n }) := by
  obtain ⟨⟨linked, nodup, fits, loose, masks, bound, marks⟩, busy⟩ := good.sane.settled
  refine good.of_sched ⟨⟨⟨linked, nodup, fun t tight => ?_, loose, masks, bound, marks⟩, busy⟩, good.sane.init⟩ rfl
  exact ⟨(fits t tight).links, (fits t tight).running, (fits t tight).timer⟩

theorem Good.changePriority (limit : priorityMax ≤ 256) (t : Tid) (bound : p < priorityMax) :
    Good priorityMax (k.setSched (changePriority priorityMax k.sched t p)) := by
  obtain ⟨sane, propagated, -⟩ := good.sane.raised limit t bound
  exact ⟨sane, ⟨⟨good.owned.linked, good.owned.nodup⟩, good.owned.owner⟩, propagated.mild good.mild⟩

end

end

/-! ## Runs -/

/-- No `rt_thread_resume` is interrupted between its sections. -/
def Action.whole : Action → Bool
  | .resumeCheck _ => false
  | _ => true

/-- The thread is in no interrupted `rt_thread_resume`. -/
def Pc.whole : Pc → Prop
  | .resumeRemove _ | .resumeInsert _ => False
  | _ => True

structure Sound (priorityMax : Nat) (s : Machine) : Prop where
  good : Good priorityMax s.system
  whole : ∀ t, (s.pc t).whole

section
variable {priorityMax : Nat} {idle : Tid} {fuel : Nat} {s s' : Machine} {action : Action} {k : System} {c : Tid} {pc : Pc}

section
variable (sound : Sound priorityMax s) (good : Good priorityMax k)
include sound good

theorem Sound.goto (whole : pc.whole) :
    Sound priorityMax (s.goto k c pc) where
  good := good
  whole t := by
    show (Function.update s.pc c pc t).whole
    by_cases own : t = c
    · rw [own, update_self]; exact whole
    · rw [update_of_ne own]; exact sound.whole t

theorem Sound.become : Sound priorityMax (s.become k) :=
  ⟨good, sound.whole⟩

theorem Sound.returnTake (m : Mid) (err : Err) :
    Sound priorityMax (s.returnTake k c m err) := by
  have moved : Sound priorityMax (s.goto k c .user) := sound.goto good trivial
  unfold Machine.returnTake
  split
  · exact ⟨moved.good, moved.whole⟩
  · exact moved

end

theorem Effect.sound (effect : Effect priorityMax idle fuel s action s') (limit : priorityMax ≤ 256) (whole : action.whole = true)
    (sound : Sound priorityMax s) : Sound priorityMax s' := by
  have good := sound.good
  cases effect with
  | start clear current ready => exact sound.become (good.start limit current ready)
  | startupBoot t clear current init => exact sound.become (good.startup limit init)
  | startup t c calls init => exact sound.goto (good.startup limit init) trivial
  | takeReturn c m timeout suspendFlag err k calls may result =>
    have taken := good.take limit calls.current may.2.1 fuel m timeout suspendFlag
    rw [result] at taken
    exact sound.returnTake taken m err
  | takeWait c m timeout suspendFlag k calls may result =>
    have taken := good.take limit calls.current may.2.1 fuel m timeout suspendFlag
    rw [result] at taken
    exact sound.goto taken trivial
  | release c m needSchedule k calls result =>
    have released := good.release limit c m
    rw [result] at released
    have whole : (if needSchedule then Pc.schedule else Pc.user).whole := by split <;> trivial
    have moved : Sound priorityMax (s.goto k c _) := sound.goto released whole
    exact ⟨moved.good, moved.whole⟩
  | refused c m needSchedule err k calls result failed =>
    have released := good.release limit c m
    rw [result] at released
    exact sound.goto released (by split <;> trivial)
  | setprioceiling c m priority calls bound => exact sound.become (good.ceiling limit fuel m priority)
  | waitReturn c o prio timeout suspendFlag err k calls may result | wait c o prio timeout suspendFlag k calls may result =>
    have waits := good.wait limit calls.current may.2.1 o prio timeout suspendFlag
    rw [result] at waits
    exact sound.goto waits trivial
  | wake c t err o runs link => exact sound.become (good.wake limit t err)
  | sleep c err k calls may result =>
    have sleeps := good.sleep limit calls.current
    rw [result] at sleeps
    exact sound.goto sleeps (by split <;> trivial)
  | suspend c suspendFlag calls busy => exact sound.become (good.suspend limit calls.current suspendFlag).1
  | resume c t calls => exact sound.become (good.resume limit t)
  | resumeCheck c t calls => cases whole
  | yield c calls => exact sound.goto (good.yield c) trivial
  | changePriority c t priority calls bound => exact sound.become (good.changePriority limit t bound)
  | detach c t calls other => exact sound.become (good.detach limit fuel t)
  | exit c calls busy live => exact sound.goto (good.exit limit live) trivial
  | enterCritical c calls => exact sound.become (good.lockNest _)
  | exitCritical c calls => exact sound.goto (good.lockNest _) (by split <;> trivial)
  | takeSchedule c m runs here | schedule c runs here
  | sleepSchedule c runs here => exact sound.goto (good.dispatch limit runs.current) trivial
  | takeCheck c m runs here => exact sound.returnTake (good.check limit fuel c m) m _
  | sleepMark c runs here => exact sound.goto (good.setError c .intr) trivial
  | sleepReturn c runs here =>
    refine sound.goto ?_ trivial
    split
    · exact good.setError c .ok
    · exact good
  | resumeRemove c t runs here
  | resumeInsert c t runs here => have := sound.whole c; rw [here] at this; exact absurd this id
  | expire c t runs timer => exact sound.become (good.expire limit timer)
  | tick c runs => exact sound.become (good.tick limit runs.current)
  | preempt c runs => exact sound.become (good.dispatch limit runs.current)

end

end RtThread.Kernel
