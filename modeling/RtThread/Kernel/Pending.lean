import RtThread.Kernel.Ceiling

/-! `pending_object` of suspended threads.

A take that times out leaves the mutex in `pending_object`. As long as no
thread begins another wait with such a leftover, `pending_object` names the
mutex a suspended thread is queued for.
-/

set_option autoImplicit false

namespace RtThread.Kernel

open Sched
open Function (update_of_ne update_self)

section
variable {priorityMax : Nat} {k k' : System} {t c : Tid} {m : Mid}

theorem Honest.congr (honest : Honest k) (sched : k'.sched = k.sched)
    (pending : ∀ t, (k'.ipc t).pendingObject = (k.ipc t).pendingObject) : Honest k' where
  linked t m link := by rw [pending]; exact honest.linked t m (sched ▸ link)
  pending t m suspended named := by
    rw [pending] at named
    rw [sched] at suspended ⊢
    exact honest.pending t m suspended named

theorem setIpc_pending (value : ThreadIpc) (same : value.pendingObject = (k.ipc t).pendingObject) (u : Tid) :
    ((k.setIpc t value).ipc u).pendingObject = (k.ipc u).pendingObject := by
  show (Function.update k.ipc t value u).pendingObject = _
  by_cases own : u = t
  · rw [own, update_self, same]
  · rw [update_of_ne own]

theorem Honest.setError (honest : Honest k) (t : Tid) (err : Err) : Honest (k.setError t err) :=
  honest.congr rfl (setIpc_pending _ rfl)

theorem Honest.setMutex (honest : Honest k) (m : Mid) (value : Mutex) : Honest (k.setMutex m value) :=
  honest.congr rfl fun _ => rfl

theorem Honest.one (honest : Honest k) (others : ∀ u, u ≠ t → k'.sched.thread u = k.sched.thread u)
    (pending : ∀ u, u ≠ t → (k'.ipc u).pendingObject = (k.ipc u).pendingObject)
    (linked : ∀ m, (k'.sched.thread t).tlist = some (.mutex m) → (k'.ipc t).pendingObject = some m)
    (suspended : (k'.sched.thread t).stat.suspended = true → ∀ m, (k'.ipc t).pendingObject = some m →
      (k'.sched.thread t).tlist = some (.mutex m)) : Honest k' where
  linked u m link := by
    by_cases own : u = t
    · subst own; exact linked m link
    · rw [others u own] at link
      rw [pending u own]
      exact honest.linked u m link
  pending u m asleep named := by
    by_cases own : u = t
    · subst own; exact suspended asleep m named
    · rw [others u own] at asleep ⊢
      rw [pending u own] at named
      exact honest.pending u m asleep named

theorem Settled.active_unlinked {k : Sched} (settled : Settled priorityMax k) (active : (k.thread t).stat.active = true)
    {q : Queue} (aside : q.aside = true) : (k.thread t).tlist ≠ some q := by
  have links := (settled.fits t id).links
  intro link
  rw [link] at links
  cases status : (k.thread t).stat with
  | ready => rw [status] at links; exact ready_ne_aside aside (Option.some.inj links).symm
  | running => rw [status] at links; cases links
  | init | close | suspend flag => rw [status] at active; cases active

theorem Stat.not_suspended_of_active {stat : Stat} (active : stat.active = true) : stat.suspended = false := by
  cases stat <;> first | rfl | cases active

theorem Honest.woken (honest : Honest k) (sane : Sane priorityMax k') (woken : Woken t k.sched k'.sched)
    (pending : ∀ u, u ≠ t → (k'.ipc u).pendingObject = (k.ipc u).pendingObject) : Honest k' :=
  honest.one woken.others pending (fun m link => absurd link (sane.settled.active_unlinked woken.active rfl))
    fun asleep => by rw [Stat.not_suspended_of_active woken.active] at asleep; cases asleep

theorem Honest.waits (honest : Honest k) (sane : Sane priorityMax k) {sched : Sched} (settled : Settled priorityMax sched)
    (same : SameWaits k.sched sched) : Honest (k.setSched sched) :=
  have lists : SameLists k (k.setSched sched) := fun q aside => by rw [System.setSched_sched, same.queue q aside]
  honest.of_same lists sane.settled.toHeld settled.toHeld same.suspended fun _ => rfl

theorem Parked.link {sched : Sched} {q : Queue} {prio : Bool} (parked : Parked t q (waitPlace k.sched prio t) k.sched sched)
    (settled : Settled priorityMax sched) (aside : q.aside = true) : (sched.thread t).tlist = some q := by
  rw [← settled.linked, parked.queue q aside, if_pos rfl]
  exact mem_waitPlace.mpr (.inl rfl)

section
variable (honest : Honest k)
include honest

theorem Honest.takeFree (sane : Sane priorityMax k) (limit : priorityMax ≤ 256)
    (unlinked : (k.mutex m).takenList = none) (fuel : Nat) (t : Tid) (suspendFlag : SuspendFlag) :
    Honest (takeFree priorityMax fuel k t m suspendFlag) := by
  obtain ⟨k₁, quiet, shape⟩ := sane.takeFree limit unlinked fuel t suspendFlag
  rw [shape]
  exact (quiet.lists (honest.setMutex m _)).1.congr rfl (setIpc_pending _ rfl)

theorem Honest.parkMutex (sane : Sane priorityMax k) (limit : priorityMax ≤ 256)
    (current : k.sched.current = some c) (running : (k.sched.thread c).stat = .running) (m : Mid)
    (suspendFlag : SuspendFlag) :
    Honest ((parkIn priorityMax k (.mutex m) c true suspendFlag).setPendingObject c (some m)) := by
  obtain ⟨-, sane', parked⟩ := sane.park limit current running (q := .mutex m) rfl (by simp) true suspendFlag
  have link := parked.link (k := k) sane'.settled rfl
  refine honest.one parked.others (fun u other => ?_) (fun m' link' => ?_) (fun _ m' named => ?_)
  · show (Function.update k.ipc c _ u).pendingObject = _
    rw [update_of_ne other]
  · show (Function.update k.ipc c _ c).pendingObject = some m'
    rw [update_self]
    have same : Queue.mutex m = .mutex m' := Option.some.inj (link.symm.trans link')
    exact congrArg some (Queue.mutex.inj same)
  · change (Function.update k.ipc c _ c).pendingObject = some m' at named
    rw [update_self] at named
    obtain rfl : m = m' := Option.some.inj named
    exact link

theorem Honest.setTimer (t : Tid) (active : Bool) : Honest (k.setSched (k.sched.setTimer t active)) := by
  refine honest.one (t := t) (fun u other => by simp [other]) (fun _ _ => rfl) (fun m link => ?_) (fun asleep m named => ?_)
  · exact honest.linked t m (by simpa using link)
  · simpa using honest.pending t m (by simpa using asleep) named

section
variable (good : Good priorityMax k) (limit : priorityMax ≤ 256) (current : k.sched.current = some c)
include good limit current

theorem Honest.takeWait (awake : (k.sched.thread c).stat.suspended = false) (fuel : Nat) (m : Mid)
    (owner : Tid) (timeout : Int) (suspendFlag : SuspendFlag) :
    Honest (takeWait priorityMax fuel k c m owner timeout suspendFlag).2 := by
  rcases good.sane.running current awake with running | closed
  · obtain ⟨k₁, quiet, shape⟩ := good.sane.takeWait limit current running fuel m owner timeout suspendFlag
    rw [shape]
    have honest₁ := (quiet.lists (honest.parkMutex good.sane limit current running m suspendFlag)).1
    dsimp only
    split
    · exact honest₁.setTimer c true
    · exact honest₁
  · rw [takeWait_close closed current]
    exact honest

theorem Honest.take (awake : (k.sched.thread c).stat.suspended = false) (fuel : Nat) (m : Mid)
    (timeout : Int) (suspendFlag : SuspendFlag) :
    Honest (rtMutexTake priorityMax fuel k c m timeout suspendFlag).2 := by
  have start := good.setError c .ok
  have honest' := honest.setError c .ok
  cases owner : (k.mutex m).owner with
  | none =>
    rw [rtMutexTake_free owner]
    exact honest'.takeFree start.sane limit ((good.owned.owner m).trans owner) fuel c suspendFlag
  | some o =>
    by_cases own : o = c
    · subst own
      by_cases room : (k.mutex m).hold < rtMutexHoldMax
      · rw [rtMutexTake_again owner room]; exact honest'.setMutex m _
      · rw [rtMutexTake_full owner room]; exact honest'
    · by_cases now : timeout = 0
      · rw [rtMutexTake_refused owner own now]; exact honest'.setError c .timeout
      · rw [rtMutexTake_wait owner own now]
        exact honest'.takeWait start limit current awake fuel m o timeout suspendFlag

end

section
variable (sane : Sane priorityMax k) (limit : priorityMax ≤ 256)
include sane limit

theorem Honest.leave (fuel : Nat) (m : Mid)
    (t : Tid) : Honest (leaveMutex priorityMax fuel k m t) :=
  ((Quiet.leave sane limit fuel m t).lists honest).1

theorem Honest.check (fuel : Nat) (c : Tid)
    (m : Mid) : Honest (takeCheck priorityMax fuel k c m).2 := by
  unfold takeCheck
  split
  · exact honest
  · exact honest.leave sane limit fuel m c

theorem Honest.raised {p : Nat}
    (bound : p < priorityMax) (t : Tid) : Honest (raise priorityMax k t p) := by
  obtain ⟨sane', propagated, -⟩ := sane.raised limit t bound
  exact honest.of_same (sane.raised_lists limit bound) sane.settled.toHeld sane'.settled.toHeld
    (fun t => by rw [propagated.stat]) fun t => by rw [propagated.ipc]

end

end

theorem dropTaken_pending (k : System) (t : Tid) (m : Mid) (u : Tid) :
    ((k.dropTaken t m).ipc u).pendingObject = (k.ipc u).pendingObject :=
  setIpc_pending (k := k) (t := t) { k.ipc t with takenObjectList := (k.ipc t).takenObjectList.erase m } rfl u

theorem Honest.lowered (honest : Honest k) (sane : Sane priorityMax k) (limit : priorityMax ≤ 256) (c : Tid) (m : Mid) :
    Honest (lowered priorityMax k c m) := by
  have start : Sane priorityMax (freed k c m) := sane.congr rfl
  have honest' : Honest (freed k c m) := (honest.setMutex m _).congr rfl (dropTaken_pending _ c m)
  unfold Kernel.lowered
  split
  · exact honest'.raised start limit (start.owed_lt c) c
  · exact honest'

theorem Honest.release (honest : Honest k) (good : Good priorityMax k) (limit : priorityMax ≤ 256) (c : Tid) (m : Mid) :
    Honest (rtMutexRelease priorityMax k c m).2.2 := by
  by_cases owner : (k.mutex m).owner = some c
  case neg => rw [rtMutexRelease_foreign owner]; exact honest.setError c .error
  by_cases last : holdDown (k.mutex m).hold = 0
  case neg => rw [rtMutexRelease_nested owner last]; exact honest.setMutex m _
  rw [rtMutexRelease_last good.sane limit owner ((good.owned.owner m).trans owner) last]
  obtain ⟨sane, propagated, list⟩ := good.sane.lowered limit c m
  have honest₁ := honest.lowered good.sane limit c m
  have unlinked₁ : ((Kernel.lowered priorityMax k c m).mutex m).takenList = none := by
    rw [propagated.takenList, freed_mutex, update_self]
  generalize Kernel.lowered priorityMax k c m = k₁ at *
  cases waiting : k.waiting m with
  | nil => exact honest₁.setMutex m _
  | cons next rest =>
    dsimp only
    have first : next ∈ k₁.waiting m := by rw [list, waiting]; exact List.mem_cons_self
    have suspended := (sane.waiting_suspended first).2
    rw [handOver_eq suspended unlinked₁]
    obtain ⟨sane', woken⟩ := (sane.congr rfl : Sane priorityMax (grant k₁ m next)).wakeUp limit suspended
    refine Honest.setMutex (honest₁.woken sane' woken fun u other => ?_) m _
    show ((grant k₁ m next).ipc u).pendingObject = _
    rw [grant_ipc, update_of_ne other]

theorem Honest.ceiling (honest : Honest k) (good : Good priorityMax k) (limit : priorityMax ≤ 256) (fuel : Nat) (m : Mid)
    (p : Nat) : Honest (rtMutexSetprioceiling priorityMax fuel k m p) := by
  have start := good.setMutex m { k.mutex m with ceilingPriority := p } rfl rfl
  unfold rtMutexSetprioceiling
  dsimp only
  split
  · exact honest.setMutex m _
  · exact ((Quiet.demand start.sane limit fuel _).lists (honest.setMutex m _)).1

/-! ## Thread calls -/

section
variable (honest : Honest k)
include honest

theorem Honest.closed (good : Good priorityMax k) (limit : priorityMax ≤ 256)
    (live : (k.sched.thread t).stat ≠ .close) : Honest (k.setSched (closeThread priorityMax k.sched t)) := by
  obtain ⟨-, closed⟩ := good.closed limit live
  refine honest.one closed.others (fun _ _ => rfl) (fun m link => ?_) fun asleep => ?_
  · rw [closed.unlinked] at link; cases link
  · rw [closed.stat] at asleep; cases asleep

theorem Honest.defunct (sane : Sane priorityMax k) (closed : (k.sched.thread t).stat = .close)
    (unlinked : (k.sched.thread t).tlist = none) : Honest (k.setSched (rtThreadDefunctEnqueue k.sched t)) := by
  obtain ⟨-, thread, -⟩ := sane.settled.defunct closed unlinked
  refine honest.one (t := t) (fun u other => ?_) (fun _ _ => rfl) (fun m link => ?_) fun asleep => ?_
  · rw [System.setSched_sched, thread, update_of_ne other]
  · rw [System.setSched_sched, thread, update_self] at link; cases link
  · rw [System.setSched_sched, thread, update_self] at asleep
    rw [show (k.sched.thread t).stat = .close from closed] at asleep
    cases asleep

section
variable (good : Good priorityMax k) (limit : priorityMax ≤ 256)
include good limit

theorem Honest.exit (live : (k.sched.thread t).stat ≠ .close) : Honest (threadExit priorityMax k t) := by
  obtain ⟨good', closed⟩ := good.closed limit live
  exact (honest.closed good limit live).defunct good'.sane closed.stat closed.unlinked

theorem Honest.detach (fuel : Nat) (t : Tid) :
    Honest (rtThreadDetach priorityMax fuel k t) := by
  by_cases live : (k.sched.thread t).stat = .close
  · rw [rtThreadDetach_closed live]; exact honest
  obtain ⟨good', closed⟩ := good.closed limit live
  have honest' := honest.closed good limit live
  cases pending : (k.ipc t).pendingObject with
  | none =>
    rw [rtThreadDetach_clean live pending]
    exact honest'.defunct good'.sane closed.stat closed.unlinked
  | some m =>
    have quiet := Quiet.leave good'.sane limit fuel m t
    obtain ⟨stat, unlinked⟩ := quiet.unlinked closed.stat closed.unlinked
    rw [rtThreadDetach_drop live pending closed.unlinked]
    have left : Honest ((leaveMutex priorityMax fuel (k.setSched (closeThread priorityMax k.sched t)) m t).setPendingObject
        t none) := by
      refine (honest'.leave good'.sane limit fuel m t).one (t := t) (fun _ _ => rfl) (fun u other => ?_) (fun m link => ?_)
        fun asleep => ?_
      · simp [System.setPendingObject, other]
      · change ((leaveMutex priorityMax fuel _ _ t).sched.thread t).tlist = _ at link
        rw [unlinked] at link; cases link
      · change ((leaveMutex priorityMax fuel _ _ t).sched.thread t).stat.suspended = _ at asleep
        rw [stat] at asleep; cases asleep
    exact left.defunct (quiet.sane.congr rfl) stat unlinked

theorem Honest.resume (t : Tid) :
    Honest (k.setSched (rtThreadResume priorityMax k.sched t).2) := by
  by_cases suspended : (k.sched.thread t).stat.suspended = true
  · obtain ⟨sane, woken⟩ := good.sane.wakeUp limit suspended
    rw [resumed_eq suspended]
    exact honest.woken sane woken fun _ _ => rfl
  · simp only [rtThreadResume, suspended]
    exact honest

theorem Honest.suspend
    (current : k.sched.current = some c) (none : (k.ipc c).pendingObject = none) (suspendFlag : SuspendFlag) :
    Honest (k.setSched (rtThreadSuspendWithFlag priorityMax k.sched c suspendFlag).2) := by
  by_cases running : (k.sched.thread c).stat = .running
  · obtain ⟨-, -, only, -, unlinked, -⟩ := good.sane.settled.suspend limit current running suspendFlag
    refine honest.one only.others (fun _ _ => rfl) (fun m link => ?_) fun _ m named => ?_
    · rw [System.setSched_sched, unlinked] at link; cases link
    · rw [System.setSched_ipc, none] at named; cases named
  · rw [suspend_refused current ⟨(good.sane.settled.busy c current).1, running⟩]
    exact honest

theorem Honest.sleep (current : k.sched.current = some c) (none : (k.ipc c).pendingObject = none) :
    Honest (rtThreadSleep priorityMax k c).2 := by
  have none' : ((k.setError c .ok).ipc c).pendingObject = Option.none := by simpa [System.setError] using none
  have suspended := (honest.setError c .ok).suspend (good.setError c .ok) limit current none' .interruptible
  unfold rtThreadSleep
  dsimp only
  split
  · exact suspended.setTimer c true
  · exact suspended

theorem Honest.wait (current : k.sched.current = some c) (awake : (k.sched.thread c).stat.suspended = false)
    (none : (k.ipc c).pendingObject = none) (o : Nat) (prio : Bool) (timeout : Int) (suspendFlag : SuspendFlag) :
    Honest (objectWait priorityMax k c o prio timeout suspendFlag).2 := by
  have start := good.setError c .intr
  unfold objectWait
  dsimp only
  rcases good.sane.running current awake with running | closed
  · obtain ⟨ok, sane, parked⟩ := start.sane.park limit current running (q := .object o) rfl (by simp) prio suspendFlag
    have link := parked.link (k := k.setError c .intr) sane.settled rfl
    have waits : Honest (parkIn priorityMax (k.setError c .intr) (.object o) c prio suspendFlag) := by
      refine (honest.setError c .intr).one parked.others (fun _ _ => rfl) (fun m link' => ?_) fun _ m named => ?_
      · rw [show (_ : Option Queue) = _ from link'] at link; cases link
      · have named : ((k.setError c .intr).ipc c).pendingObject = some m := named
        simp [System.setError, none] at named
    rw [if_neg (not_not.mpr ok)]
    dsimp only
    split
    · exact waits.setTimer c true
    · exact waits
  · have refused : ipcListSuspend priorityMax (k.setError c .intr).sched (.object o) c prio suspendFlag =
        (.error, (k.setError c .intr).sched) := ipcListSuspend_close (k := k.setError c .intr) closed current _ _ _
    rw [refused]
    exact honest.setError c .intr

end

end

end

/-! ## Runs -/

/-- No thread begins another wait while `pending_object` still names a mutex. -/
def PendingClear (s : Machine) : Action → Prop
  | .sleep | .suspend _ | .wait _ _ _ _ => ∀ c, s.system.sched.current = some c → (s.system.ipc c).pendingObject = none
  | .resumeCheck _ => False
  | _ => True

theorem PendingClear.whole {s : Machine} {a : Action} (clear : PendingClear s a) : a.whole = true := by
  cases a <;> first | rfl | exact clear.elim

section
variable {priorityMax : Nat} {idle : Tid} {fuel : Nat} {s s' : Machine} {action : Action}

theorem Effect.honest (effect : Effect priorityMax idle fuel s action s') (limit : priorityMax ≤ 256)
    (sound : Sound priorityMax s) (clear : PendingClear s action) (honest : Honest s.system) : Honest s'.system := by
  have good := sound.good
  have dispatched : ∀ {c}, s.system.sched.current = some c → Honest (dispatch priorityMax s.system) := fun current =>
    have scheduled := good.sane.settled.schedule limit current
    honest.waits good.sane scheduled.1 scheduled.2.1
  cases effect with
  | start _ current ready =>
    have started := good.sane.settled.start limit current ready
    exact honest.waits good.sane started.1 started.2.1
  | startupBoot t _ current init | startup t c calls init =>
    exact honest.woken (good.startup limit init).sane (good.sane.settled.startup limit init).2.1 fun _ _ => rfl
  | takeReturn c m timeout suspendFlag err k calls may result =>
    have taken := honest.take good limit calls.current may.2.1 fuel m timeout suspendFlag
    rw [result] at taken
    rw [returnTake_system]
    exact taken
  | takeWait c m timeout suspendFlag k calls may result =>
    have taken := honest.take good limit calls.current may.2.1 fuel m timeout suspendFlag
    rw [result] at taken
    exact taken
  | release c m needSchedule k calls result | refused c m needSchedule err k calls result failed =>
    have released := honest.release good limit c m
    rw [result] at released
    exact released
  | setprioceiling c m priority calls bound => exact honest.ceiling good limit fuel m priority
  | waitReturn c o prio timeout suspendFlag err k calls may result | wait c o prio timeout suspendFlag k calls may result =>
    have waiting := honest.wait good limit calls.current may.2.1 (clear c calls.current) o prio timeout suspendFlag
    rw [result] at waiting
    exact waiting
  | wake c t err o runs link => exact (honest.setError t err).resume (good.setError t err) limit t
  | sleep c err k calls may result =>
    have sleeping := honest.sleep good limit calls.current (clear c calls.current)
    rw [result] at sleeping
    exact sleeping
  | suspend c suspendFlag calls busy =>
    exact honest.suspend good limit calls.current (clear c calls.current) suspendFlag
  | resume c t calls => exact honest.resume good limit t
  | resumeCheck c t calls => exact clear.elim
  | yield c calls => exact honest.waits good.sane (good.yield c).sane.settled (good.yield_waits c)
  | changePriority c t priority calls bound => exact honest.raised good.sane limit bound t
  | detach c t calls other => exact honest.detach good limit fuel t
  | exit c calls busy live => exact honest.exit good limit live
  | enterCritical c calls | exitCritical c calls => exact ⟨honest.linked, honest.pending⟩
  | takeSchedule c m runs here | schedule c runs here | sleepSchedule c runs here
  | preempt c runs => exact dispatched runs.current
  | takeCheck c m runs here =>
    rw [returnTake_system]
    exact honest.check good.sane limit fuel c m
  | sleepMark c runs here => exact honest.setError c .intr
  | sleepReturn c runs here =>
    show Honest (if _ then _ else _)
    split
    · exact honest.setError c .ok
    · exact honest
  | resumeRemove c t runs here | resumeInsert c t runs here => have := sound.whole c; rw [here] at this; exact this.elim
  | expire c t runs timer =>
    exact (honest.setError t .timeout).woken (good.expire limit timer).sane (good.sane.expired limit timer).2 fun _ _ => rfl
  | tick c runs =>
    refine honest.waits good.sane ?_ (good.tick_waits limit runs.current)
    exact (good.tick limit runs.current).settled

end

/-- As long as no thread begins another wait with a leftover in `pending_object`, a suspended thread's
`pending_object` names the mutex whose list it is in, threads that wait for other objects or just
sleep have none, and `_thread_update_priority` moves threads within their lists only. -/
theorem pending_honest {priorityMax : Nat} (idle : Tid) (limit : priorityMax ≤ 256) (priority tick : Tid → Nat)
    (priorities : ∀ t, priority t < priorityMax) (actions : List Action) (s : Machine)
    (run : Reaches priorityMax idle PendingClear (Machine.initial priority tick) actions s) :
    (∀ t m, (s.system.sched.thread t).stat.suspended = true → (s.system.ipc t).pendingObject = some m →
        t ∈ s.system.waiting m) ∧
      (∀ t, (s.system.sched.thread t).stat.suspended = true →
        ((s.system.sched.thread t).tlist = none ∨ ∃ o, t ∈ s.system.sched.queue (.object o)) →
        (s.system.ipc t).pendingObject = none) ∧
      ∀ fuel t p suspendFlag, p < priorityMax →
        let k := threadUpdatePriority priorityMax fuel s.system t p suspendFlag
        ∀ q : Queue, q.aside = true → (k.sched.queue q).Perm (s.system.sched.queue q) := by
  have both : Sound priorityMax s ∧ Honest s.system := by
    refine RtThread.Lib.Run.invariant (fun s => Sound priorityMax s ∧ Honest s.system) (fun s a s' inv step => ?_)
      ⟨initial_sound priorities, ⟨fun t m link => (nomatch link), fun t m asleep => (nomatch asleep)⟩⟩ run
    obtain ⟨⟨fuel, done, -⟩, clear⟩ := step
    have effect := perform_effect done
    exact ⟨effect.sound limit clear.whole inv.1, effect.honest limit inv.1 clear inv.2⟩
  obtain ⟨⟨good, -⟩, honest⟩ := both
  have linked := good.sane.settled.linked
  refine ⟨fun t m asleep named => (linked (.mutex m) t).mpr (honest.pending t m asleep named), fun t asleep place => ?_,
    fun fuel t p suspendFlag bound => (good.sane.update_lists limit honest bound fuel suspendFlag).2⟩
  cases named : (s.system.ipc t).pendingObject with
  | none => rfl
  | some m =>
    have link := honest.pending t m asleep named
    rcases place with unlinked | ⟨o, member⟩
    · rw [unlinked] at link; cases link
    · rw [(linked (.object o) t).mp member] at link; cases link

def waitsClear (s : Machine) : Action → Bool
  | .sleep | .suspend _ | .wait _ _ _ _ => s.system.sched.current.all fun c => (s.system.ipc c).pendingObject.isNone
  | .resumeCheck _ => false
  | _ => true

theorem waitsClear_pending (s : Machine) (a : Action) (clear : waitsClear s a = true) : PendingClear s a := by
  cases a with
  | sleep | suspend suspendFlag
  | wait o prio timeout suspendFlag => exact fun c current => by simpa [waitsClear, current] using clear
  | resumeCheck t => cases clear
  | _ => trivial

/-- Thread 1 owns mutex 0; thread 2 waits for it with a timeout. -/
def pendingWait : List Action :=
  [.startup 0, .startup 1, .start, .take 0 (-1) .uninterruptible, .startup 2, .proceed, .take 0 5 .uninterruptible, .proceed]

def pendingWaiting : Option Machine :=
  execute 32 0 waitsClear 2 (Machine.initial (ceilingPriorities 8) fun _ => 5) pendingWait

theorem pendingWaiting_some : pendingWaiting.isSome = true := by decide +kernel

theorem pending_honest_waiting : 2 ∈ (pendingWaiting.get pendingWaiting_some).system.waiting 0 :=
  (pending_honest 0 (by decide) (ceilingPriorities 8) (fun _ => 5) (ceilingPriorities_lt (by decide)) pendingWait
    (pendingWaiting.get pendingWaiting_some) (reaches_get waitsClear_pending pendingWaiting_some)).1 2 0
    (by decide +kernel) (by decide +kernel)

/-- The take of thread 2 times out, and thread 2 sleeps. -/
def pendingSleep : Option Machine :=
  execute 32 0 (fun _ a => a.whole) 2 (Machine.initial (ceilingPriorities 8) fun _ => 5)
    (pendingWait ++ [.expire 2, .yield, .proceed, .proceed, .sleep])

theorem pendingSleep_some : pendingSleep.isSome = true := by decide +kernel

/-- Thread 2 sleeps, and its `pending_object` names a mutex it does not wait for. -/
theorem pending_leftover : ∃ actions s,
    Reaches 32 0 (fun _ a => a.whole = true) (Machine.initial (ceilingPriorities 8) fun _ => 5) actions s ∧
      (s.system.sched.thread 2).stat.suspended = true ∧ (s.system.ipc 2).pendingObject = some 0 ∧
      2 ∉ s.system.waiting 0 :=
  ⟨_, pendingSleep.get pendingSleep_some, reaches_get (fun _ _ => id) pendingSleep_some, by decide +kernel,
    by decide +kernel, by decide +kernel⟩

end RtThread.Kernel
