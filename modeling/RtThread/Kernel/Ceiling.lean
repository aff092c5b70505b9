import RtThread.Kernel.ReadyQueue

/-! The priority ceiling of a mutex.

Every change the mutex calls make to the priority of an owner respects the
ceilings of all its mutexes. What does not look at the ceiling is the release
that hands the mutex to a waiting thread, and the user's own change of a
priority.
-/

set_option autoImplicit false

namespace RtThread.Kernel

open Sched

def Capped (k : System) : Prop :=
  ∀ m t, (k.mutex m).owner = some t → k.currentPriority t ≤ (k.mutex m).ceilingPriority

section
variable {priorityMax : Nat} {k k' : System} {t c : Tid} {m : Mid} {p : Nat}

theorem Mutex.demand_le_ceiling (mutex : Mutex) : mutex.demand ≤ mutex.ceilingPriority := by
  unfold Mutex.demand
  split <;> omega

theorem Owned.owed_le (owned : Owned k) (owner : (k.mutex m).owner = some t) :
    threadGetMutexPriority k t ≤ (k.mutex m).ceilingPriority :=
  Nat.le_trans (threadGetMutexPriority_le_demand k t ((owned.linked m t).mpr ((owned.owner m).trans owner)))
    (Mutex.demand_le_ceiling _)

theorem Capped.congr (capped : Capped k) (priority : ∀ t, k'.currentPriority t = k.currentPriority t)
    (mutex : ∀ m, (k'.mutex m).owner = (k.mutex m).owner ∧ (k'.mutex m).ceilingPriority = (k.mutex m).ceilingPriority) :
    Capped k' := by
  intro m t owner
  rw [priority, (mutex m).2]
  exact capped m t ((mutex m).1 ▸ owner)

theorem assigned (others : ∀ u, u ≠ t → k'.currentPriority u = k.currentPriority u) (own : k'.currentPriority t = p)
    (mutex : ∀ m, (k'.mutex m).owner = (k.mutex m).owner ∧ (k'.mutex m).ceilingPriority = (k.mutex m).ceilingPriority)
    (capped : ∀ m u, (k.mutex m).owner = some u → u ≠ t → k.currentPriority u ≤ (k.mutex m).ceilingPriority)
    (suits : ∀ m, (k.mutex m).owner = some t → p ≤ (k.mutex m).ceilingPriority) : Capped k' := by
  intro m u owner
  rw [(mutex m).2]
  rw [(mutex m).1] at owner
  by_cases same : u = t
  · subst same; rw [own]; exact suits m owner
  · rw [others u same]; exact capped m u owner same

theorem Propagated.ceiling (same : Propagated k k') (m : Mid) :
    (k'.mutex m).ceilingPriority = (k.mutex m).ceilingPriority := by
  rw [same.mutex m]

theorem Sane.raised_capped (sane : Sane priorityMax k) (limit : priorityMax ≤ 256) (bound : p < priorityMax)
    (others : ∀ m u, (k.mutex m).owner = some u → u ≠ t → k.currentPriority u ≤ (k.mutex m).ceilingPriority)
    (suits : ∀ m, (k.mutex m).owner = some t → p ≤ (k.mutex m).ceilingPriority) : Capped (raise priorityMax k t p) := by
  obtain ⟨-, -, only, -, priority⟩ := sane.raised limit t bound
  refine assigned (k := k) (fun u other => ?_) priority (fun _ => ⟨rfl, rfl⟩) others suits
  rw [System.currentPriority, only.others u other]
  rfl

/-- `_thread_update_priority` respects the ceilings when the priority it is called with does. The
thread it is called for may be below a ceiling until then. -/
theorem Sane.update_capped (sane : Sane priorityMax k) (limit : priorityMax ≤ 256) (bound : p < priorityMax)
    (clear : k.sched.fault = none) (owned : Owned k)
    (others : ∀ m u, (k.mutex m).owner = some u → u ≠ t → k.currentPriority u ≤ (k.mutex m).ceilingPriority)
    (suits : ∀ m, (k.mutex m).owner = some t → p ≤ (k.mutex m).ceilingPriority) (fuel : Nat) (suspendFlag : SuspendFlag) :
    let k' := threadUpdatePriority priorityMax fuel k t p suspendFlag
    k'.sched.fault = some .unfinished ∨ Capped k' := by
  let Before (k₁ : System) (t : Tid) (p : Nat) : Prop := k₁.sched.fault = none ∧ Owned k₁ ∧
    (∀ m u, (k₁.mutex m).owner = some u → u ≠ t → k₁.currentPriority u ≤ (k₁.mutex m).ceilingPriority) ∧
    ∀ m, (k₁.mutex m).owner = some t → p ≤ (k₁.mutex m).ceilingPriority
  have step : ∀ k₁ t p m, Sane priorityMax k₁ → Before k₁ t p → p < priorityMax →
      (k₁.sched.thread t).stat.suspended = true →
      let k' := retarget priorityMax k₁ t p m suspendFlag
      k'.sched.fault = none ∧ Capped k' ∧ Owned k' := by
    intro k₁ t p m sane₁ ⟨clear, owned, others, suits⟩ bound suspended k'
    obtain ⟨-, -, propagated, target⟩ := sane₁.retargeted limit suspended bound m suspendFlag
    refine ⟨target.fault.trans clear, assigned (fun u other => ?_) target.priority
      (fun m' => ⟨propagated.owner m', propagated.ceiling m'⟩) others suits, propagated.taken owned.toTaken, fun m' => ?_⟩
    · rw [System.currentPriority, target.others u other]
      rfl
    · rw [propagated.takenList, propagated.owner]
      exact owned.owner m'
  refine Sane.update_rule limit suspendFlag Before (fun k' => k'.sched.fault = some .unfinished ∨ Capped k')
    ?_ ?_ ?_ ?_ ?_ fuel k t p sane ⟨clear, owned, others, suits⟩ bound
  · exact fun k₁ t p sane₁ before bound _ => .inr (sane₁.raised_capped limit bound before.2.2.1 before.2.2.2)
  · intro k₁ t p m _ sane₁ before bound suspended _ _ k' _
    exact .inr (step k₁ t p m sane₁ before bound suspended).2.1
  · intro k₁ t p m _ sane₁ before bound suspended _ _ k'
    obtain ⟨clear', capped', owned'⟩ := step k₁ t p m sane₁ before bound suspended
    exact ⟨clear', owned', fun m' u owner _ => capped' m' u owner, fun m' owner => owned'.owed_le owner⟩
  · intro k₁ t p _ before
    refine .inl ?_
    show k₁.sched.fault.or _ = _
    rw [before.1]
    rfl
  · exact fun k₁ t p m sane₁ before bound suspended _ _ => .inr (step k₁ t p m sane₁ before bound suspended).2.1

theorem Sane.owed_capped (sane : Sane priorityMax k) (limit : priorityMax ≤ 256) (clear : k.sched.fault = none)
    (owned : Owned k)
    (others : ∀ m u, (k.mutex m).owner = some u → u ≠ t → k.currentPriority u ≤ (k.mutex m).ceilingPriority)
    (fuel : Nat) (suspendFlag : SuspendFlag) :
    let k' := threadUpdatePriority priorityMax fuel k t (threadGetMutexPriority k t) suspendFlag
    k'.sched.fault = some .unfinished ∨ Capped k' :=
  sane.update_capped limit (sane.owed_lt t) clear owned others (fun _ owner => owned.owed_le owner) fuel suspendFlag

theorem setPriority_kept (k : System) (m : Mid) (p : Nat) (m' : Mid) :
    ((k.setPriority m p).mutex m').owner = (k.mutex m').owner ∧
      ((k.setPriority m p).mutex m').ceilingPriority = (k.mutex m').ceilingPriority := by
  rw [(propagated_setPriority k m p).owner, (propagated_setPriority k m p).ceiling]
  exact ⟨rfl, rfl⟩

theorem Capped.setPriority (capped : Capped k) (m : Mid) (p : Nat) : Capped (k.setPriority m p) :=
  capped.congr (fun _ => rfl) (setPriority_kept k m p)

theorem Owned.setPriority (owned : Owned k) (m : Mid) (p : Nat) : Owned (k.setPriority m p) :=
  have same := propagated_setPriority k m p
  ⟨same.taken owned.toTaken, fun m' => by rw [same.takenList, same.owner]; exact owned.owner m'⟩

theorem Capped.leave (capped : Capped k) (good : Good priorityMax k) (limit : priorityMax ≤ 256)
    (clear : k.sched.fault = none) (fuel : Nat) (m : Mid) (t : Tid) :
    let k' := leaveMutex priorityMax fuel k m t
    k'.sched.fault = some .unfinished ∨ Capped k' := by
  unfold leaveMutex
  cases (k.mutex m).owner with
  | none => exact .inr capped
  | some owner =>
    have recorded : Capped (mutexUpdatePriority k m) := capped.setPriority m _
    dsimp only
    split
    · split
      · exact (good.sane.setPriority m _).owed_capped limit clear (good.owned.setPriority m _)
          (fun m' u owns _ => recorded m' u owns) fuel .uninterruptible
      · exact .inr recorded
    · exact .inr recorded

/-! ## Becoming an owner -/

theorem threadUpdatePriority_awake (sane : Sane priorityMax k) (limit : priorityMax ≤ 256) (bound : p < priorityMax)
    (awake : (k.sched.thread t).stat.suspended = false) (fuel : Nat) (suspendFlag : SuspendFlag) :
    threadUpdatePriority priorityMax (fuel + 1) k t p suspendFlag = raise priorityMax k t p := by
  rw [threadUpdatePriority_succ sane limit bound, if_neg (by rw [awake]; exact Bool.false_ne_true)]

theorem putTaken_kept (k : System) (t : Tid) (m m' : Mid) :
    ((k.putTaken t m).mutex m').owner = (k.mutex m').owner ∧
      ((k.putTaken t m).mutex m').ceilingPriority = (k.mutex m').ceilingPriority := by
  show (Function.update k.mutex m _ m').owner = _ ∧ (Function.update k.mutex m _ m').ceilingPriority = _
  by_cases here : m' = m
  · subst here; simp
  · simp [here]

theorem Capped.own (capped : Capped k) (priority : ∀ t, k'.currentPriority t = k.currentPriority t)
    (ceiling : ∀ m', (k'.mutex m').ceilingPriority = (k.mutex m').ceilingPriority)
    (others : ∀ m', m' ≠ m → (k'.mutex m').owner = (k.mutex m').owner)
    (suits : ∀ t, (k'.mutex m).owner = some t → k.currentPriority t ≤ (k.mutex m).ceilingPriority) : Capped k' := by
  intro m' t owner
  rw [priority, ceiling]
  by_cases here : m' = m
  · subst here; exact suits t owner
  · rw [others m' here] at owner
    exact capped m' t owner

theorem Capped.takeFree (capped : Capped k) (good : Good priorityMax k) (limit : priorityMax ≤ 256)
    (awake : (k.sched.thread t).stat.suspended = false) (free : (k.mutex m).owner = none)
    (clear : k.sched.fault = none) (fuel : Nat) (suspendFlag : SuspendFlag) :
    (takeFree priorityMax fuel k t m suspendFlag).sched.fault = some .unfinished ∨
      Capped (takeFree priorityMax fuel k t m suspendFlag) := by
  have unlinked : (k.mutex m).takenList = none := (good.owned.owner m).trans free
  have bound := good.sane.settled.bound t
  generalize start : k.setMutex m { k.mutex m with owner := some t, priority := 0xff, hold := 1 } = k₁
  have sane₁ : Sane priorityMax k₁ := good.sane.congr (by rw [← start]; rfl)
  have priority₁ : ∀ u, k₁.currentPriority u = k.currentPriority u := fun u => by rw [← start]; rfl
  have ceiling₁ : ∀ m', (k₁.mutex m').ceilingPriority = (k.mutex m').ceilingPriority := by
    intro m'
    rw [← start]
    by_cases here : m' = m
    · subst here; simp
    · simp [here]
  have owner₁ : (k₁.mutex m).owner = some t := by rw [← start]; simp
  have others₁ : ∀ m', m' ≠ m → (k₁.mutex m').owner = (k.mutex m').owner := fun m' here => by rw [← start]; simp [here]
  have unlinked₁ : (k₁.mutex m).takenList = none := by rw [← start]; simpa using unlinked
  have finish : ∀ k₂, Capped k₂ → (k₂.mutex m).takenList = none → Capped (k₂.takenListInsert t m) := by
    intro k₂ capped₂ unlinked₂
    rw [takenListInsert_unlinked unlinked₂]
    exact capped₂.congr (fun _ => rfl) (putTaken_kept k₂ t m)
  unfold Kernel.takeFree
  dsimp only
  rw [start]
  split
  case isFalse high =>
    -- the thread is within the ceiling already
    refine .inr (finish k₁ (capped.own priority₁ ceiling₁ others₁ fun u owner => ?_) unlinked₁)
    obtain rfl : t = u := Option.some.inj (owner₁.symm.trans owner)
    rw [ceiling₁, priority₁] at high
    show (k.sched.thread t).currentPriority ≤ _
    rw [System.currentPriority] at high
    omega
  case isTrue lower =>
    have fits : ∀ m', (k₁.mutex m').owner = some t → (k₁.mutex m).ceilingPriority ≤ (k₁.mutex m').ceilingPriority := by
      intro m' owner
      by_cases here : m' = m
      · rw [here]
      · rw [others₁ m' here] at owner
        have own := capped m' t owner
        rw [ceiling₁ m', ← priority₁] at *
        omega
    have bound₁ : (k₁.mutex m).ceilingPriority < priorityMax := by
      have below := lower.2
      rw [priority₁, System.currentPriority] at below
      omega
    have awake₁ : (k₁.sched.thread t).stat.suspended = false := by rw [← start]; exact awake
    cases fuel with
    | zero =>
      refine .inl ?_
      have failed : (threadUpdatePriority priorityMax 0 k₁ t (k₁.mutex m).ceilingPriority suspendFlag) =
          k₁.fail .unfinished := rfl
      rw [failed, takenListInsert_unlinked (k := k₁.fail .unfinished) unlinked₁]
      show (k₁.sched.fault.or _) = _
      rw [← start]
      show (k.sched.fault.or _) = _
      rw [clear]
      rfl
    | succ fuel =>
      rw [threadUpdatePriority_awake sane₁ limit bound₁ awake₁]
      obtain ⟨-, -, only, mutex, priority⟩ := sane₁.raised limit t bound₁
      refine .inr (finish _ (fun m' u owner => ?_) (by rw [mutex]; exact unlinked₁))
      rw [mutex] at owner ⊢
      by_cases same : u = t
      · subst same; rw [priority]; exact fits m' owner
      · have here : m' ≠ m := by
          rintro rfl
          exact same (Option.some.inj (owner.symm.trans owner₁))
        rw [System.currentPriority, only.others u same]
        show k₁.currentPriority u ≤ _
        rw [priority₁, ceiling₁]
        exact capped m' u (others₁ m' here ▸ owner)

theorem Capped.of_sched (capped : Capped k) {sched : Sched}
    (priority : ∀ t, (sched.thread t).currentPriority = (k.sched.thread t).currentPriority) :
    Capped (k.setSched sched) :=
  capped.congr priority fun _ => ⟨rfl, rfl⟩

theorem same_priority {sched sched' : Sched} (others : ∀ u, u ≠ t → sched'.thread u = sched.thread u)
    (own : (sched'.thread t).currentPriority = (sched.thread t).currentPriority) (u : Tid) :
    (sched'.thread u).currentPriority = (sched.thread u).currentPriority := by
  by_cases same : u = t
  · rw [same]; exact own
  · rw [others u same]

theorem Capped.setTimer (capped : Capped k) (t : Tid) (active : Bool) :
    Capped (k.setSched (k.sched.setTimer t active)) :=
  capped.of_sched (same_priority (t := t) (fun u other => by simp [other]) (by simp))

theorem Capped.setError (capped : Capped k) (t : Tid) (err : Err) : Capped (k.setError t err) :=
  capped.congr (fun _ => rfl) fun _ => ⟨rfl, rfl⟩

section
variable (capped : Capped k) (good : Good priorityMax k) (limit : priorityMax ≤ 256)
include capped good limit

section
variable (current : k.sched.current = some c) (awake : (k.sched.thread c).stat.suspended = false) (clear : k.sched.fault = none)
include current awake clear

theorem Capped.takeWait (fuel : Nat) (m : Mid) {owner : Tid} (timeout : Int) (suspendFlag : SuspendFlag) :
    let k' := (takeWait priorityMax fuel k c m owner timeout suspendFlag).2
    k'.sched.fault = some .unfinished ∨ Capped k' := by
  rcases good.sane.running current awake with running | closed
  case inr => rw [takeWait_close closed current]; exact .inr capped
  obtain ⟨ok, sane, parked⟩ := good.sane.park limit current running (q := .mutex m) rfl (by simp) true suspendFlag
  have good₁ := (good.of_sched sane parked.rest.fault).setPendingObject c (some m)
  have capped₁ : Capped ((parkIn priorityMax k (.mutex m) c true suspendFlag).setPendingObject c (some m)) :=
    capped.congr (same_priority parked.others parked.priority) fun _ => ⟨rfl, rfl⟩
  have clear₁ : (parkIn priorityMax k (.mutex m) c true suspendFlag).sched.fault = none := parked.rest.fault.trans clear
  have timed : ∀ k₂ : System, k₂.sched.fault = some .unfinished ∨ Capped k₂ →
      let k₃ := if timeout > 0 then k₂.setSched (k₂.sched.setTimer c true) else k₂
      k₃.sched.fault = some .unfinished ∨ Capped k₃ := by
    intro k₂ result
    dsimp only
    split
    · exact result.imp id fun capped₂ => capped₂.setTimer c true
    · exact result
  unfold Kernel.takeWait
  simp only [ok, ne_eq, not_true_eq_false, if_false]
  refine timed _ ?_
  split
  · split
    case isTrue lower =>
      -- a boost raises the owner above where the ceilings already hold it
      have recorded := capped₁.setPriority m (k.currentPriority c)
      refine (good₁.sane.setPriority m _).update_capped limit (good.sane.settled.bound c) clear₁
        (good₁.owned.setPriority m _) (fun m' u owns _ => recorded m' u owns) (fun m' owns => ?_) fuel .uninterruptible
      exact Nat.le_of_lt (Nat.lt_of_lt_of_le lower (recorded m' owner owns))
    case isFalse => exact .inr (capped₁.setPriority m _)
  · exact .inr capped₁

theorem Capped.take (fuel : Nat) (m : Mid) (timeout : Int) (suspendFlag : SuspendFlag) :
    let k' := (rtMutexTake priorityMax fuel k c m timeout suspendFlag).2
    k'.sched.fault = some .unfinished ∨ Capped k' := by
  have start := good.setError c .ok
  have capped' := capped.setError c .ok
  intro k'
  cases owner : (k.mutex m).owner with
  | none =>
    simp only [k', rtMutexTake_free owner]
    exact capped'.takeFree start limit awake owner clear fuel suspendFlag
  | some o =>
    by_cases own : o = c
    · subst own
      refine .inr ?_
      by_cases room : (k.mutex m).hold < rtMutexHoldMax
      · simp only [k', rtMutexTake_again owner room]
        refine capped'.congr (fun _ => rfl) fun m' => ?_
        by_cases here : m' = m
        · subst here; simpa using ⟨rfl, rfl⟩
        · simp [here]
      · simp only [k', rtMutexTake_full owner room]
        exact capped'
    · by_cases now : timeout = 0
      · simp only [k', rtMutexTake_refused owner own now]
        exact .inr (capped'.setError c .timeout)
      · simp only [k', rtMutexTake_wait owner own now]
        exact capped'.takeWait start limit current awake clear fuel m timeout suspendFlag

end

theorem Capped.check (clear : k.sched.fault = none) (fuel : Nat) (c : Tid) (m : Mid) :
    let k' := (takeCheck priorityMax fuel k c m).2
    k'.sched.fault = some .unfinished ∨ Capped k' := by
  unfold takeCheck
  split
  · exact .inr capped
  · exact capped.leave good limit clear fuel m c

theorem Capped.ceiling (clear : k.sched.fault = none) (fuel : Nat) (m : Mid) (p : Nat) :
    let k' := rtMutexSetprioceiling priorityMax fuel k m p
    k'.sched.fault = some .unfinished ∨ Capped k' := by
  have good₁ := good.setMutex m { k.mutex m with ceilingPriority := p } rfl rfl
  unfold rtMutexSetprioceiling
  dsimp only
  generalize start : k.setMutex m { k.mutex m with ceilingPriority := p } = k₁ at good₁
  have owner₁ : ∀ m', (k₁.mutex m').owner = (k.mutex m').owner := by
    intro m'
    rw [← start]
    by_cases here : m' = m
    · subst here; simp
    · simp [here]
  have ceiling₁ : ∀ m', m' ≠ m → (k₁.mutex m').ceilingPriority = (k.mutex m').ceilingPriority := fun m' here => by
    rw [← start]
    simp [here]
  have priority₁ : ∀ u, k₁.currentPriority u = k.currentPriority u := fun u => by rw [← start]; rfl
  have clear₁ : k₁.sched.fault = none := by rw [← start]; exact clear
  -- whoever owns another mutex is within its ceiling as before
  have others : ∀ m' u, (k₁.mutex m').owner = some u → (k.mutex m).owner ≠ some u →
      k₁.currentPriority u ≤ (k₁.mutex m').ceilingPriority := by
    intro m' u owns other
    rw [owner₁] at owns
    have here : m' ≠ m := by rintro rfl; exact other owns
    rw [ceiling₁ m' here, priority₁]
    exact capped m' u owns
  split
  case h_1 free =>
    rw [owner₁] at free
    exact .inr fun m' u owns => others m' u owns (by rw [free]; simp)
  case h_2 o owner =>
    rw [owner₁] at owner
    have others' : ∀ m' u, (k₁.mutex m').owner = some u → u ≠ o → k₁.currentPriority u ≤ (k₁.mutex m').ceilingPriority :=
      fun m' u owns other => others m' u owns (by rw [owner]; exact fun same => other (Option.some.inj same).symm)
    split
    case isTrue => exact good₁.sane.owed_capped limit clear₁ good₁.owned others' fuel .uninterruptible
    case isFalse same =>
      exact .inr (assigned (k := k₁) (fun _ _ => rfl) (not_not.mp same).symm (fun _ => ⟨rfl, rfl⟩) others'
        fun m' owns => good₁.owned.owed_le owns)

end

/-! ## Ceasing to be one -/

theorem Good.lowered_capped (good : Good priorityMax k) (limit : priorityMax ≤ 256) (owner : (k.mutex m).owner = some c)
    (capped : Capped k) :
    let k' := lowered priorityMax k c m
    (∀ u, u ≠ c → k'.currentPriority u = k.currentPriority u) ∧
      ∀ m', m' ≠ m → ∀ u, (k'.mutex m').owner = some u → k'.currentPriority u ≤ (k'.mutex m').ceilingPriority := by
  have start : Sane priorityMax (freed k c m) := good.sane.congr rfl
  obtain ⟨taken, link⟩ := good.owned.freed owner
  have other : ∀ m', m' ≠ m → (freed k c m).mutex m' = k.mutex m' := fun m' here => by
    rw [freed_mutex, Function.update_of_ne here]
  unfold lowered
  split
  case isFalse =>
    refine ⟨fun _ _ => rfl, fun m' here u owns => ?_⟩
    rw [other m' here] at owns ⊢
    exact capped m' u owns
  case isTrue =>
    obtain ⟨-, -, only, mutex, priority⟩ := start.raised limit c (start.owed_lt c)
    refine ⟨fun u apart => by rw [System.currentPriority, only.others u apart]; rfl, fun m' here u owns => ?_⟩
    rw [mutex] at owns ⊢
    by_cases same : u = c
    · subst same
      rw [priority]
      have member : m' ∈ ((freed k u m).ipc u).takenObjectList := (taken.linked m' u).mpr ((link m' here).trans owns)
      exact Nat.le_trans (threadGetMutexPriority_le_demand _ u member) (Mutex.demand_le_ceiling _)
    · rw [System.currentPriority, only.others u same]
      rw [other m' here] at owns ⊢
      exact capped m' u owns

theorem Capped.release (capped : Capped k) (good : Good priorityMax k) (limit : priorityMax ≤ 256)
    (awake : (k.sched.thread c).stat.suspended = false) (m : Mid)
    (suits : (k.mutex m).owner = some c → holdDown (k.mutex m).hold = 0 → ∀ next rest, k.waiting m = next :: rest →
      k.currentPriority next ≤ (k.mutex m).ceilingPriority) :
    Capped (rtMutexRelease priorityMax k c m).2.2 := by
  by_cases owner : (k.mutex m).owner = some c
  case neg => rw [rtMutexRelease_foreign owner]; exact capped.setError c .error
  by_cases last : holdDown (k.mutex m).hold = 0
  case neg =>
    rw [rtMutexRelease_nested owner last]
    refine capped.congr (fun _ => rfl) fun m' => ?_
    by_cases here : m' = m
    · subst here; simp
    · simp [here]
  rw [rtMutexRelease_last good.sane limit owner ((good.owned.owner m).trans owner) last]
  obtain ⟨sane, propagated, list⟩ := good.sane.lowered limit c m
  obtain ⟨priority, within⟩ := good.lowered_capped limit owner capped
  generalize lowered priorityMax k c m = k₁ at *
  have ceiling₁ : (k₁.mutex m).ceilingPriority = (k.mutex m).ceilingPriority := by
    rw [propagated.ceiling, freed_mutex, Function.update_self]
  have unlinked₁ : (k₁.mutex m).takenList = none := by
    rw [propagated.takenList, freed_mutex, Function.update_self]
  cases waiting : k.waiting m with
  | nil =>
    dsimp only
    intro m' u owns
    by_cases here : m' = m
    · subst here; simp at owns
    · simp only [System.setMutex_mutex, Function.update_of_ne here] at owns ⊢
      exact within m' here u owns
  | cons next rest =>
    dsimp only
    have first : next ∈ k₁.waiting m := by rw [list, waiting]; exact List.mem_cons_self
    have suspended := (sane.waiting_suspended first).2
    have other : next ≠ c := by
      rintro rfl
      rw [propagated.stat, freed_sched] at suspended
      rw [awake] at suspended
      cases suspended
    rw [handOver_eq suspended unlinked₁]
    obtain ⟨-, woken⟩ := (sane.congr rfl : Sane priorityMax (grant k₁ m next)).wakeUp limit suspended
    refine Capped.setPriority (fun m' u owns => ?_) m _
    show ((wakeUp priorityMax (grant k₁ m next) next).sched.thread u).currentPriority ≤ ((grant k₁ m next).mutex m').ceilingPriority
    rw [same_priority woken.others woken.priority, grant_mutex]
    change ((grant k₁ m next).mutex m').owner = some u at owns
    rw [grant_mutex] at owns
    by_cases here : m' = m
    · subst here
      rw [Function.update_self] at owns ⊢
      obtain rfl : next = u := Option.some.inj owns
      have within := suits owner last next rest waiting
      rw [← ceiling₁, ← priority next other] at within
      exact within
    · rw [Function.update_of_ne here] at owns ⊢
      exact within m' here u owns

end

/-! ## Thread calls -/

section
variable {priorityMax : Nat} {k : System} {t c : Tid}

section
variable (capped : Capped k)
include capped

theorem Capped.of_woken {sched : Sched} (woken : Woken t k.sched sched) : Capped (k.setSched sched) :=
  capped.of_sched (same_priority woken.others woken.priority)

theorem Capped.of_waits {sched : Sched} (same : SameWaits k.sched sched) : Capped (k.setSched sched) :=
  capped.of_sched same.priority

section
variable (good : Good priorityMax k)
include good

theorem Capped.resume (limit : priorityMax ≤ 256) (t : Tid) :
    Capped (k.setSched (rtThreadResume priorityMax k.sched t).2) := by
  by_cases suspended : (k.sched.thread t).stat.suspended = true
  · obtain ⟨-, woken⟩ := good.sane.wakeUp limit suspended
    rw [resumed_eq suspended]
    exact capped.of_woken woken
  · simp only [rtThreadResume, suspended]
    exact capped

theorem Capped.suspend (limit : priorityMax ≤ 256)
    (current : k.sched.current = some c) (suspendFlag : SuspendFlag) :
    Capped (k.setSched (rtThreadSuspendWithFlag priorityMax k.sched c suspendFlag).2) := by
  by_cases running : (k.sched.thread c).stat = .running
  · obtain ⟨-, -, only, -, -, priority, -⟩ := good.sane.settled.suspend limit current running suspendFlag
    exact capped.of_sched (same_priority only.others priority)
  · rw [suspend_refused current ⟨(good.sane.settled.busy c current).1, running⟩]
    exact capped

theorem Capped.sleep (limit : priorityMax ≤ 256)
    (current : k.sched.current = some c) : Capped (rtThreadSleep priorityMax k c).2 := by
  have suspended := (capped.setError c .ok).suspend (good.setError c .ok) limit current .interruptible
  unfold rtThreadSleep
  dsimp only
  split
  · exact suspended.setTimer c true
  · exact suspended

theorem Capped.wait (limit : priorityMax ≤ 256)
    (current : k.sched.current = some c) (awake : (k.sched.thread c).stat.suspended = false) (o : Nat) (prio : Bool)
    (timeout : Int) (suspendFlag : SuspendFlag) : Capped (objectWait priorityMax k c o prio timeout suspendFlag).2 := by
  have start := good.setError c .intr
  unfold objectWait
  dsimp only
  rcases good.sane.running current awake with running | closed
  · obtain ⟨ok, -, parked⟩ := start.sane.park limit current running (q := .object o) rfl (by simp) prio suspendFlag
    have waits : Capped (parkIn priorityMax (k.setError c .intr) (.object o) c prio suspendFlag) :=
      (capped.setError c .intr).of_sched (same_priority parked.others parked.priority)
    rw [if_neg (not_not.mpr ok)]
    dsimp only
    split
    · exact waits.setTimer c true
    · exact waits
  · have refused : ipcListSuspend priorityMax (k.setError c .intr).sched (.object o) c prio suspendFlag =
        (.error, (k.setError c .intr).sched) := ipcListSuspend_close (k := k.setError c .intr) closed current _ _ _
    rw [refused]
    exact capped.setError c .intr

theorem Capped.defunct (closed : (k.sched.thread t).stat = .close)
    (unlinked : (k.sched.thread t).tlist = none) : Capped (k.setSched (rtThreadDefunctEnqueue k.sched t)) := by
  obtain ⟨-, thread, -⟩ := good.sane.settled.defunct closed unlinked
  exact capped.of_sched (same_priority (t := t) (fun u other => by rw [thread, Function.update_of_ne other])
    (by rw [thread, Function.update_self]))

theorem Capped.closed (limit : priorityMax ≤ 256)
    (live : (k.sched.thread t).stat ≠ .close) : Capped (k.setSched (closeThread priorityMax k.sched t)) := by
  obtain ⟨-, closed⟩ := good.closed limit live
  exact capped.of_sched (same_priority closed.others closed.priority)

theorem Capped.exit (limit : priorityMax ≤ 256)
    (live : (k.sched.thread t).stat ≠ .close) : Capped (threadExit priorityMax k t) := by
  obtain ⟨good', closed⟩ := good.closed limit live
  exact (capped.closed good limit live).defunct good' closed.stat closed.unlinked

theorem Capped.detach (limit : priorityMax ≤ 256)
    (clear : k.sched.fault = none) (fuel : Nat) (t : Tid) :
    let k' := rtThreadDetach priorityMax fuel k t
    k'.sched.fault = some .unfinished ∨ Capped k' := by
  by_cases live : (k.sched.thread t).stat = .close
  · rw [rtThreadDetach_closed live]; exact .inr capped
  obtain ⟨good', closed⟩ := good.closed limit live
  have capped' := capped.closed good limit live
  cases pending : (k.ipc t).pendingObject with
  | none =>
    rw [rtThreadDetach_clean live pending]
    exact .inr (capped'.defunct good' closed.stat closed.unlinked)
  | some m =>
    have quiet := Quiet.leave good'.sane limit fuel m t
    obtain ⟨stat, unlinked⟩ := quiet.unlinked closed.stat closed.unlinked
    rw [rtThreadDetach_drop live pending closed.unlinked]
    have good₁ := (quiet.good good').setPendingObject t none
    refine (capped'.leave good' limit (closed.rest.fault.trans clear) fuel m t).imp (fun unfinished => ?_) fun left => ?_
    · exact (good₁.sane.settled.defunct stat unlinked).2.2.2.fault.trans unfinished
    · exact Capped.defunct (k := (leaveMutex priorityMax fuel (k.setSched (closeThread priorityMax k.sched t)) m t).setPendingObject t none)
        (left.congr (fun _ => rfl) fun _ => ⟨rfl, rfl⟩) good₁ stat unlinked

end

end

theorem Good.tick_waits (good : Good priorityMax k) (limit : priorityMax ≤ 256) (current : k.sched.current = some c) :
    SameWaits k.sched (rtTickIncrease priorityMax k.sched c) := by
  unfold rtTickIncrease
  split
  · have marked := good.mark c { k.sched.thread c with
      remainingTick := (k.sched.thread c).initTick, yield := true } rfl rfl rfl rfl rfl rfl
    exact marked.2.trans (marked.1.sane.settled.schedule limit current).2.1
  · generalize countDown (k.sched.thread c).remainingTick = remaining
    exact (good.mark c { k.sched.thread c with remainingTick := remaining } rfl rfl rfl rfl rfl rfl).2

theorem Good.yield_waits (good : Good priorityMax k) (c : Tid) : SameWaits k.sched (rtThreadYield k.sched c) :=
  (good.mark c { k.sched.thread c with remainingTick := (k.sched.thread c).initTick, yield := true }
    rfl rfl rfl rfl rfl rfl).2

end

/-! ## Runs -/

/-- Each hand-over finds the next owner within the ceiling, and the user's own changes of priorities
respect the ceilings. A thread that has suspended itself releases nothing before it is switched out. -/
def CeilingKept (s : Machine) : Action → Prop
  | .release m => ∀ c, s.system.sched.current = some c → (s.system.sched.thread c).stat.suspended = false ∧
      ((s.system.mutex m).owner = some c → holdDown (s.system.mutex m).hold = 0 →
        ∀ next rest, s.system.waiting m = next :: rest →
          s.system.currentPriority next ≤ (s.system.mutex m).ceilingPriority)
  | .changePriority t p => ∀ m, (s.system.mutex m).owner = some t → p ≤ (s.system.mutex m).ceilingPriority
  | .resumeCheck _ => False
  | _ => True

section
variable {priorityMax : Nat} {idle : Tid} {fuel : Nat} {s s' : Machine} {action : Action}

theorem returnTake_system (k : System) (c : Tid) (m : Mid) (err : Err) : (s.returnTake k c m err).system = k := by
  unfold Machine.returnTake
  split <;> rfl

theorem Effect.capped (effect : Effect priorityMax idle fuel s action s') (limit : priorityMax ≤ 256)
    (sound : Sound priorityMax s) (kept : CeilingKept s action) (capped : Capped s.system) :
    s'.system.sched.fault = some .unfinished ∨ Capped s'.system := by
  have good := sound.good
  have waits : ∀ {sched : Sched}, SameWaits s.system.sched sched → Capped (s.system.setSched sched) :=
    fun same => capped.of_waits same
  cases effect with
  | start clear current ready => exact .inr (waits (good.sane.settled.start limit current ready).2.1)
  | startupBoot t clear current init
  | startup t c calls init => exact .inr (capped.of_woken (good.sane.settled.startup limit init).2.1)
  | takeReturn c m timeout suspendFlag err k calls may result =>
    have taken := capped.take good limit calls.current may.2.1 calls.clear fuel m timeout suspendFlag
    rw [result] at taken
    rw [returnTake_system]
    exact taken
  | takeWait c m timeout suspendFlag k calls may result =>
    have taken := capped.take good limit calls.current may.2.1 calls.clear fuel m timeout suspendFlag
    rw [result] at taken
    exact taken
  | release c m needSchedule k calls result | refused c m needSchedule err k calls result failed =>
    have released := capped.release good limit (kept c calls.current).1 m (kept c calls.current).2
    rw [result] at released
    exact .inr released
  | setprioceiling c m priority calls bound => exact capped.ceiling good limit calls.clear fuel m priority
  | waitReturn c o prio timeout suspendFlag err k calls may result | wait c o prio timeout suspendFlag k calls may result =>
    have waiting := capped.wait good limit calls.current may.2.1 o prio timeout suspendFlag
    rw [result] at waiting
    exact .inr waiting
  | wake c t err o runs link => exact .inr ((capped.setError t err).resume (good.setError t err) limit t)
  | sleep c err k calls may result =>
    have sleeping := capped.sleep good limit calls.current
    rw [result] at sleeping
    exact .inr sleeping
  | suspend c suspendFlag calls busy => exact .inr (capped.suspend good limit calls.current suspendFlag)
  | resume c t calls => exact .inr (capped.resume good limit t)
  | resumeCheck c t calls => exact kept.elim
  | yield c calls => exact .inr (waits (good.yield_waits c))
  | changePriority c t priority calls bound =>
    exact .inr (good.sane.raised_capped limit bound (fun m u owner _ => capped m u owner) kept)
  | detach c t calls other => exact capped.detach good limit calls.clear fuel t
  | exit c calls busy live => exact .inr (capped.exit good limit live)
  | enterCritical c calls | exitCritical c calls => exact .inr capped
  | takeSchedule c m runs here
  | schedule c runs here
  | sleepSchedule c runs here | preempt c runs => exact .inr (waits (good.sane.settled.schedule limit runs.current).2.1)
  | takeCheck c m runs here =>
    rw [returnTake_system]
    exact capped.check good limit runs.clear fuel c m
  | sleepMark c runs here => exact .inr (capped.setError c .intr)
  | sleepReturn c runs here =>
    refine .inr ?_
    show Capped (if _ then _ else _)
    split
    · exact capped.setError c .ok
    · exact capped
  | resumeRemove c t runs here | resumeInsert c t runs here => have := sound.whole c; rw [here] at this; exact this.elim
  | expire c t runs timer =>
    exact .inr ((capped.setError t .timeout).of_woken (k := s.system.setError t .timeout) (good.sane.expired limit timer).2)
  | tick c runs => exact .inr (waits (good.tick_waits limit runs.current))

theorem CeilingKept.whole {a : Action} (kept : CeilingKept s a) : a.whole = true := by
  cases a <;> first | rfl | exact kept.elim

end

/-- As long as no mutex is handed to a thread below its ceiling, every owner keeps within the ceilings
of its mutexes. -/
theorem ceiling_kept {priorityMax : Nat} (idle : Tid) (limit : priorityMax ≤ 256) (priority tick : Tid → Nat)
    (priorities : ∀ t, priority t < priorityMax) (actions : List Action) (s : Machine)
    (run : Reaches priorityMax idle CeilingKept (Machine.initial priority tick) actions s) :
    ∀ m t, (s.system.mutex m).owner = some t → (s.system.mutex m).ceilingPriority ≠ 0xff →
      s.system.currentPriority t ≤ (s.system.mutex m).ceilingPriority := by
  have both : Sound priorityMax s ∧ Capped s.system := by
    refine RtThread.Lib.Run.invariant (fun s => Sound priorityMax s ∧ Capped s.system) (fun s a s' inv step => ?_)
      ⟨initial_sound priorities, fun m t owner => by cases owner⟩ run
    obtain ⟨⟨fuel, done, finished⟩, kept⟩ := step
    have effect := perform_effect done
    exact ⟨effect.sound limit kept.whole inv.1, (effect.capped limit inv.1 kept inv.2).resolve_left finished⟩
  exact fun m t owner _ => both.2 m t owner

/-- A condition that can be checked along a run: each release that hands its mutex over finds the
first waiting thread within the ceiling. -/
def handsWithinCeiling (s : Machine) : Action → Bool
  | .release m =>
    s.system.sched.current.all fun c => !(s.system.sched.thread c).stat.suspended &&
      (s.system.waiting m).head?.all fun next => s.system.currentPriority next ≤ (s.system.mutex m).ceilingPriority
  | .changePriority _ _ => false
  | .resumeCheck _ => false
  | _ => true

theorem handsWithinCeiling_kept (s : Machine) (a : Action) (within : handsWithinCeiling s a = true) : CeilingKept s a := by
  cases a with
  | release m =>
    intro c current
    simp only [handsWithinCeiling, current, Option.all_some, Bool.and_eq_true, Bool.not_eq_true'] at within
    refine ⟨within.1, fun _ _ next rest waiting => ?_⟩
    have first := within.2
    rw [waiting] at first
    simpa using first
  | changePriority t p | resumeCheck t => cases within
  | _ => trivial

/-- Thread 1 takes mutex 0, whose ceiling is 5. -/
def ceilingTake : List Action :=
  [.startup 0, .startup 1, .start, .setprioceiling 0 5, .take 0 (-1) .uninterruptible, .startup 2, .proceed]

/-- Priorities 31 of the idle thread, 10 of thread 1 and `waiter` of thread 2. -/
def ceilingPriorities (waiter : Nat) (t : Tid) : Nat := if t = 0 then 31 else if t = 2 then waiter else 10

theorem ceilingPriorities_lt {waiter : Nat} (bound : waiter < 32) (t : Tid) : ceilingPriorities waiter t < 32 := by
  unfold ceilingPriorities
  split
  · decide
  · split
    · exact bound
    · decide

/-- Thread 2, above the ceiling, waits for the mutex and gets it. -/
def ceilingWithin : Option Machine :=
  execute 32 0 handsWithinCeiling 2 (Machine.initial (ceilingPriorities 4) fun _ => 5)
    (ceilingTake ++ [.take 0 (-1) .uninterruptible, .proceed, .release 0])

theorem ceilingWithin_some : ceilingWithin.isSome = true := by decide +kernel

theorem ceiling_kept_within : (ceilingWithin.get ceilingWithin_some).system.currentPriority 2 ≤
    ((ceilingWithin.get ceilingWithin_some).system.mutex 0).ceilingPriority :=
  ceiling_kept 0 (by decide) (ceilingPriorities 4) (fun _ => 5) (ceilingPriorities_lt (by decide)) _
    (ceilingWithin.get ceilingWithin_some) (reaches_get handsWithinCeiling_kept ceilingWithin_some) 0 2
    (by decide +kernel) (by decide +kernel)

/-- Thread 1 sleeps while thread 2, below the ceiling, waits for the mutex; then thread 1 releases it. -/
def ceilingBeyond : Option Machine :=
  execute 32 0 (fun _ a => a.whole) 2 (Machine.initial (ceilingPriorities 8) fun _ => 5)
    (ceilingTake ++ [.sleep, .proceed, .proceed, .take 0 (-1) .uninterruptible, .proceed, .expire 1, .preempt, .proceed,
      .release 0])

theorem ceilingBeyond_some : ceilingBeyond.isSome = true := by decide +kernel

theorem ceiling_missed : ∃ actions s,
    Reaches 32 0 (fun _ a => a.whole = true) (Machine.initial (ceilingPriorities 8) fun _ => 5) actions s ∧
      (s.system.mutex 0).owner = some 2 ∧ (s.system.mutex 0).ceilingPriority ≠ 0xff ∧
      ¬ s.system.currentPriority 2 ≤ (s.system.mutex 0).ceilingPriority :=
  ⟨_, ceilingBeyond.get ceilingBeyond_some, reaches_get (fun _ _ => id) ceilingBeyond_some, by decide +kernel,
    by decide +kernel, by decide +kernel⟩

end RtThread.Kernel
