import RtThread.Kernel.Calls

/-! The ready queue in every state the kernel reaches. -/

set_option autoImplicit false

namespace RtThread.Kernel

open RtThread.Lib

section
variable {priorityMax : Nat} {idle : Tid} {s s' : Machine} {actions : List Action}

theorem execute_reaches {allowed : Machine → Action → Prop} {check : Machine → Action → Bool}
    (meets : ∀ s a, check s a = true → allowed s a) {fuel : Nat} :
    ∀ {actions : List Action} {s s' : Machine}, execute priorityMax idle check fuel s actions = some s' →
      Reaches priorityMax idle allowed s actions s' := by
  intro actions
  induction actions with
  | nil =>
    intro s s' done
    cases done
    exact .nil s
  | cons action rest ih =>
    intro s s' done
    unfold execute at done
    split at done
    case isFalse => cases done
    case isTrue checked =>
      split at done
      case h_2 => cases done
      case h_1 mid stepped =>
        split at done
        case isTrue => cases done
        case isFalse finished =>
          have first : Reaches priorityMax idle allowed s [action] mid :=
            .snoc (.nil s) ⟨⟨fuel, stepped, finished⟩, meets s action checked⟩
          exact Run.trans first (ih done)

theorem reaches_get {allowed : Machine → Action → Prop} {check : Machine → Action → Bool}
    (meets : ∀ s a, check s a = true → allowed s a) {fuel : Nat}
    (done : (execute priorityMax idle check fuel s actions).isSome = true) :
    Reaches priorityMax idle allowed s actions ((execute priorityMax idle check fuel s actions).get done) :=
  execute_reaches meets (Option.some_get done).symm

theorem initial_sound {priority tick : Tid → Nat} (priorities : ∀ t, priority t < priorityMax) :
    Sound priorityMax (Machine.initial priority tick) where
  good :=
    { sane :=
        { settled :=
            { linked := fun q t => by simp [Machine.initial, Sched.initial, Thread.initial]
              nodup := fun q => List.nodup_nil
              fits := fun t _ => ⟨rfl, by simp [Machine.initial, Sched.initial, Thread.initial],
                by simp [Machine.initial, Sched.initial, Thread.initial]⟩
              loose := fun t loose => loose.elim
              masks := fun t started => by simp [Machine.initial, Sched.initial, Thread.initial, Stat.started] at started
              bound := priorities
              marks := (ReadyBitmap.marks_empty priorityMax).congr priorityMax fun p => by
                simp [Machine.initial, Sched.initial]
              busy := fun c current => by cases current }
          init := priorities }
      owned :=
        { linked := fun m t => by simp [Machine.initial, Mutex.initial]
          nodup := fun t => List.nodup_nil
          owner := fun m => rfl }
      mild := .inl rfl }
  whole _ := trivial

theorem Reaches.sound {allowed : Machine → Action → Prop} (run : Reaches priorityMax idle allowed s actions s')
    (whole : ∀ s a, allowed s a → a.whole = true) (limit : priorityMax ≤ 256) (start : Sound priorityMax s) :
    Sound priorityMax s' := by
  refine Run.invariant (Sound priorityMax) (fun s a s' sound step => ?_) start run
  obtain ⟨⟨fuel, done, -⟩, condition⟩ := step
  exact (perform_effect done).sound limit (whole s a condition) sound

theorem Reaches.fault {allowed : Machine → Action → Prop} (run : Reaches priorityMax idle allowed s actions s')
    (whole : ∀ s a, allowed s a → a.whole = true) (limit : priorityMax ≤ 256) (start : Sound priorityMax s)
    (clear : s.system.sched.fault = none) :
    s'.system.sched.fault = none ∨ s'.system.sched.fault = some .nullOwner := by
  have sound := Reaches.sound run whole limit start
  have finished : s'.system.sched.fault ≠ some .unfinished := by
    cases run with
    | nil => rw [clear]; simp
    | snoc _ step => obtain ⟨⟨fuel, -, finished⟩, -⟩ := step; exact finished
  rcases sound.good.mild with none | owner | unfinished
  · exact .inl none
  · exact .inr owner
  · exact absurd unfinished finished

end

structure ReadyQueue (priorityMax : Nat) (k : Sched) : Prop where
  marks : k.bitmap.Marks priorityMax fun p => k.queue (.ready p) ≠ []
  ready : ∀ p, ∀ t ∈ k.queue (.ready p), (k.thread t).stat = .ready ∧ (k.thread t).currentPriority = p
  running : ∀ c, k.current = some c → ∀ p, c ∉ k.queue (.ready p)

theorem Settled.readyQueue {priorityMax : Nat} {k : Sched} (settled : Settled priorityMax k) :
    ReadyQueue priorityMax k where
  marks := settled.marks
  ready _ t member := (settled.toHeld.ready ((settled.linked _ t).mp member)).2
  running c current _ member :=
    (settled.busy c current).1 (settled.toHeld.ready ((settled.linked _ c).mp member)).2.1

theorem Settled.highest {priorityMax : Nat} {k : Sched} {c : Tid} (settled : Settled priorityMax k)
    (limit : priorityMax ≤ 256) (current : k.current = some c) (unlocked : k.lockNest = 0) :
    let k' := rtSchedule priorityMax k
    ∃ next, k'.current = some next ∧
      ∀ t, (k'.thread t).stat = .ready → (k'.thread next).currentPriority ≤ (k'.thread t).currentPriority := by
  intro k'
  obtain ⟨-, -, -, -, effect⟩ := settled.schedule limit current
  rcases effect with ⟨still, locked | nobody⟩ | ⟨-, next, scheduled⟩
  · exact absurd unlocked locked
  · have still : k' = k := still
    rw [still]
    exact ⟨c, current, fun t ready => absurd ready (nobody t)⟩
  · exact ⟨next, scheduled.current, scheduled.highest⟩

/-- The ready queue is right in every state reached by whole calls, expiries, ticks and dispatches in
any order, for every layout of the bitmap; and `rt_schedule` chooses a thread of the highest priority. -/
theorem readyQueue_reached {priorityMax : Nat} (idle : Tid) (limit : priorityMax ≤ 256) (priority tick : Tid → Nat)
    (priorities : ∀ t, priority t < priorityMax) (actions : List Action) (s : Machine)
    (run : Reaches priorityMax idle (fun _ a => a.whole = true) (Machine.initial priority tick) actions s) :
    ReadyQueue priorityMax s.system.sched ∧
      (s.system.sched.fault = none ∨ s.system.sched.fault = some .nullOwner) ∧
      ∀ c, s.system.sched.current = some c → s.system.sched.lockNest = 0 →
        let k := rtSchedule priorityMax s.system.sched
        ReadyQueue priorityMax k ∧ ∃ next, k.current = some next ∧
          ∀ t, (k.thread t).stat = .ready → (k.thread next).currentPriority ≤ (k.thread t).currentPriority := by
  have start : Sound priorityMax (Machine.initial priority tick) := initial_sound priorities
  have settled := (Reaches.sound run (fun _ _ => id) limit start).good.sane.settled
  refine ⟨settled.readyQueue, Reaches.fault run (fun _ _ => id) limit start rfl, fun c current unlocked => ?_⟩
  exact ⟨(settled.schedule limit current).1.readyQueue, settled.highest limit current unlocked⟩

/-- In every such state the lists, the states of the threads, their timers and the owners of the mutexes agree. -/
theorem good_reached {priorityMax : Nat} (idle : Tid) (limit : priorityMax ≤ 256) (priority tick : Tid → Nat)
    (priorities : ∀ t, priority t < priorityMax) (actions : List Action) (s : Machine)
    (run : Reaches priorityMax idle (fun _ a => a.whole = true) (Machine.initial priority tick) actions s) :
    Good priorityMax s.system :=
  (Reaches.sound run (fun _ _ => id) limit (initial_sound priorities)).good

/-- Thread 3 owns a mutex, thread 4 waits for it ahead of everyone, thread 0 is the idle thread. -/
def contention : List Action :=
  [.startup 0, .startup 3, .start, .take 0 (-1) .uninterruptible, .startup 4, .proceed, .take 0 5 .uninterruptible,
    .proceed, .preempt, .tick]

def contentionPriority (t : Tid) : Nat := if t = 0 then 31 else if t = 4 then 2 else 7

def contended : Option Machine :=
  execute 32 0 (fun _ a => a.whole) 2 (Machine.initial contentionPriority fun _ => 5) contention

theorem contended_some : contended.isSome = true := by decide +kernel

theorem contentionPriority_lt (t : Tid) : contentionPriority t < 32 := by
  unfold contentionPriority
  split
  · decide
  · split <;> decide

theorem readyQueue_reached_contended : ReadyQueue 32 (contended.get contended_some).system.sched :=
  (readyQueue_reached 0 (by decide) contentionPriority (fun _ => 5) contentionPriority_lt contention
    (contended.get contended_some) (reaches_get (fun _ _ => id) contended_some)).1

theorem good_reached_contended : Good 32 (contended.get contended_some).system :=
  good_reached 0 (by decide) contentionPriority (fun _ => 5) contentionPriority_lt contention _
    (reaches_get (fun _ _ => id) contended_some)

end RtThread.Kernel
