import RtThread.Work.Items

/-! The flags of a work item and its timer agree with the list in which it is linked: what the calls keep, and the
calls that break it. -/

set_option autoImplicit false
namespace RtThread.Work
open Lib
open Timers (rtTickMax)

section
variable {k : Item} {ticks : UInt32}

section
variable (attached : k.timer.attached = k.submitting) (activated : k.timer.activated = true → k.submitting = true)
include attached activated

theorem Item.arm_eq (short : ticks < rtTickMax / 2) :
    k.arm ticks = some { k with submitting := true, timer := ⟨true, false, ticks⟩ } := by
  cases submitting : k.submitting with
  | true =>
    have attached : k.timer.attached = true := attached.trans submitting
    simp [Item.arm, submitting, ItemTimer.rtTimerStop, ItemTimer.rtTimerSetTime, attached, short]
  | false =>
    have attached : k.timer.attached = false := attached.trans submitting
    have stopped : k.timer.activated = false := by
      apply eq_false_of_ne_true
      intro running
      rw [activated running] at submitting
      cases submitting
    simp [Item.arm, submitting, ItemTimer.rtTimerInit, attached, stopped, short]

theorem Item.disarm_eq : k.disarm = some k.expired := by
  obtain ⟨pending, submitting, workqueue, timer, running, initTick⟩ := k
  cases attached
  cases submitting with
  | true => rfl
  | false =>
    have stopped : running = false := eq_false_of_ne_true fun active => Bool.noConfusion (activated active)
    subst stopped
    rfl

end

end

section
variable {I : Type} [DecidableEq I] {w w' : WorkQueue I} {e : WorkEvent I} {i j : I} {a : WorkAction I}

structure Sound (w : WorkQueue I) (i : I) : Prop where
  pending : (w.item i).pending = true ↔ i ∈ w.workList
  submitting : (w.item i).submitting = true ↔ i ∈ w.delayedList
  attached : (w.item i).timer.attached = (w.item i).submitting
  activated : (w.item i).timer.activated = true → (w.item i).submitting = true
  running : (w.item i).submitting = true →
    (w.item i).timer.activated = true ∨ i ∈ w.starting ∨ i ∈ w.checked ∨ w.handler.item = some i
  queue : (w.item i).submitting = true → (w.item i).workqueue = true
  handled : w.handler.item = some i → (w.item i).submitting = true

omit [DecidableEq I] in
theorem Sound.same (sound : Sound w j) (same : Same w w' j) : Sound w' j where
  pending := by rw [same.item, same.work]; exact sound.pending
  submitting := by rw [same.item, same.delayed]; exact sound.submitting
  attached := by rw [same.item]; exact sound.attached
  activated := by rw [same.item]; exact sound.activated
  running := by rw [same.item, same.starting, same.checked, same.handler]; exact sound.running
  queue := by rw [same.item]; exact sound.queue
  handled := by rw [same.item, same.handler]; exact sound.handled

omit [DecidableEq I] in
theorem Sound.resume (sound : Sound w i) : Sound w.resume i := sound.same (.resume (.refl w i))

/-- The calls that keep the items sound: an urgent call only moves what is in the work list, no undelayed
submission meets a delay that is under way, no cancellation falls between the expiry of a timer and the locked section
of its timeout function, and a timer is still wanted when its submission gets to start it. -/
def workAllows (w : WorkQueue I) : WorkAction I → Bool
  | .submit i ticks => ticks ≠ 0 || !(w.item i).submitting
  | .timerCheck i | .timerStart i => (w.item i).submitting
  | .cancel i => w.handler.item ≠ some i
  | .urgent i => i ∈ w.workList
  | _ => true

namespace Sound
variable {ticks : UInt32} (sound : Sound w i) (linked : w.Linked)
include sound linked

attribute [local simp] WorkQueue.set

theorem queued (handler : w.handler.item ≠ some i) (idle : (w.item i).submitting = false) (workqueue : Bool) :
    Sound (((w.listRemove i).workTail i).set i { w.item i with pending := true, workqueue }) i := by
  have gone := linked.removed i
  rw [List.mem_append, not_or] at gone
  refine ⟨?_, ?_, ?_, ?_, ?_, ?_, ?_⟩
  · simp [WorkQueue.workTail]
  · simpa [WorkQueue.workTail, idle] using gone.2
  · simpa using sound.attached
  · simpa using sound.activated
  · simp [idle]
  · simp [idle]
  · exact fun handled => absurd handled handler

omit sound in
theorem unlinked (handler : w.handler.item ≠ some i) (workqueue : Bool) :
    Sound ((w.listRemove i).set i { (w.item i).expired with pending := false, workqueue }) i := by
  have gone := linked.removed i
  rw [List.mem_append, not_or] at gone
  refine ⟨?_, ?_, ?_, ?_, ?_, ?_, ?_⟩
  · simpa using gone.1
  · simpa [Item.expired] using gone.2
  · simp [Item.expired]
  · simp [Item.expired]
  · simp [Item.expired]
  · simp [Item.expired]
  · exact fun handled => absurd handled handler

theorem submit (may : workAllows w (.submit i ticks) = true) (short : ticks < rtTickMax / 2) :
    ∃ w' e, rtWorkqueueSubmitWork w i ticks = some (w', e) ∧ e ≠ .failed ∧ Sound w' i := by
  unfold rtWorkqueueSubmitWork workqueueSubmitWork
  by_cases now : ticks = 0
  · have idle : (w.item i).submitting = false := by simpa [workAllows, now] using may
    have elsewhere : w.handler.item ≠ some i := by
      intro handled
      rw [sound.handled handled] at idle
      cases idle
    simp only [if_pos short, if_pos now]
    exact ⟨_, _, rfl, nofun, (sound.queued linked elsewhere idle true).resume⟩
  · have gone := linked.removed i
    rw [List.mem_append, not_or] at gone
    have armed := Item.arm_eq (k := { w.item i with pending := false }) sound.attached sound.activated short
    simp only [if_pos short, if_neg now, listRemove_item, armed, Option.map_some]
    refine ⟨_, _, rfl, nofun, ?_, ?_, ?_, ?_, ?_, ?_, ?_⟩
    · simpa [WorkQueue.delayedTail] using gone.1
    · simp [WorkQueue.delayedTail]
    · simp [WorkQueue.delayedTail]
    · simp [WorkQueue.delayedTail]
    · simp
    · simp [WorkQueue.delayedTail]
    · simp [WorkQueue.delayedTail]

theorem cancel (may : workAllows w (.cancel i) = true) :
    ∃ w' e, workqueueCancelWork w i = some (w', e) ∧ e ≠ .failed ∧ Sound w' i := by
  have disarmed := Item.disarm_eq (k := { w.item i with pending := false }) sound.attached sound.activated
  unfold workqueueCancelWork
  simp only [listRemove_item, disarmed, Option.map_some]
  refine ⟨_, _, rfl, ?_, unlinked linked (by simpa [workAllows] using may) false⟩
  split <;> exact nofun

theorem urgent (may : workAllows w (.urgent i) = true) : Sound (rtWorkqueueUrgentWork w i) i := by
  have queued : i ∈ w.workList := by simpa [workAllows] using may
  have other : i ∉ w.delayedList := linked.disjoint queued
  apply Sound.resume
  exact { sound with
    pending := by simpa [WorkQueue.listRemove] using sound.pending.mpr queued
    submitting := by simpa [WorkQueue.listRemove, List.erase_of_not_mem other] using sound.submitting }

omit linked

theorem timerCheck (may : workAllows w (.timerCheck i) = true) :
    ∃ w' e, rtTimerStartCheck w i = some (w', e) ∧ e ≠ .failed ∧ Sound w' i := by
  have attached : (w.item i).timer.attached = true := sound.attached.trans may
  refine ⟨_, _, if_pos attached, nofun, { sound with running := fun _ => ?_ }⟩
  exact .inr (.inr (.inl List.mem_cons_self))

theorem timerStart (may : workAllows w (.timerStart i) = true) : Sound (rtTimerStart w i) i := by
  have submitting : (w.item i).submitting = true := may
  refine ⟨?_, ?_, ?_, ?_, ?_, ?_, ?_⟩
  · simpa [rtTimerStart] using sound.pending
  · simpa [rtTimerStart] using sound.submitting
  · simpa [rtTimerStart] using sound.attached
  · simpa [rtTimerStart] using submitting
  · simp [rtTimerStart]
  · simpa [rtTimerStart] using sound.queue
  · simpa [rtTimerStart] using sound.handled

theorem expire (active : (w.item i).timer.activated = true) : Sound (softTimerExpire w i) i := by
  refine ⟨?_, ?_, ?_, ?_, ?_, ?_, ?_⟩
  · simpa [softTimerExpire] using sound.pending
  · simpa [softTimerExpire] using sound.submitting
  · simpa [softTimerExpire] using sound.attached
  · simp [softTimerExpire]
  · simp [softTimerExpire, Handler.item]
  · simpa [softTimerExpire] using sound.queue
  · simpa [softTimerExpire] using fun _ => sound.activated active

omit [DecidableEq I] in
theorem enter (called : w.handler = .called i) :
    (w.item i).workqueue = true ∧ Sound { w with handler := .found i } i := by
  have handled : w.handler.item = some i := by rw [called]; rfl
  refine ⟨sound.queue (sound.handled handled), { sound with running := fun _ => ?_, handled := fun _ => ?_ }⟩
  · exact .inr (.inr (.inr rfl))
  · exact sound.handled handled

include linked

theorem timeout (found : w.handler = .found i) :
    ∃ w' e, delayedWorkTimeoutHandler w i = some (w', e) ∧ e ≠ .failed ∧ Sound w' i := by
  have handled : w.handler.item = some i := by rw [found]; rfl
  have attached : (w.item i).timer.attached = true := sound.attached.trans (sound.handled handled)
  have gone := linked.removed i
  rw [List.mem_append, not_or] at gone
  unfold delayedWorkTimeoutHandler
  simp only [ItemTimer.rtTimerDetach, if_pos attached, Option.map_some]
  refine ⟨_, _, rfl, nofun, Sound.resume ?_⟩
  split
  · have pending : (w.item i).pending = false := by
      apply eq_false_of_ne_true
      intro pending
      exact linked.disjoint (sound.pending.mp pending) (sound.submitting.mp (sound.handled handled))
    refine ⟨?_, ?_, ?_, ?_, ?_, ?_, ?_⟩
    · simpa [pending] using gone.1
    · simpa using gone.2
    all_goals simp [Handler.item]
  · refine ⟨?_, ?_, ?_, ?_, ?_, ?_, ?_⟩
    · simp [WorkQueue.workTail]
    · simpa [WorkQueue.workTail] using gone.2
    all_goals simp [WorkQueue.workTail, Handler.item]

theorem take (head : w.workList.head? = some i) :
    (workqueueThreadEntry w).2 = .took i ∧ Sound (workqueueThreadEntry w).1 i := by
  obtain ⟨rest, list⟩ := List.head?_eq_some_iff.mp head
  have queued : i ∈ w.workList := List.mem_of_mem_head? head
  have idle : (w.item i).submitting = false := by
    apply eq_false_of_ne_true
    intro delayed
    exact linked.disjoint queued (sound.submitting.mp delayed)
  have gone := linked.removed i
  rw [List.mem_append, not_or] at gone
  unfold workqueueThreadEntry
  rw [list]
  refine ⟨rfl, ?_, ?_, ?_, ?_, ?_, ?_, ?_⟩
  · simpa using gone.1
  · simpa [idle] using gone.2
  · simpa using sound.attached
  · simpa using sound.activated
  · simp [idle]
  · simp [idle]
  · simpa using sound.handled

end Sound

def WorkAction.overlong : WorkAction I → Bool
  | .submit _ ticks => !decide (ticks < rtTickMax / 2)
  | _ => false

theorem workStep_own (linked : w.Linked) (sound : Sound w i) (may : workAllows w a = true) (own : a.item w = some i)
    (step : workStep w a = some (w', e)) : Sound w' i ∧ (e = .failed → a.overlong = true) := by
  cases a with
  | submit j ticks =>
    cases own
    by_cases short : ticks < rtTickMax / 2
    · obtain ⟨next, event, code, fine, kept⟩ := sound.submit linked may short
      rw [workStep, code] at step
      cases step
      exact ⟨kept, fun failed => absurd failed fine⟩
    · rw [workStep, rtWorkqueueSubmitWork, if_neg short] at step
      cases step
      exact ⟨sound, fun _ => by simpa [WorkAction.overlong] using short⟩
  | timerCheck j =>
    cases own
    obtain ⟨-, step⟩ := Option.ite_none_right_eq_some.mp step
    obtain ⟨next, event, code, fine, kept⟩ := sound.timerCheck may
    rw [code] at step
    cases step
    exact ⟨kept, fun failed => absurd failed fine⟩
  | timerStart j =>
    cases own
    obtain ⟨-, step⟩ := Option.ite_none_right_eq_some.mp step
    cases step
    exact ⟨sound.timerStart may, nofun⟩
  | cancel j =>
    cases own
    obtain ⟨next, event, code, fine, kept⟩ := sound.cancel linked may
    rw [workStep, code] at step
    cases step
    exact ⟨kept, fun failed => absurd failed fine⟩
  | urgent j =>
    cases own
    cases step
    exact ⟨sound.urgent linked may, nofun⟩
  | expire j =>
    cases own
    obtain ⟨active, step⟩ := Option.ite_none_right_eq_some.mp step
    cases step
    exact ⟨sound.expire active.2, nofun⟩
  | enter j =>
    cases own
    obtain ⟨called, step⟩ := Option.ite_none_right_eq_some.mp step
    obtain ⟨queue, kept⟩ := sound.enter called
    rw [if_pos queue] at step
    cases step
    exact ⟨kept, nofun⟩
  | timeout j =>
    cases own
    obtain ⟨found, step⟩ := Option.ite_none_right_eq_some.mp step
    obtain ⟨next, event, code, fine, kept⟩ := sound.timeout linked found
    rw [code] at step
    cases step
    exact ⟨kept, fun failed => absurd failed fine⟩
  | take =>
    obtain ⟨-, step⟩ := Option.ite_none_right_eq_some.mp step
    obtain ⟨took, kept⟩ := sound.take linked own
    have next := Option.some.inj step
    rw [next] at took kept
    refine ⟨kept, fun failed => ?_⟩
    rw [failed] at took
    cases took
  | done => cases own

theorem workStep_sound (linked : w.Linked) (sound : ∀ i, Sound w i) (may : workAllows w a = true)
    (step : workStep w a = some (w', e)) : (∀ i, Sound w' i) ∧ (e = .failed → a.overlong = true) := by
  constructor
  · intro i
    by_cases own : a.item w = some i
    · exact (workStep_own linked (sound i) may own step).1
    · exact (sound i).same (workStep_same step own)
  · intro failed
    cases about : a.item w with
    | some i => exact (workStep_own linked (sound i) may about step).2 failed
    | none =>
      -- a worker that finds no item, or is done with one
      subst failed
      cases a with
      | take =>
        obtain ⟨-, step⟩ := Option.ite_none_right_eq_some.mp step
        have empty : w.workList = [] := List.head?_eq_none_iff.mp about
        rw [workqueueThreadEntry, empty] at step
        cases step
      | done =>
        obtain ⟨-, step⟩ := Option.ite_none_right_eq_some.mp step
        cases step
      | _ => cases about

omit [DecidableEq I] in
theorem workInitial_sound (i : I) : Sound workInitial i := by
  constructor <;> simp [workInitial, Handler.item]

theorem workRuns_sound {labels : List (WorkAction I × WorkEvent I)}
    (run : Run (Performs (guarded workStep workAllows)) workInitial labels w) :
    (w.Linked ∧ ∀ i, Sound w i) ∧ ∀ label ∈ labels, label.2 = .failed → label.1.overlong = true := by
  induction run with
  | nil => exact ⟨⟨List.nodup_nil, workInitial_sound⟩, fun label inside => absurd inside List.not_mem_nil⟩
  | snoc _ taken ih =>
    obtain ⟨⟨linked, sound⟩, fine⟩ := ih
    obtain ⟨may, step⟩ := guarded_eq_some taken
    obtain ⟨kept, last⟩ := workStep_sound linked sound may step
    refine ⟨⟨workStep_linked linked step, kept⟩, fun label inside => ?_⟩
    rcases List.mem_append.mp inside with before | now
    · exact fine label before
    · rw [List.mem_singleton.mp now]
      exact last

/-- The submission of an item is before its `rt_timer_start`, or its timeout function before its locked section. -/
def WorkQueue.UnderWay (w : WorkQueue I) (i : I) : Prop :=
  i ∈ w.starting ∨ i ∈ w.checked ∨ w.handler.item = some i

structure WorkQueue.Consistent (w : WorkQueue I) : Prop where
  /-- each item is linked in at most one of the lists, and once -/
  linked : w.Linked
  pending : ∀ i, (w.item i).pending = true ↔ i ∈ w.workList
  submitting : ∀ i, (w.item i).submitting = true ↔
    i ∈ w.delayedList ∧ ((w.item i).timer.activated = true ∨ w.UnderWay i)
  running : ∀ i, (w.item i).timer.activated = true → i ∈ w.delayedList
  handled : ∀ i, w.handler.item = some i → (w.item i).workqueue = true

/-- In every run of calls that `workAllows`, flags, lists and timers agree, and no assertion fails but that of a
submission on the length of its delay. -/
theorem work_items (labels : List (WorkAction I × WorkEvent I)) (w : WorkQueue I)
    (run : Run (Performs (guarded workStep workAllows)) workInitial labels w) :
    w.Consistent ∧ ∀ label ∈ labels, label.2 = .failed → label.1.overlong = true := by
  obtain ⟨⟨linked, sound⟩, fine⟩ := workRuns_sound run
  refine ⟨⟨linked, fun i => (sound i).pending, fun i => ?_, fun i running => ?_, fun i handled => ?_⟩, fine⟩
  · constructor
    · exact fun delayed => ⟨(sound i).submitting.mp delayed, (sound i).running delayed⟩
    · exact fun waits => (sound i).submitting.mpr waits.1
  · exact (sound i).submitting.mp ((sound i).activated running)
  · exact (sound i).queue ((sound i).handled handled)

/-- A delayed item is submitted again while it waits and while its timeout function is called; another one is
cancelled, a third one runs. -/
def itemsDemo : List (WorkAction Nat) :=
  [.submit 0 10, .timerCheck 0, .timerStart 0, .submit 1 0, .submit 0 7, .take, .timerCheck 0, .timerStart 0,
    .submit 2 0, .urgent 2, .done, .expire 0, .enter 0, .submit 0 3, .timerCheck 0, .timerStart 0, .timeout 0,
    .cancel 2, .submit 1 4, .take]

theorem work_items_demo :
    let done := (drive (guarded workStep workAllows) workInitial itemsDemo).get (by decide)
    done.1.Consistent ∧ ∀ label ∈ done.2, label.2 = .failed → label.1.overlong = true :=
  work_items _ _ (drive_get (by decide))

/-- An item whose delay is under way is submitted without one, and executed; then its timer expires. -/
def itemsDangling : List (WorkAction Unit) :=
  [.submit () 10, .timerCheck (), .timerStart (), .submit () 0, .take, .done, .expire (), .enter ()]

theorem work_items_dangling :
    let done := (drive workStep workInitial itemsDangling).get (by decide)
    Run (Performs workStep) workInitial done.2 done.1 ∧ ¬done.1.Consistent ∧ (.enter (), .failed) ∈ done.2 := by
  refine ⟨drive_get (by decide), ?_, by decide⟩
  intro consistent
  exact absurd ((consistent.submitting ()).mp (by decide)).1 (by decide)

end

end RtThread.Work
