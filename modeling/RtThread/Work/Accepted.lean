import RtThread.Work.Items
import RtThread.Lib.Turns

/-! What becomes of an item that was submitted: it waits for its delay, is in the work list, or has been taken. -/

set_option autoImplicit false
namespace RtThread.Work
open Lib

section
variable {I : Type} {w w' : WorkQueue I}

structure WorkQueue.Awake (w : WorkQueue I) : Prop where
  current : w.worker ≠ .working → w.workCurrent = none
  suspended : w.worker = .suspended → w.workList = []

namespace WorkQueue.Awake

theorem resume (current : w.worker ≠ .working → w.workCurrent = none) : w.resume.Awake := by
  unfold WorkQueue.resume
  split
  case isTrue suspended => exact ⟨fun _ => suspended.1, nofun⟩
  case isFalse busy =>
    refine ⟨current, fun suspended => absurd ⟨current ?_, suspended⟩ busy⟩
    rw [suspended]
    exact nofun

theorem initial : (workInitial : WorkQueue I).Awake := ⟨fun _ => rfl, nofun⟩

variable [DecidableEq I]

theorem listRemove (awake : w.Awake) (i : I) : (w.listRemove i).Awake where
  current := awake.current
  suspended here := by
    have empty := awake.suspended here
    simp [WorkQueue.listRemove, empty]

end WorkQueue.Awake

end

section
variable {I : Type} [DecidableEq I] {w w' : WorkQueue I} {e : WorkEvent I} {a : WorkAction I} {x : I}

theorem workStep_awake (awake : w.Awake) (step : workStep w a = some (w', e)) : w'.Awake := by
  cases workStep_effect step with
  | failed => exact awake
  | submitNow | urgent => exact .resume awake.current
  | @submitLater i => exact { awake.listRemove i with }
  | timerCheck | timerStart | expire | enter => exact { awake with }
  | @cancel i _ _ code =>
    obtain ⟨k, -, result⟩ := Option.map_eq_some_iff.mp code
    cases result
    exact { awake.listRemove i with }
  | timeout _ code =>
    obtain ⟨-, -, removed, rfl, ⟨-, rfl⟩ | ⟨-, rfl⟩⟩ := delayedWorkTimeoutHandler_cases code
    · exact .resume awake.current
    · exact .resume awake.current
  | sleep looking empty =>
    refine ⟨fun _ => awake.current ?_, fun _ => empty⟩
    rw [looking]
    exact nofun
  | take => exact ⟨fun idle => absurd rfl idle, nofun⟩
  | done => exact ⟨fun _ => rfl, nofun⟩

/-- The delay of an item is under way: its timer runs, or its submission is about to start it, or it has expired and
its timeout function is called. -/
structure WorkQueue.Waits (w : WorkQueue I) (x : I) : Prop where
  linked : x ∈ w.delayedList
  attached : (w.item x).timer.attached = true
  queue : (w.item x).workqueue = true
  underWay : (w.item x).timer.activated = true ∨ x ∈ w.starting ∨ x ∈ w.checked ∨ w.handler.item = some x

def WorkQueue.Keeps (w : WorkQueue I) (x : I) : Prop := x ∈ w.workList ∨ w.Waits x

omit [DecidableEq I] in
theorem WorkQueue.Keeps.same (keeps : w.Keeps x) (same : Same w w' x) : w'.Keeps x := by
  rcases keeps with listed | waits
  · exact .inl (same.work.mpr listed)
  · right
    constructor
    · exact same.delayed.mpr waits.linked
    · rw [same.item]
      exact waits.attached
    · rw [same.item]
      exact waits.queue
    · rw [same.item, same.starting, same.checked, same.handler]
      exact waits.underWay

def WorkAction.asks (x : I) : WorkAction I → Bool
  | .submit i _ | .urgent i | .cancel i => i = x
  | _ => false

/-- The timeout function of the item does not get to its locked section while the item is executed. -/
def expiresIdle (x : I) (w : WorkQueue I) : WorkAction I → Bool
  | .timeout i => i ≠ x || w.workCurrent ≠ some x
  | _ => true

theorem Item.arm_attached {k next : Item} {ticks : UInt32} (armed : k.arm ticks = some next) :
    next.timer.attached = true := by
  unfold Item.arm at armed
  split at armed
  · obtain ⟨timer, stopped, rfl⟩ := Option.map_eq_some_iff.mp armed
    obtain ⟨old, -, timed⟩ := Option.bind_eq_some_iff.mp stopped
    obtain ⟨fits, same⟩ := Option.ite_none_right_eq_some.mp timed
    cases same
    exact fits.1
  · obtain ⟨timer, fresh, rfl⟩ := Option.map_eq_some_iff.mp armed
    obtain ⟨-, same⟩ := Option.ite_none_right_eq_some.mp fresh
    cases same
    rfl

theorem submitted_keeps {ticks : UInt32} (code : rtWorkqueueSubmitWork w x ticks = some (w', e)) : w'.Keeps x := by
  obtain ⟨-, -, rfl⟩ | ⟨-, -, k, armed, rfl⟩ := rtWorkqueueSubmitWork_cases code
  · left
    rw [resume_workList]
    simp [WorkQueue.set, WorkQueue.workTail]
  · right
    have attached := Item.arm_attached armed
    constructor
    · simp [WorkQueue.delayedTail]
    · simpa [WorkQueue.set, WorkQueue.delayedTail] using attached
    · simp [WorkQueue.set, WorkQueue.delayedTail]
    · simp

theorem workStep_keeps (keeps : w.Keeps x) (other : a.asks x = false) (may : expiresIdle x w a = true)
    (step : workStep w a = some (w', e)) : e = .took x ∨ w'.Keeps x := by
  by_cases own : a.item w = some x
  swap
  · exact .inr (keeps.same (workStep_same step own))
  cases workStep_effect step with
  | failed => exact .inr keeps
  | submitNow | submitLater | urgent | cancel =>
    cases own
    simp [WorkAction.asks] at other
  | timerCheck =>
    cases own
    right
    rcases keeps with listed | waits
    · exact .inl listed
    · exact .inr { waits with underWay := .inr (.inr (.inl List.mem_cons_self)) }
  | timerStart =>
    cases own
    right
    rcases keeps with listed | waits
    · exact .inl listed
    · right
      refine ⟨waits.linked, ?_, ?_, .inl ?_⟩
      · simpa [rtTimerStart, WorkQueue.set] using waits.attached
      · simpa [rtTimerStart, WorkQueue.set] using waits.queue
      · simp [rtTimerStart, WorkQueue.set]
  | expire =>
    cases own
    right
    rcases keeps with listed | waits
    · exact .inl listed
    · right
      refine ⟨waits.linked, ?_, ?_, .inr (.inr (.inr rfl))⟩
      · simpa [softTimerExpire, WorkQueue.set] using waits.attached
      · simpa [softTimerExpire, WorkQueue.set] using waits.queue
  | enter =>
    cases own
    right
    rcases keeps with listed | waits
    · exact .inl listed
    · exact .inr { waits with underWay := .inr (.inr (.inr rfl)) }
  | timeout _ code =>
    cases own
    obtain ⟨-, -, removed, -, ⟨executed, -⟩ | ⟨-, rfl⟩⟩ := delayedWorkTimeoutHandler_cases code
    · simp [expiresIdle, executed] at may
    · right
      left
      rw [resume_workList]
      simp [WorkQueue.set, WorkQueue.workTail]
  | sleep _ empty => simp [WorkAction.item, empty] at own
  | take _ list =>
    simp only [WorkAction.item, list, List.head?_cons, Option.some.injEq] at own
    exact .inl (congrArg WorkEvent.took own)
  | done => cases own

/-- The items that the worker takes in a run, and the items that are put in front of the others. -/
def taken : List (WorkAction I × WorkEvent I) → Nat :=
  List.countP fun label => match label.2 with
    | .took _ => true
    | _ => false

def urgents : List (WorkAction I × WorkEvent I) → Nat :=
  List.countP fun label => match label.1 with
    | .urgent _ => true
    | _ => false

def WorkAction.moves (x : I) : WorkAction I → Bool
  | .submit i _ | .urgent i | .cancel i | .timeout i => i = x
  | _ => false

/-- An item in the work list gets no further back than the urgent ones push it, and further to the front with every
item that is taken. -/
theorem workStep_advances (other : a.moves x = false) (step : workStep w a = some (w', e)) :
    e = .took x ∨ Advances x w.workList w'.workList (taken [(a, e)]) (urgents [(a, e)]) := by
  have stays := Advances.refl x w.workList
  have differ : ∀ i, a.moves i = true → x ≠ i := fun i moved same => by rw [← same, other] at moved; cases moved
  have left : ∀ i, a.moves i = true → Advances x w.workList (w.listRemove i).workList 0 0 :=
    fun i moved => Advances.leave (differ i moved) w.workList
  cases workStep_effect step with
  | failed => exact .inr fun inside => ⟨inside, Nat.le_add_right _ _⟩
  | submitNow i =>
    rw [resume_workList]
    exact .inr ((left i (by simp [WorkAction.moves])).trans (.join x i _))
  | @submitLater i => exact .inr (left i (by simp [WorkAction.moves]))
  | timerCheck | timerStart | expire | enter | done => exact .inr stays
  | @cancel i _ _ code =>
    obtain ⟨k, -, result⟩ := Option.map_eq_some_iff.mp code
    cases result
    right
    split <;> exact left i (by simp [WorkAction.moves])
  | urgent i =>
    right
    rw [rtWorkqueueUrgentWork, resume_workList]
    exact (left i (by simp [WorkAction.moves])).trans (.jump (differ i (by simp [WorkAction.moves])) _)
  | @timeout i _ _ code =>
    have left := left i (by simp [WorkAction.moves])
    right
    obtain ⟨-, -, removed, rfl, ⟨-, rfl⟩ | ⟨-, rfl⟩⟩ := delayedWorkTimeoutHandler_cases code
    · rw [resume_workList]
      exact left
    · rw [resume_workList]
      exact left.trans (.join x i _)
  | sleep => exact .inr stays
  | @take i rest _ list =>
    by_cases own : i = x
    · exact .inl (congrArg WorkEvent.took own)
    · right
      have shorter : (w.listRemove i).workList = rest := by simp [WorkQueue.listRemove, list]
      rw [WorkQueue.set, shorter, list]
      exact .serve (Ne.symm own) rest

variable {labels : List (WorkAction I × WorkEvent I)}

theorem workRuns_awake (awake : w.Awake) (run : Run (Performs workStep) w labels w') : w'.Awake :=
  run.invariant WorkQueue.Awake (fun _ _ _ awake step => workStep_awake awake step) awake

theorem workRuns_keeps (keeps : w.Keeps x) (run : Run (Performs (guarded workStep (expiresIdle x))) w labels w')
    (alone : ∀ label ∈ labels, label.1.asks x = false) :
    (∃ label ∈ labels, label.2 = .took x) ∨ w'.Keeps x := by
  induction run with
  | nil => exact .inr keeps
  | snoc _ taken ih =>
    obtain ⟨may, step⟩ := guarded_eq_some taken
    have before := ih fun label inside => alone label (List.mem_append_left _ inside)
    rcases before with ⟨label, inside, took⟩ | keeps
    · exact .inl ⟨label, List.mem_append_left _ inside, took⟩
    · have last := alone _ (List.mem_append_right _ List.mem_cons_self)
      rcases workStep_keeps keeps last may step with took | keeps
      · exact .inl ⟨_, List.mem_append_right _ List.mem_cons_self, took⟩
      · exact .inr keeps

theorem workRuns_advances (run : Run (Performs workStep) w labels w')
    (alone : ∀ label ∈ labels, label.1.moves x = false) :
    (∃ label ∈ labels, label.2 = .took x) ∨ Advances x w.workList w'.workList (taken labels) (urgents labels) := by
  induction run with
  | nil => exact .inr (.refl x _)
  | snoc _ step ih =>
    have before := ih fun label inside => alone label (List.mem_append_left _ inside)
    rcases before with ⟨label, inside, took⟩ | advances
    · exact .inl ⟨label, List.mem_append_left _ inside, took⟩
    · have last := alone _ (List.mem_append_right _ List.mem_cons_self)
      rcases workStep_advances last step with took | further
      · exact .inl ⟨_, List.mem_append_right _ List.mem_cons_self, took⟩
      · right
        rw [taken, urgents, List.countP_append, List.countP_append]
        exact advances.trans further

/-- An accepted submission is not lost where the item's timeout function finds it not executed: the delay is under
way, or the item is in the work list, or the worker has taken it. And while it is in the work list, the worker is
awake, and takes it before it has taken more items than were ahead of it or urgent since. -/
theorem accepted_kept {before after : List (WorkAction I × WorkEvent I)} {w accepted w' : WorkQueue I} {x : I}
    {ticks : UInt32} {e : WorkEvent I}
    (reached : Run (Performs workStep) workInitial before w)
    (code : rtWorkqueueSubmitWork w x ticks = some (accepted, e))
    (run : Run (Performs (guarded workStep (expiresIdle x))) accepted after w')
    (alone : ∀ label ∈ after, label.1.asks x = false) :
    (∃ label ∈ after, label.2 = .took x) ∨ w'.Waits x ∨
      x ∈ w'.workList ∧ w'.worker ≠ .suspended ∧ ∀ labels w'', Run (Performs workStep) w' labels w'' →
        (∀ label ∈ labels, label.1.moves x = false) → w'.workList.idxOf x + urgents labels < taken labels →
        ∃ label ∈ labels, label.2 = .took x := by
  rcases workRuns_keeps (submitted_keeps code) run alone with took | listed | waits
  · exact .inl took
  · have submits : Performs workStep w (.submit x ticks, e) accepted := congrArg (asserted w) code
    have whole := (Run.snoc reached submits).trans (run.mono fun _ _ _ step => (guarded_eq_some step).2)
    have awake := workRuns_awake .initial whole
    refine .inr (.inr ⟨listed, fun suspended => ?_, fun labels w'' more still many => ?_⟩)
    · rw [awake.suspended suspended] at listed
      cases listed
    · rcases workRuns_advances more still with took | advances
      · exact took
      · have place := (advances listed).2
        omega
  · exact .inr (.inl waits)

/-- An item that submits itself again, with a delay that is over when its function has returned. -/
def acceptedDemo : List (WorkAction Bool) :=
  [.timerCheck true, .timerStart true, .submit false 0, .done, .expire true, .enter true, .timeout true, .urgent false]

theorem accepted_kept_demo :
    let first := (drive workStep workInitial [.submit true 0, .take]).get (by decide)
    let again := (rtWorkqueueSubmitWork first.1 true 5).get (by decide)
    let done := (drive (guarded workStep (expiresIdle true)) again.1 acceptedDemo).get (by decide)
    (∃ label ∈ done.2, label.2 = .took true) ∨ done.1.Waits true ∨
      true ∈ done.1.workList ∧ done.1.worker ≠ .suspended ∧ ∀ labels w'', Run (Performs workStep) done.1 labels w'' →
        (∀ label ∈ labels, label.1.moves true = false) → done.1.workList.idxOf true + urgents labels < taken labels →
        ∃ label ∈ labels, label.2 = .took true := by
  intro first again done
  have reached : Run (Performs workStep) workInitial first.2 first.1 := drive_get (by decide)
  have code : rtWorkqueueSubmitWork first.1 true 5 = some (again.1, again.2) := rfl
  have run : Run (Performs (guarded workStep (expiresIdle true))) again.1 done.2 done.1 := drive_get (by decide)
  exact accepted_kept reached code run (by decide)

def acceptedLost : List (WorkAction Unit) :=
  [.submit () 0, .take, .submit () 5, .timerCheck (), .timerStart (), .expire (), .enter (), .timeout (), .done, .take]

theorem accepted_lost :
    let done := (drive workStep workInitial acceptedLost).get (by decide)
    Run (Performs workStep) workInitial done.2 done.1 ∧ (.timerStart (), .ok) ∈ done.2 ∧
      (.timeout (), .quiet) ∈ done.2 ∧ done.2.count (.take, .took ()) = 1 ∧ ¬done.1.Keeps () ∧
      done.1.worker = .suspended := by
  refine ⟨drive_get (by decide), by decide, by decide, by decide, ?_, by decide⟩
  rintro (listed | waits)
  · exact absurd listed (by decide)
  · exact absurd waits.linked (by decide)

end

end RtThread.Work
