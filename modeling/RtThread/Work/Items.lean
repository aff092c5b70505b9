import RtThread.Work.Queue

/-! The state of a work item: in which list it is linked, what its flags say, and what its timer is up to. -/

set_option autoImplicit false
namespace RtThread.Work
open Lib

section
variable {I : Type} {w w' w'' : WorkQueue I} {j : I}

@[simp] theorem resume_item (w : WorkQueue I) : w.resume.item = w.item := by
  unfold WorkQueue.resume
  split <;> rfl

@[simp] theorem resume_workList (w : WorkQueue I) : w.resume.workList = w.workList := by
  unfold WorkQueue.resume
  split <;> rfl

@[simp] theorem resume_delayedList (w : WorkQueue I) : w.resume.delayedList = w.delayedList := by
  unfold WorkQueue.resume
  split <;> rfl

@[simp] theorem resume_handler (w : WorkQueue I) : w.resume.handler = w.handler := by
  unfold WorkQueue.resume
  split <;> rfl

@[simp] theorem resume_starting (w : WorkQueue I) : w.resume.starting = w.starting := by
  unfold WorkQueue.resume
  split <;> rfl

@[simp] theorem resume_checked (w : WorkQueue I) : w.resume.checked = w.checked := by
  unfold WorkQueue.resume
  split <;> rfl

@[simp] theorem resume_workCurrent (w : WorkQueue I) : w.resume.workCurrent = w.workCurrent := by
  unfold WorkQueue.resume
  split <;> rfl

structure Same (w w' : WorkQueue I) (j : I) : Prop where
  item : w'.item j = w.item j
  work : j ∈ w'.workList ↔ j ∈ w.workList
  delayed : j ∈ w'.delayedList ↔ j ∈ w.delayedList
  starting : j ∈ w'.starting ↔ j ∈ w.starting
  checked : j ∈ w'.checked ↔ j ∈ w.checked
  handler : w'.handler.item = some j ↔ w.handler.item = some j

namespace Same

theorem refl (w : WorkQueue I) (j : I) : Same w w j := ⟨rfl, .rfl, .rfl, .rfl, .rfl, .rfl⟩

theorem resume (same : Same w w' j) : Same w w'.resume j where
  item := by rw [resume_item]; exact same.item
  work := by rw [resume_workList]; exact same.work
  delayed := by rw [resume_delayedList]; exact same.delayed
  starting := by rw [resume_starting]; exact same.starting
  checked := by rw [resume_checked]; exact same.checked
  handler := by rw [resume_handler]; exact same.handler

end Same

end

section
variable {I : Type} [DecidableEq I] {w w' : WorkQueue I} {e : WorkEvent I} {i j : I} {k : Item}

@[simp] theorem listRemove_item (w : WorkQueue I) (i : I) : (w.listRemove i).item = w.item := rfl

@[simp] theorem listRemove_handler (w : WorkQueue I) (i : I) : (w.listRemove i).handler = w.handler := rfl

namespace Same

theorem set (same : Same w w' j) (other : j ≠ i) (k : Item) : Same w (w'.set i k) j :=
  { same with item := (Function.update_of_ne other ..).trans same.item }

theorem listRemove (w : WorkQueue I) (other : j ≠ i) : Same w (w.listRemove i) j :=
  { refl w j with work := List.mem_erase_of_ne other, delayed := List.mem_erase_of_ne other }

omit [DecidableEq I] in
theorem workTail (same : Same w w' j) (other : j ≠ i) : Same w (w'.workTail i) j :=
  { same with work := by simpa [WorkQueue.workTail, other] using same.work }

omit [DecidableEq I] in
theorem delayedTail (same : Same w w' j) (other : j ≠ i) : Same w (w'.delayedTail i) j :=
  { same with delayed := by simpa [WorkQueue.delayedTail, other] using same.delayed }

end Same

def WorkAction.item (w : WorkQueue I) : WorkAction I → Option I
  | .submit i _ | .timerCheck i | .timerStart i | .cancel i | .urgent i | .expire i | .enter i | .timeout i => some i
  | .take => w.workList.head?
  | .done => none

omit [DecidableEq I] in
theorem asserted_eq_some {result : Option (WorkQueue I × WorkEvent I)} (step : asserted w result = some (w', e)) :
    result = some (w', e) ∨ result = none ∧ w' = w ∧ e = .failed := by
  cases result with
  | none =>
    cases step
    exact .inr ⟨rfl, rfl, rfl⟩
  | some result =>
    cases step
    exact .inl rfl

/-- What a submission can do: the item goes to the end of one list, and its timer is prepared for the other. -/
theorem rtWorkqueueSubmitWork_cases {ticks : UInt32} (code : rtWorkqueueSubmitWork w i ticks = some (w', e)) :
    (ticks = 0 ∧ e = .ok ∧ w' = (((w.listRemove i).workTail i).set i
      { w.item i with pending := true, workqueue := true }).resume) ∨
    (ticks ≠ 0 ∧ e = .delayed ∧ ∃ k, Item.arm { w.item i with pending := false } ticks = some k ∧
      w' = { ((w.listRemove i).set i { k with workqueue := true }).delayedTail i with starting := i :: w.starting }) := by
  obtain ⟨short, code⟩ := Option.ite_none_right_eq_some.mp code
  unfold workqueueSubmitWork at code
  by_cases now : ticks = 0
  · simp only [if_pos now] at code
    cases code
    exact .inl ⟨now, rfl, rfl⟩
  · simp only [if_neg now, if_pos short] at code
    obtain ⟨k, armed, result⟩ := Option.map_eq_some_iff.mp code
    cases result
    exact .inr ⟨now, rfl, k, armed, rfl⟩

theorem rtWorkqueueSubmitWork_same {ticks : UInt32} (code : rtWorkqueueSubmitWork w i ticks = some (w', e))
    (other : j ≠ i) : Same w w' j := by
  have removed : Same w (w.listRemove i) j := .listRemove w other
  obtain ⟨-, -, rfl⟩ | ⟨-, -, k, -, rfl⟩ := rtWorkqueueSubmitWork_cases code
  · exact ((removed.workTail other).set other _).resume
  · have linked := (removed.set other { k with workqueue := true }).delayedTail other
    exact { linked with starting := by simp [other] }

theorem rtTimerStartCheck_same (code : rtTimerStartCheck w i = some (w', e)) (other : j ≠ i) : Same w w' j := by
  unfold rtTimerStartCheck at code
  split at code
  · cases code
    exact { Same.refl w j with starting := List.mem_erase_of_ne other, checked := by simp [other] }
  · cases code

theorem workqueueCancelWork_same (code : workqueueCancelWork w i = some (w', e)) (other : j ≠ i) : Same w w' j := by
  obtain ⟨k, -, result⟩ := Option.map_eq_some_iff.mp code
  cases result
  exact (Same.listRemove w other).set other _

def Item.expired (k : Item) : Item :=
  { k with timer := { k.timer with attached := false, activated := false }, submitting := false }

/-- What the timeout function can do: the item goes to the end of the work list, unless its function is executed. -/
theorem delayedWorkTimeoutHandler_cases (code : delayedWorkTimeoutHandler w i = some (w', e)) :
    e = .quiet ∧ (w.item i).timer.attached = true ∧ ∃ removed, removed = { w.listRemove i with handler := .idle } ∧
      ((w.workCurrent = some i ∧ w' = (removed.set i (w.item i).expired).resume) ∨
      (w.workCurrent ≠ some i ∧
        w' = ((removed.workTail i).set i { (w.item i).expired with pending := true }).resume)) := by
  obtain ⟨timer, detached, result⟩ := Option.map_eq_some_iff.mp code
  obtain ⟨attached, same⟩ := Option.ite_none_right_eq_some.mp detached
  cases same
  by_cases executed : w.workCurrent = some i
  · have current : (w.listRemove i).workCurrent = some i := executed
    simp only [if_pos current] at result
    cases result
    exact ⟨rfl, attached, _, rfl, .inl ⟨executed, rfl⟩⟩
  · have current : ¬(w.listRemove i).workCurrent = some i := executed
    simp only [if_neg current] at result
    cases result
    exact ⟨rfl, attached, _, rfl, .inr ⟨executed, rfl⟩⟩

theorem delayedWorkTimeoutHandler_same (own : w.handler.item = some i)
    (code : delayedWorkTimeoutHandler w i = some (w', e)) (other : j ≠ i) : Same w w' j := by
  obtain ⟨-, -, removed, rest, ends⟩ := delayedWorkTimeoutHandler_cases code
  have idle : removed.handler.item = some j ↔ w.handler.item = some j := by
    rw [own, rest]
    simpa [Handler.item] using other.symm
  have same : Same w removed j := by
    rw [rest] at idle ⊢
    exact { Same.listRemove w other with handler := idle }
  obtain ⟨-, rfl⟩ | ⟨-, rfl⟩ := ends
  · exact (same.set other _).resume
  · exact ((same.workTail other).set other _).resume

theorem workqueueThreadEntry_same (other : w.workList.head? ≠ some j) : Same w (workqueueThreadEntry w).1 j := by
  unfold workqueueThreadEntry
  cases list : w.workList with
  | nil => exact { Same.refl w j with work := by rw [list] }
  | cons i rest =>
    have other : j ≠ i := by
      rintro rfl
      simp [list] at other
    exact { (Same.listRemove w other).set other _ with }

/-- What a step does, or `failed` where an assertion of the code fails. -/
inductive Effect (w : WorkQueue I) : WorkAction I → WorkEvent I → WorkQueue I → Prop where
  | failed (a : WorkAction I) (idle : a ≠ .take) (busy : a ≠ .done) : Effect w a .failed w
  | submitNow (i : I) : Effect w (.submit i 0) .ok (((w.listRemove i).workTail i).set i
      { w.item i with pending := true, workqueue := true }).resume
  | submitLater {i : I} {ticks : UInt32} {k : Item} (later : ticks ≠ 0)
      (armed : Item.arm { w.item i with pending := false } ticks = some k) : Effect w (.submit i ticks) .delayed
        { ((w.listRemove i).set i { k with workqueue := true }).delayedTail i with starting := i :: w.starting }
  | timerCheck (i : I) : Effect w (.timerCheck i) .quiet
      { w with starting := w.starting.erase i, checked := i :: w.checked }
  | timerStart (i : I) : Effect w (.timerStart i) .ok (rtTimerStart w i)
  | cancel {i : I} {e : WorkEvent I} {next : WorkQueue I} (code : workqueueCancelWork w i = some (next, e)) :
      Effect w (.cancel i) e next
  | urgent (i : I) : Effect w (.urgent i) .ok (rtWorkqueueUrgentWork w i)
  | expire {i : I} (idle : w.handler = .idle) : Effect w (.expire i) .quiet (softTimerExpire w i)
  | enter {i : I} (called : w.handler = .called i) : Effect w (.enter i) .quiet { w with handler := .found i }
  | timeout {i : I} {next : WorkQueue I} (found : w.handler = .found i)
      (code : delayedWorkTimeoutHandler w i = some (next, .quiet)) : Effect w (.timeout i) .quiet next
  | sleep (looking : w.worker = .looking) (empty : w.workList = []) : Effect w .take .quiet { w with worker := .suspended }
  | take {i : I} {rest : List I} (looking : w.worker = .looking) (list : w.workList = i :: rest) :
      Effect w .take (.took i) ({ w.listRemove i with workCurrent := some i, worker := .working }.set i
        { w.item i with pending := false, workqueue := false })
  | done (working : w.worker = .working) : Effect w .done .quiet { w with workCurrent := none, worker := .looking }

theorem workStep_effect {a : WorkAction I} (step : workStep w a = some (w', e)) : Effect w a e w' := by
  cases a with
  | submit i ticks =>
    rcases asserted_eq_some step with code | ⟨-, rfl, rfl⟩
    · obtain ⟨rfl, rfl, rfl⟩ | ⟨later, rfl, k, armed, rfl⟩ := rtWorkqueueSubmitWork_cases code
      · exact .submitNow i
      · exact .submitLater later armed
    · exact .failed _ nofun nofun
  | timerCheck i =>
    obtain ⟨-, step⟩ := Option.ite_none_right_eq_some.mp step
    rcases asserted_eq_some step with code | ⟨-, rfl, rfl⟩
    · obtain ⟨-, result⟩ := Option.ite_none_right_eq_some.mp code
      cases result
      exact .timerCheck i
    · exact .failed _ nofun nofun
  | timerStart i =>
    obtain ⟨-, step⟩ := Option.ite_none_right_eq_some.mp step
    cases step
    exact .timerStart i
  | cancel i =>
    rcases asserted_eq_some step with code | ⟨-, rfl, rfl⟩
    · exact .cancel code
    · exact .failed _ nofun nofun
  | urgent i =>
    cases step
    exact .urgent i
  | expire i =>
    obtain ⟨⟨idle, -⟩, step⟩ := Option.ite_none_right_eq_some.mp step
    cases step
    exact .expire idle
  | enter i =>
    obtain ⟨called, step⟩ := Option.ite_none_right_eq_some.mp step
    rcases asserted_eq_some step with code | ⟨-, rfl, rfl⟩
    · obtain ⟨-, result⟩ := Option.ite_none_right_eq_some.mp code
      cases result
      exact .enter called
    · exact .failed _ nofun nofun
  | timeout i =>
    obtain ⟨found, step⟩ := Option.ite_none_right_eq_some.mp step
    rcases asserted_eq_some step with code | ⟨-, rfl, rfl⟩
    · obtain ⟨rfl, -⟩ := delayedWorkTimeoutHandler_cases code
      exact .timeout found code
    · exact .failed _ nofun nofun
  | take =>
    obtain ⟨looking, step⟩ := Option.ite_none_right_eq_some.mp step
    unfold workqueueThreadEntry at step
    split at step
    case h_1 empty =>
      cases step
      exact .sleep looking empty
    case h_2 list =>
      cases step
      exact .take looking list
  | done =>
    obtain ⟨working, step⟩ := Option.ite_none_right_eq_some.mp step
    cases step
    exact .done working

theorem workStep_same {a : WorkAction I} (step : workStep w a = some (w', e)) (other : a.item w ≠ some j) :
    Same w w' j := by
  have differ : ∀ i, a.item w = some i → j ≠ i := fun i own same => other (own.trans (congrArg some same.symm))
  cases workStep_effect step with
  | failed => exact .refl _ j
  | submitNow i => exact (((Same.listRemove w (differ i rfl)).workTail (differ i rfl)).set (differ i rfl) _).resume
  | @submitLater i _ k =>
    have linked := ((Same.listRemove w (differ i rfl)).set (differ i rfl) { k with workqueue := true }).delayedTail (differ i rfl)
    exact { linked with starting := by simp [differ i rfl] }
  | timerCheck i =>
    exact { Same.refl w j with starting := List.mem_erase_of_ne (differ i rfl), checked := by simp [differ i rfl] }
  | timerStart i => exact { (Same.refl w j).set (differ i rfl) _ with checked := List.mem_erase_of_ne (differ i rfl) }
  | cancel code => exact workqueueCancelWork_same code (differ _ rfl)
  | urgent i =>
    have removed := Same.listRemove w (differ i rfl)
    exact Same.resume { removed with work := by simpa [differ i rfl] using removed.work }
  | @expire i idle =>
    have called : (Handler.called i).item = some j ↔ w.handler.item = some j := by
      rw [idle]
      simpa [Handler.item] using (differ i rfl).symm
    exact { (Same.refl w j).set (differ i rfl) _ with handler := called }
  | enter called => exact { Same.refl w j with handler := by rw [called]; rfl }
  | timeout found code => exact delayedWorkTimeoutHandler_same (by rw [found]; rfl) code (differ _ rfl)
  | sleep | done => exact { Same.refl w j with }
  | @take i rest _ list =>
    have other : j ≠ i := differ i (congrArg List.head? list)
    exact { (Same.listRemove w other).set other _ with }

def WorkQueue.Linked (w : WorkQueue I) : Prop := (w.workList ++ w.delayedList).Nodup

namespace WorkQueue.Linked

omit [DecidableEq I] in
theorem disjoint (linked : w.Linked) (inside : j ∈ w.workList) : j ∉ w.delayedList :=
  List.disjoint_left.mp (List.nodup_append'.mp linked).2.2 inside

theorem listRemove (linked : w.Linked) (i : I) : (w.listRemove i).Linked :=
  linked.sublist (List.erase_sublist.append List.erase_sublist)

theorem removed (linked : w.Linked) (i : I) : i ∉ (w.listRemove i).workList ++ (w.listRemove i).delayedList := by
  obtain ⟨work, delayed, -⟩ := List.nodup_append'.mp linked
  rw [List.mem_append]
  rintro (inside | inside)
  · exact work.not_mem_erase inside
  · exact delayed.not_mem_erase inside

omit [DecidableEq I] in
theorem workTail (linked : w.Linked) (fresh : i ∉ w.workList ++ w.delayedList) : (w.workTail i).Linked := by
  have perm : (w.workList ++ [i] ++ w.delayedList).Perm (i :: (w.workList ++ w.delayedList)) := by
    rw [List.append_assoc]
    exact List.perm_middle
  exact perm.nodup_iff.mpr (List.nodup_cons.mpr ⟨fresh, linked⟩)

omit [DecidableEq I] in
theorem delayedTail (linked : w.Linked) (fresh : i ∉ w.workList ++ w.delayedList) : (w.delayedTail i).Linked := by
  have same : w.workList ++ (w.delayedList ++ [i]) = w.workList ++ w.delayedList ++ [i] := by
    rw [List.append_assoc]
  rw [Linked, WorkQueue.delayedTail, same, ← List.concat_eq_append]
  exact (List.nodup_concat _ i).mpr ⟨fresh, linked⟩

omit [DecidableEq I] in
theorem resume (linked : w.Linked) : w.resume.Linked := by
  rw [Linked, resume_workList, resume_delayedList]
  exact linked

end WorkQueue.Linked

theorem workStep_linked {a : WorkAction I} (linked : w.Linked) (step : workStep w a = some (w', e)) : w'.Linked := by
  cases workStep_effect step with
  | failed | timerCheck | timerStart | expire | enter | sleep | done => exact linked
  | submitNow i => exact WorkQueue.Linked.resume ((linked.listRemove i).workTail (linked.removed i))
  | @submitLater i => exact (linked.listRemove i).delayedTail (linked.removed i)
  | @cancel i _ _ code =>
    obtain ⟨k, -, result⟩ := Option.map_eq_some_iff.mp code
    cases result
    exact linked.listRemove i
  | urgent i => exact WorkQueue.Linked.resume (List.nodup_cons.mpr ⟨linked.removed i, linked.listRemove i⟩)
  | @timeout i _ _ code =>
    obtain ⟨-, -, removed, rfl, ⟨-, rfl⟩ | ⟨-, rfl⟩⟩ := delayedWorkTimeoutHandler_cases code
    · exact WorkQueue.Linked.resume (linked.listRemove i)
    · exact WorkQueue.Linked.resume ((linked.listRemove i).workTail (linked.removed i))
  | take => exact linked.listRemove _

end

end RtThread.Work
