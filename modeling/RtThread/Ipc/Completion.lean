import RtThread.Ipc.Waits
import RtThread.Lib.Throughout

/-! `rt_completion_wait` of one thread and `rt_completion_done` of others, `completion.c`. -/

set_option autoImplicit false
namespace RtThread.Ipc
open Lib

/-- Where the waiting thread is in `rt_completion_wait`. -/
inductive CompletionWaiter where
  | idle
  /-- in `suspended_list`, with or without its timer started -/
  | suspended (timer : Bool)
  /-- behind `rt_schedule` as soon as it runs -/
  | ready
  deriving DecidableEq

/-- `struct rt_completion`, with `thread->error` and the calls of `rt_completion_done` that have found the flag unset
and not yet disabled the interrupts. `due` notes a call of `rt_completion_done` since the last wait that returned
`RT_EOK`, `spurious` a wait that returned `RT_EOK` without one. -/
structure Completion where
  flag : Bool
  waiter : CompletionWaiter
  error : Err
  doing : Nat
  due : Bool
  spurious : Bool

inductive CompletionAction where
  /-- the first look of `rt_completion_done` at the flag -/
  | look
  /-- its section with interrupts disabled -/
  | done
  | wait (timeout : Int32)
  /-- `_thread_timeout` -/
  | expire
  /-- the waiting thread runs on behind `rt_schedule` -/
  | finish

namespace Completion

def rtCompletionInit : Completion where
  flag := false
  waiter := .idle
  error := .ok
  doing := 0
  due := false
  spurious := false

def clear (s : Completion) (result : Err) : Completion :=
  { s with
    flag := false
    waiter := .idle
    due := if result = .ok then false else s.due
    spurious := s.spurious || decide (result = .ok) && !s.due }

/-- `rt_completion_wait`, and what it returns if it does not suspend the thread -/
def rtCompletionWait (s : Completion) (timeout : Int32) : Completion × Option Err :=
  if s.flag = false then
    if timeout = 0 then (s, some .timeout)
    else ({ s with error := .ok, waiter := .suspended (decide (0 < timeout)) }, none)
  else (s.clear .ok, some .ok)

/-- `rt_completion_done` behind its first look -/
def rtCompletionDone (s : Completion) : Completion :=
  { s with
    flag := true
    doing := s.doing - 1
    due := true
    waiter := match s.waiter with
      | .suspended _ => .ready
      | waiter => waiter }

def step (s : Completion) : CompletionAction → Option Completion
  | .look => if s.flag = true then some { s with due := true } else some { s with doing := s.doing + 1 }
  | .done => if 0 < s.doing then some s.rtCompletionDone else none
  | .wait timeout => if s.waiter = .idle then some (s.rtCompletionWait timeout).1 else none
  | .expire => if s.waiter = .suspended true then some { s with error := .timeout, waiter := .ready } else none
  | .finish => if s.waiter = .ready then some (s.clear s.error) else none

/-- No wait has returned `RT_EOK` without a call of `rt_completion_done`, and where one is due the next wait returns
`RT_EOK` at once. -/
structure Sound (s : Completion) : Prop where
  earned : s.spurious = false
  kept : s.waiter = .idle → s.due = true → ∀ timeout, (s.rtCompletionWait timeout).2 = some .ok

def Allowed (s : Completion) : CompletionAction → Prop
  | .finish => s.error = .timeout → s.flag = false
  | _ => True

instance (s : Completion) (a : CompletionAction) : Decidable (s.Allowed a) := by
  cases a <;> unfold Allowed <;> infer_instance

structure Inv (s : Completion) : Prop where
  earned : s.spurious = false
  due : s.due = s.flag
  error : s.error = .ok ∨ s.error = .timeout
  suspended : ∀ timer, s.waiter = .suspended timer → s.flag = false ∧ s.error = .ok
  ready : s.waiter = .ready → s.error = .ok → s.flag = true

variable {s s' : Completion}

theorem init_inv : rtCompletionInit.Inv where
  earned := rfl
  due := rfl
  error := Or.inl rfl
  suspended _ other := nomatch other
  ready other := nomatch other

theorem wait_returns (timeout : Int32) (set : s.flag = true) : s.rtCompletionWait timeout = (s.clear .ok, some .ok) :=
  if_neg (by rw [set]; decide)

theorem Inv.sound (inv : s.Inv) : s.Sound where
  earned := inv.earned
  kept _ due timeout := by
    rw [wait_returns timeout (inv.due.symm.trans due)]

theorem Inv.clear (inv : s.Inv) {result : Err} (right : if result = .ok then s.flag = true else s.flag = false) :
    (s.clear result).Inv := by
  refine ⟨?_, ?_, inv.error, fun _ other => (nomatch other), fun other => (nomatch other)⟩
  · change (s.spurious || decide (result = .ok) && !s.due) = false
    by_cases ok : result = .ok
    · rw [if_pos ok] at right
      rw [inv.earned, inv.due, right, Bool.not_true, Bool.and_false, Bool.or_false]
    · rw [inv.earned, decide_eq_false ok, Bool.false_and, Bool.or_false]
  · change (if result = .ok then false else s.due) = false
    by_cases ok : result = .ok
    · exact if_pos ok
    · rw [if_neg ok] at right ⊢
      exact inv.due.trans right

theorem Inv.wait (inv : s.Inv) (timeout : Int32) : (s.rtCompletionWait timeout).1.Inv := by
  unfold rtCompletionWait
  by_cases unset : s.flag = false
  · rw [if_pos unset]
    split
    · exact inv
    · exact ⟨inv.earned, inv.due, Or.inl rfl, fun _ _ => ⟨unset, rfl⟩, fun other => (nomatch other)⟩
  · rw [if_neg unset]
    exact inv.clear ((if_pos rfl).mpr (eq_true_of_ne_false unset))

theorem Inv.done (inv : s.Inv) : s.rtCompletionDone.Inv := by
  refine ⟨inv.earned, rfl, inv.error, fun timer other => ?_, fun _ _ => rfl⟩
  unfold rtCompletionDone at other
  dsimp only at other
  split at other
  next => cases other
  next no => exact absurd other (no timer)

theorem Inv.step (inv : s.Inv) (a : CompletionAction) (allowed : s.Allowed a) (taken : s.step a = some s') : s'.Inv := by
  cases a with
  | look =>
    unfold Completion.step at taken
    dsimp only at taken
    split at taken
    next set =>
      cases taken
      exact ⟨inv.earned, set.symm, inv.error, inv.suspended, inv.ready⟩
    next =>
      cases taken
      exact ⟨inv.earned, inv.due, inv.error, inv.suspended, inv.ready⟩
  | done =>
    obtain ⟨-, ⟨⟩⟩ := Option.ite_none_right_eq_some.mp taken
    exact inv.done
  | wait timeout =>
    obtain ⟨-, ⟨⟩⟩ := Option.ite_none_right_eq_some.mp taken
    exact inv.wait timeout
  | expire =>
    obtain ⟨-, ⟨⟩⟩ := Option.ite_none_right_eq_some.mp taken
    exact ⟨inv.earned, inv.due, Or.inr rfl, fun _ other => (nomatch other), fun _ other => (nomatch other)⟩
  | finish =>
    obtain ⟨ready, ⟨⟩⟩ := Option.ite_none_right_eq_some.mp taken
    refine inv.clear ?_
    split
    next ok => exact inv.ready ready ok
    next failed => exact allowed (inv.error.resolve_left failed)

theorem needed (inv : s.Inv) (a : CompletionAction) (taken : s.step a = some s') (sound : s'.Sound) : s.Allowed a := by
  cases a with
  | finish =>
    obtain ⟨-, ⟨⟩⟩ := Option.ite_none_right_eq_some.mp taken
    intro timedOut
    by_contra set
    have due : (s.clear s.error).due = true := by
      change (if s.error = .ok then false else s.due) = true
      rw [if_neg (by rw [timedOut]; decide), inv.due]
      exact eq_true_of_ne_false set
    cases sound.kept rfl due 0
  | _ => trivial

/-- From its initialisation, no completion is lost or counted twice just if no thread that timed out finds the flag
set. -/
theorem completion_sound_iff (actions : List CompletionAction) :
    Throughout (fun s a s' => s.step a = some s') rtCompletionInit actions Sound ↔
      EachStep (fun s a s' => s.step a = some s') rtCompletionInit actions Allowed :=
  throughout_iff_eachStep (fun _ inv => inv.sound) (fun _ a _ inv allowed taken => inv.step a allowed taken)
    (fun _ a _ inv taken sound => needed inv a taken sound) init_inv

/-- The timer of the wait expires, and before the thread runs an interrupt calls `rt_completion_done`. -/
def doneBetween : List CompletionAction := [.wait 10, .expire, .look, .done, .finish]

theorem doneBetween_lost : ¬Throughout (fun s a s' => s.step a = some s') rtCompletionInit doneBetween Sound := by
  intro all
  have reached : (doneBetween.foldlM step rtCompletionInit).any
      (fun s => decide (s.waiter = .idle) && s.due && (s.rtCompletionWait 0).2 == some .timeout) = true := by decide
  obtain ⟨s, run, last⟩ := (Option.any_eq_true _ _).mp reached
  simp only [Bool.and_eq_true, decide_eq_true_eq, beq_iff_eq] at last
  obtain ⟨⟨idle, due⟩, lost⟩ := last
  have sound : s.Sound := all _ s (List.prefix_refl _) (run_of_foldlM run)
  cases (sound.kept idle due 0).symm.trans lost

end Completion

end RtThread.Ipc
