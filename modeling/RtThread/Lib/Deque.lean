import Mathlib.Data.List.Basic

/-! A bounded double-ended queue as a machine that reads the history of its operations. -/

set_option autoImplicit false

namespace RtThread.Lib

inductive DequeEvent (α : Type) where
  | pushBack (v : α)
  | pushFront (v : α)
  | popFront (v : α)
  | clear
  /-- an operation that was refused -/
  | refused

variable {α : Type} [DecidableEq α]

/-- The queue after one operation, where the operation is possible: a push needs room, and a pop
delivers the first value. -/
def DequeEvent.apply (bound : Nat) (queue : List α) : DequeEvent α → Option (List α)
  | .pushBack v => if queue.length < bound then some (queue ++ [v]) else none
  | .pushFront v => if queue.length < bound then some (v :: queue) else none
  | .popFront v =>
    match queue with
    | [] => none
    | first :: rest => if first = v then some rest else none
  | .clear => some []
  | .refused => some queue

def dequeReplay (bound : Nat) (queue : List α) : List (DequeEvent α) → Option (List α)
  | [] => some queue
  | e :: rest => (e.apply bound queue).bind fun next => dequeReplay bound next rest

theorem dequeReplay_one (bound : Nat) (queue : List α) (e : DequeEvent α) :
    dequeReplay bound queue [e] = e.apply bound queue := by
  simp [dequeReplay]

theorem dequeReplay_append (bound : Nat) (before after : List (DequeEvent α)) (queue mid : List α)
    (first : dequeReplay bound queue before = some mid) :
    dequeReplay bound queue (before ++ after) = dequeReplay bound mid after := by
  induction before generalizing queue with
  | nil =>
    cases first
    rfl
  | cons e rest ih =>
    rw [dequeReplay, Option.bind_eq_some_iff] at first
    obtain ⟨next, step, done⟩ := first
    rw [List.cons_append, dequeReplay, step, Option.bind_some]
    exact ih next done

end RtThread.Lib
