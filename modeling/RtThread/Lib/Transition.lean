import Mathlib.Logic.Basic

/-! Runs of a labelled transition relation, and the two rules by which
an invariant of one step becomes a fact about every run. -/

set_option autoImplicit false

namespace RtThread.Lib

variable {State Action : Type}

/-- `Run step s actions s'`: the actions lead from `s` to `s'`. -/
inductive Run (step : State → Action → State → Prop) : State → List Action → State → Prop where
  | nil (s : State) : Run step s [] s
  | snoc {s mid s' : State} {actions : List Action} {a : Action} :
      Run step s actions mid → step mid a s' → Run step s (actions ++ [a]) s'

variable {step : State → Action → State → Prop}

theorem Run.invariant (Inv : State → Prop) (preserved : ∀ s a s', Inv s → step s a s' → Inv s')
    {s s' : State} {actions : List Action} (start : Inv s) (run : Run step s actions s') : Inv s' := by
  induction run with
  | nil => exact start
  | snoc _ taken ih => exact preserved _ _ _ ih taken

theorem Run.mono {other : State → Action → State → Prop} (sub : ∀ s a s', step s a s' → other s a s')
    {s s' : State} {actions : List Action} (run : Run step s actions s') : Run other s actions s' := by
  induction run with
  | nil => exact .nil _
  | snoc _ taken ih => exact .snoc ih (sub _ _ _ taken)

theorem Run.trans {s mid s' : State} {before after : List Action} (first : Run step s before mid)
    (rest : Run step mid after s') : Run step s (before ++ after) s' := by
  induction rest with
  | nil => simpa using first
  | snoc _ taken ih => rw [← List.append_assoc]; exact .snoc ih taken

theorem run_of_foldlM {act : State → Action → Option State} {actions : List Action} {s s' : State}
    (done : actions.foldlM act s = some s') : Run (fun s a s' => act s a = some s') s actions s' := by
  induction actions generalizing s with
  | nil =>
    cases done
    exact .nil _
  | cons a rest ih =>
    cases first : act s a with
    | none => simp [List.foldlM, first] at done
    | some mid => exact Run.trans (.snoc (.nil _) first) (ih (by simpa [List.foldlM, first] using done))

section machines
variable {Output : Type}

def Performs (machine : State → Action → Option (State × Output)) (s : State) (label : Action × Output)
    (s' : State) : Prop :=
  machine s label.1 = some (s', label.2)

def drive (machine : State → Action → Option (State × Output)) (s : State) :
    List Action → Option (State × List (Action × Output))
  | [] => some (s, [])
  | a :: rest =>
    match machine s a with
    | none => none
    | some (mid, out) => (drive machine mid rest).map fun done => (done.1, (a, out) :: done.2)

variable {machine : State → Action → Option (State × Output)}

theorem drive_run {actions : List Action} {s s' : State} {labels : List (Action × Output)}
    (done : drive machine s actions = some (s', labels)) : Run (Performs machine) s labels s' := by
  induction actions generalizing s labels with
  | nil =>
    cases done
    exact .nil _
  | cons a rest ih =>
    rw [drive] at done
    cases first : machine s a with
    | none => simp [first] at done
    | some result =>
      simp only [first, Option.map_eq_some_iff] at done
      obtain ⟨⟨last, tail⟩, driven, same⟩ := done
      cases same
      exact Run.trans (.snoc (.nil _) first) (ih driven)

theorem drive_get {actions : List Action} {s : State} (done : (drive machine s actions).isSome = true) :
    Run (Performs machine) s ((drive machine s actions).get done).2 ((drive machine s actions).get done).1 :=
  drive_run (Option.some_get done).symm

def guarded (machine : State → Action → Option (State × Output)) (allowed : State → Action → Bool)
    (s : State) (a : Action) : Option (State × Output) :=
  if allowed s a then machine s a else none

theorem guarded_eq_some {allowed : State → Action → Bool} {s : State} {a : Action} {result : State × Output}
    (step : guarded machine allowed s a = some result) : allowed s a = true ∧ machine s a = some result := by
  unfold guarded at step
  split at step
  case isTrue may => exact ⟨may, step⟩
  case isFalse => cases step

end machines

end RtThread.Lib
