import RtThread.Lib.Transition
import Mathlib.Data.List.Infix

/-! What holds in every state, or of every step, that a list of actions passes through, and the rule that makes a
condition on steps the exact condition for a property of states. Last, courses: states from each of which only one step
goes on, but for stray steps into states that are lost. -/

set_option autoImplicit false
namespace RtThread.Lib

variable {State Action : Type}

/-- Every state that a beginning of `actions` reaches is a `Sound` one. -/
def Throughout (step : State → Action → State → Prop) (s : State) (actions : List Action) (Sound : State → Prop) : Prop :=
  ∀ before mid, before <+: actions → Run step s before mid → Sound mid

/-- Every step on the way through `actions` is taken where it is `Allowed`. -/
def EachStep (step : State → Action → State → Prop) (s : State) (actions : List Action)
    (Allowed : State → Action → Prop) : Prop :=
  ∀ before a mid next, before ++ [a] <+: actions → Run step s before mid → step mid a next → Allowed mid a

variable {step : State → Action → State → Prop} {Inv Sound : State → Prop} {Allowed : State → Action → Prop}
  {s : State} {actions : List Action}

theorem EachStep.throughout (kept : ∀ s a s', Inv s → Allowed s a → step s a s' → Inv s') (start : Inv s)
    (each : EachStep step s actions Allowed) : Throughout step s actions Inv := by
  intro before mid inside run
  induction run with
  | nil => exact start
  | snoc run taken ih =>
    have earlier : Inv _ := ih ((List.prefix_append _ _).trans inside)
    exact kept _ _ _ earlier (each _ _ _ _ inside run taken) taken

/-- The invariant gives the property, the allowed steps keep the invariant, and a step that is not allowed breaks the
property at once: then the property holds throughout just if every step is allowed. -/
theorem throughout_iff_eachStep (sound : ∀ s, Inv s → Sound s)
    (kept : ∀ s a s', Inv s → Allowed s a → step s a s' → Inv s')
    (needed : ∀ s a s', Inv s → step s a s' → Sound s' → Allowed s a) (start : Inv s) :
    Throughout step s actions Sound ↔ EachStep step s actions Allowed := by
  constructor
  · intro all before a mid next inside run taken
    have inv : Inv mid := by
      induction run generalizing a next with
      | nil => exact start
      | snoc run first ih =>
        have shorter := (List.prefix_append _ _).trans inside
        have earlier := ih _ _ shorter first
        exact kept _ _ _ earlier (needed _ _ _ earlier first (all _ _ shorter (.snoc run first))) first
    exact needed _ _ _ inv taken (all _ _ inside (.snoc run taken))
  · intro each before mid inside run
    exact sound mid (each.throughout kept start before mid inside run)

section machines
variable {act : State → Action → Option State}

theorem foldlM_of_run {s s' : State} {actions : List Action}
    (run : Run (fun s a s' => act s a = some s') s actions s') : actions.foldlM act s = some s' := by
  induction run with
  | nil => rfl
  | snoc _ taken ih =>
    rw [List.foldlM_append, ih]
    exact (bind_pure _).trans taken

def eachAllowed (act : State → Action → Option State) (allowed : State → Action → Bool) : State → List Action → Bool
  | _, [] => true
  | s, a :: rest => (act s a).all fun next => allowed s a && eachAllowed act allowed next rest

theorem eachStep_of_eachAllowed {allowed : State → Action → Bool} {s : State} {actions : List Action}
    (all : eachAllowed act allowed s actions = true) :
    EachStep (fun s a s' => act s a = some s') s actions fun s a => allowed s a = true := by
  intro before a mid next inside run taken
  have reached := foldlM_of_run run
  clear run
  induction before generalizing s actions with
  | nil =>
    obtain ⟨rest, rfl⟩ := inside
    cases reached
    simp only [List.nil_append, List.cons_append, eachAllowed, taken, Option.all_some, Bool.and_eq_true] at all
    exact all.1
  | cons b before ih =>
    obtain ⟨rest, rfl⟩ := inside
    obtain ⟨s₁, first, reached⟩ := Option.bind_eq_some_iff.mp (reached : (act s b).bind _ = some mid)
    simp only [List.cons_append, eachAllowed, first, Option.all_some, Bool.and_eq_true] at all
    exact ih all.2 (List.prefix_append _ _) reached

end machines

/-! ## Courses -/

section
variable {State Action : Type} {step : State → Action → State → Prop} {stray : Action → Prop} {Lost : State → Prop}

/-- The only way on from `s` leads to `t`. -/
inductive Course (step : State → Action → State → Prop) (stray : Action → Prop) (Lost : State → Prop) :
    State → List Action → State → Prop where
  | nil (s : State) : Course step stray Lost s [] s
  | cons {s mid t : State} {a : Action} {rest : List Action} (taken : step s a mid) (straight : ¬stray a)
      (only : ∀ b other, step s b other → (b = a ∧ other = mid) ∨ (stray b ∧ Lost other))
      (onwards : Course step stray Lost mid rest t) : Course step stray Lost s (a :: rest) t

namespace Course

theorem trans {s mid t : State} {before after : List Action} (first : Course step stray Lost s before mid)
    (rest : Course step stray Lost mid after t) : Course step stray Lost s (before ++ after) t := by
  induction first with
  | nil => exact rest
  | cons taken straight only _ ih => exact .cons taken straight only (ih rest)

theorem run {s t : State} {actions : List Action} (course : Course step stray Lost s actions t) :
    Run step s actions t := by
  induction course with
  | nil => exact .nil _
  | cons taken _ _ _ ih => exact Run.trans (.snoc (.nil _) taken) ih

theorem straight {s t : State} {actions : List Action} (course : Course step stray Lost s actions t) :
    ∀ a ∈ actions, ¬stray a := by
  induction course with
  | nil => nofun
  | cons _ own _ _ ih =>
    rintro a (_ | ⟨_, inside⟩)
    · exact own
    · exact ih a inside

theorem follow {s t : State} {actions : List Action} (course : Course step stray Lost s actions t)
    (final : ∀ a next, ¬step t a next) (kept : ∀ s a s', Lost s → step s a s' → Lost s')
    {taken : List Action} {w : State} (run : Run step s taken w) :
    (∃ rest, taken ++ rest = actions ∧ Course step stray Lost w rest t) ∨ (Lost w ∧ ∃ a ∈ taken, stray a) := by
  induction run with
  | nil => exact .inl ⟨actions, rfl, course⟩
  | @snoc mid w taken a _ last ih =>
    rcases ih with ⟨rest, same, onwards⟩ | ⟨lost, b, inside, strays⟩
    · cases onwards with
      | nil => exact absurd last (final a w)
      | cons next _ only onwards =>
        rcases only a w last with ⟨rfl, rfl⟩ | ⟨strays, lost⟩
        · exact .inl ⟨_, by rw [List.append_assoc]; exact same, onwards⟩
        · exact .inr ⟨lost, a, List.mem_append_right _ List.mem_cons_self, strays⟩
    · exact .inr ⟨kept _ _ _ lost last, b, List.mem_append_left _ inside, strays⟩

end Course

end

end RtThread.Lib
