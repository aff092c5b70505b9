import Mathlib.Logic.Nontrivial.Basic

/-! Patches of a memory: the cells that a computation sets, whatever they held. -/

set_option autoImplicit false
namespace RtThread.Lib

variable {Address Value : Type}

abbrev Patch (Address Value : Type) : Type := Address → Option Value

namespace Patch
variable {p q : Patch Address Value} {memory : Address → Value} {a : Address} {v : Value}

def apply (p : Patch Address Value) (memory : Address → Value) : Address → Value := fun a => (p a).getD (memory a)

def Sets (p : Patch Address Value) (a : Address) : Prop := (p a).isSome

def empty : Patch Address Value := fun _ => none

/-- The patch `q`, and behind it `p`. -/
def after (p q : Patch Address Value) : Patch Address Value := fun a => (p a).or (q a)

def cell [DecidableEq Address] (a : Address) (v : Value) : Patch Address Value := fun b => if b = a then some v else none

theorem apply_after : (p.after q).apply memory = p.apply (q.apply memory) := by
  funext a
  change ((p a).or (q a)).getD (memory a) = (p a).getD ((q a).getD (memory a))
  cases p a <;> rfl

theorem apply_cell [DecidableEq Address] : (cell a v).apply memory = Function.update memory a v := by
  funext b
  rw [apply, cell, Function.update_apply]
  split <;> rfl

theorem not_sets_empty : ¬(empty : Patch Address Value).Sets a := Bool.false_ne_true

theorem sets_after : (p.after q).Sets a ↔ p.Sets a ∨ q.Sets a := by
  rw [Sets, after, Option.isSome_or, Bool.or_eq_true]
  rfl

theorem sets_cell [DecidableEq Address] {b : Address} : (cell a v).Sets b ↔ b = a := by
  rw [Sets, cell]
  split
  case isTrue own => exact iff_of_true rfl own
  case isFalse other => exact iff_of_false Bool.false_ne_true other

theorem sets_of_changed (changed : p.apply memory a ≠ memory a) : p.Sets a := by
  by_contra free
  rw [Sets, Option.not_isSome_iff_eq_none] at free
  exact changed (by rw [apply, free, Option.getD_none])

theorem Sets.changed [Nontrivial Value] (sets : p.Sets a) : ∃ memory, p.apply memory a ≠ memory a := by
  obtain ⟨v, isV⟩ := Option.isSome_iff_exists.mp sets
  obtain ⟨w, other⟩ := exists_ne v
  refine ⟨fun _ => w, ?_⟩
  rw [apply, isV, Option.getD_some]
  exact other.symm

end Patch

end RtThread.Lib
