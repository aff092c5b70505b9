import Mathlib.Logic.Basic

/-! A scan that keeps the least key, of those that count, and where it found it. -/

set_option autoImplicit false
namespace RtThread.Lib

section
variable {α : Type} {P : α → Prop} {key : α → Int} {bound value : Int} {seen : List α} {arg : Option α} {a : α}

/-- The scan has `seen` so much of its list, and `value` is the least key so far, or `bound` if no element counts. -/
structure Least (P : α → Prop) (key : α → Int) (bound : Int) (seen : List α) (value : Int) (arg : Option α) :
    Prop where
  some : ∀ a, arg = .some a → a ∈ seen ∧ P a ∧ value = key a
  none : arg = .none → value = bound
  least : ∀ a ∈ seen, P a → value ≤ key a

namespace Least

theorem nil (P : α → Prop) (key : α → Int) (bound : Int) : Least P key bound [] bound .none where
  some _ found := nomatch found
  none _ := rfl
  least _ inside := absurd inside List.not_mem_nil

theorem skip (so : Least P key bound seen value arg) (more : P a → value ≤ key a) :
    Least P key bound (seen ++ [a]) value arg where
  some b found := by
    obtain ⟨inside, counts, same⟩ := so.some b found
    exact ⟨List.mem_append_left _ inside, counts, same⟩
  none := so.none
  least b inside counts := by
    rcases List.mem_append.mp inside with before | last
    · exact so.least b before counts
    · rw [List.mem_singleton.mp last] at counts ⊢
      exact more counts

theorem take (so : Least P key bound seen value arg) (counts : P a) (less : key a < value) :
    Least P key bound (seen ++ [a]) (key a) (.some a) where
  some b found := by
    cases found
    exact ⟨List.mem_append_right _ List.mem_cons_self, counts, rfl⟩
  none found := nomatch found
  least b inside counts := by
    rcases List.mem_append.mp inside with before | last
    · exact Int.le_trans (Int.le_of_lt less) (so.least b before counts)
    · exact Int.le_of_eq (congrArg key (List.mem_singleton.mp last).symm)

end Least

end

end RtThread.Lib
