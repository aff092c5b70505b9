import Mathlib.Data.Nat.Basic

/-! A counter that counts down from its load value and goes on from there: what the differences of its readings,
wrapped by the load value, add up to. -/

set_option autoImplicit false
namespace RtThread.Lib

variable {load x gap ticks elapsed : Nat}

/-- What the counter shows after `x` cycles. -/
def reading (load x : Nat) : Nat := load - x % (load + 1)

/-- The cycles from one reading to the next, as a reader with period `load` takes them -/
def lapsed (load old new : Nat) : Nat := if new < old then old - new else load - new + old

def counted (load x : Nat) : Nat := x - x / (load + 1)

def leastCycles (load ticks : Nat) : Nat := ticks + (ticks - 1) / load

theorem reading_le : reading load x ≤ load := Nat.sub_le ..

theorem div_step (load x : Nat) (close : gap ≤ load) :
    x % (load + 1) + gap ≤ load ∧ (x + gap) / (load + 1) = x / (load + 1) ∧
        (x + gap) % (load + 1) = x % (load + 1) + gap ∨
      load < x % (load + 1) + gap ∧ (x + gap) / (load + 1) = x / (load + 1) + 1 ∧
        (x + gap) % (load + 1) = x % (load + 1) + gap - (load + 1) := by
  have whole := Nat.div_add_mod x (load + 1)
  have inside : x % (load + 1) < load + 1 := Nat.mod_lt _ (Nat.succ_pos _)
  by_cases room : x % (load + 1) + gap ≤ load
  · have split : x + gap = x % (load + 1) + gap + (load + 1) * (x / (load + 1)) := by omega
    refine .inl ⟨room, ?_, ?_⟩
    · rw [split, Nat.add_mul_div_left _ _ (Nat.succ_pos _), Nat.div_eq_of_lt (by omega), Nat.zero_add]
    · rw [split, Nat.add_mul_mod_self_left, Nat.mod_eq_of_lt (by omega)]
  · have next : (load + 1) * (x / (load + 1) + 1) = (load + 1) * (x / (load + 1)) + (load + 1) := Nat.mul_succ ..
    have split : x + gap = x % (load + 1) + gap - (load + 1) + (load + 1) * (x / (load + 1) + 1) := by omega
    refine .inr ⟨by omega, ?_, ?_⟩
    · rw [split, Nat.add_mul_div_left _ _ (Nat.succ_pos _), Nat.div_eq_of_lt (by omega), Nat.zero_add]
    · rw [split, Nat.add_mul_mod_self_left, Nat.mod_eq_of_lt (by omega)]

theorem reading_eq_iff (load x : Nat) (close : gap ≤ load) : reading load (x + gap) = reading load x ↔ gap = 0 := by
  have inside : x % (load + 1) < load + 1 := Nat.mod_lt _ (Nat.succ_pos _)
  unfold reading
  obtain ⟨room, -, same⟩ | ⟨wrap, -, same⟩ := div_step load x close
  · rw [same]
    omega
  · rw [same]
    omega

theorem counted_add_lapsed (load x : Nat) (close : gap ≤ load) (moved : gap ≠ 0) :
    counted load x + lapsed load (reading load x) (reading load (x + gap)) = counted load (x + gap) := by
  have inside : x % (load + 1) < load + 1 := Nat.mod_lt _ (Nat.succ_pos _)
  have less : x / (load + 1) ≤ x := Nat.div_le_self ..
  unfold counted lapsed reading
  obtain ⟨room, passes, same⟩ | ⟨wrap, passes, same⟩ := div_step load x close
  · rw [same, passes, if_pos (by omega)]
    omega
  · rw [same, passes, if_neg (by omega)]
    omega

theorem counted_mono {x y : Nat} (le : x ≤ y) : counted load x ≤ counted load y := by
  have split : y = x + (y - x) := by omega
  have pass : (x + (y - x)) / (load + 1) ≤ x / (load + 1) + (y - x) := by
    rw [Nat.div_le_iff_le_mul_add_pred (Nat.add_one_pos load)]
    have whole := Nat.div_add_mod x (load + 1)
    have inside : x % (load + 1) < load + 1 := Nat.mod_lt _ (Nat.succ_pos _)
    have more : y - x ≤ (load + 1) * (y - x) := Nat.le_mul_of_pos_left _ (Nat.succ_pos _)
    rw [Nat.mul_add]
    omega
  have less : x / (load + 1) ≤ x := Nat.div_le_self ..
  unfold counted
  rw [← split] at pass
  omega

theorem counted_add_le (load start elapsed : Nat) : counted load (start + elapsed) ≤ counted load start + counted load elapsed := by
  have passes : start / (load + 1) + elapsed / (load + 1) ≤ (start + elapsed) / (load + 1) := Nat.div_add_div_le_add_div
  have first : start / (load + 1) ≤ start := Nat.div_le_self ..
  have second : elapsed / (load + 1) ≤ elapsed := Nat.div_le_self ..
  unfold counted
  omega

theorem le_counted_iff (positive : 0 < load) (some : 0 < ticks) :
    ticks ≤ counted load elapsed ↔ leastCycles load ticks ≤ elapsed := by
  have passed := Nat.div_add_mod (ticks - 1) load
  have short : (ticks - 1) % load < load := Nat.mod_lt _ positive
  constructor
  · intro enough
    have whole := Nat.div_add_mod elapsed (load + 1)
    have inside : elapsed % (load + 1) < load + 1 := Nat.mod_lt _ (Nat.succ_pos _)
    have expand : (load + 1) * (elapsed / (load + 1)) = load * (elapsed / (load + 1)) + elapsed / (load + 1) := by
      rw [Nat.add_mul, Nat.one_mul]
    unfold counted at enough
    have few : (ticks - 1) / load ≤ elapsed / (load + 1) := by
      rw [Nat.div_le_iff_le_mul_add_pred positive]
      omega
    unfold leastCycles
    omega
  · intro late
    refine Nat.le_trans ?_ (counted_mono late)
    have passes : leastCycles load ticks / (load + 1) ≤ (ticks - 1) / load := by
      rw [Nat.div_le_iff_le_mul_add_pred (Nat.add_one_pos load), Nat.add_mul, Nat.one_mul]
      unfold leastCycles
      omega
    unfold counted leastCycles at *
    omega

end RtThread.Lib
