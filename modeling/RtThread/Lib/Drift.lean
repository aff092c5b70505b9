import Mathlib.Data.Nat.Basic

/-! Two counters of different periods: for how many cycles what the one counts is what the other counts, within one. -/

set_option autoImplicit false
namespace RtThread.Lib

variable {a b s m : Nat}

/-- What a counter of period `a` counts in `m` cycles, `s` cycles after its start -/
def passages (a s m : Nat) : Nat := (s + m) / a - s / a

/-- The counter of period `a` tells, within one, how many whole periods `b` have passed. -/
def Agree (a b s m : Nat) : Prop := passages a s m ≤ m / b + 1 ∧ m / b ≤ passages a s m + 1

/-- The cycles after which counters of periods `a` and `b` may be two apart -/
def apart (a b : Nat) : Nat := if b < a then b * (a / (a - b) + 1) else a * (if a + 1 = b then 3 else 2)

theorem div_le_passages : m / a ≤ passages a s m := by
  have sum : s / a + m / a ≤ (s + m) / a := Nat.div_add_div_le_add_div
  unfold passages
  omega

theorem passages_le (positive : 0 < a) : passages a s m ≤ m / a + 1 := by
  have first := Nat.div_add_mod s a
  have second := Nat.div_add_mod m a
  have inside : s % a < a := Nat.mod_lt _ positive
  have within : m % a < a := Nat.mod_lt _ positive
  have sum : (s + m) / a ≤ s / a + m / a + 1 := by
    rw [Nat.div_le_iff_le_mul_add_pred positive, Nat.mul_add, Nat.mul_add]
    omega
  unfold passages
  rw [Nat.sub_le_iff_le_add]
  omega

theorem agree_same (positive : 0 < a) : Agree a a s m :=
  ⟨passages_le positive, Nat.le_succ_of_le div_le_passages⟩

theorem agree_slow (slow : b < a) (soon : s + m < apart a b) : Agree a b s m := by
  have drift : 0 < a - b := Nat.sub_pos_of_lt slow
  obtain zero | positive := Nat.eq_zero_or_pos b
  · rw [apart, if_pos slow, zero, Nat.zero_mul] at soon
    exact absurd soon (Nat.not_lt_zero _)
  refine ⟨Nat.le_trans (passages_le (by omega)) (Nat.succ_le_succ (Nat.div_le_div_left (by omega) positive)), ?_⟩
  have few : m / b ≤ a / (a - b) := by
    rw [apart, if_pos slow] at soon
    refine Nat.lt_add_one_iff.mp ((Nat.div_lt_iff_lt_mul positive).mpr ?_)
    rw [Nat.mul_comm]
    omega
  -- the periods counted too few add up to less than one
  have late : m / b - 1 ≤ m / a := by
    rw [Nat.le_div_iff_mul_le (by omega), Nat.sub_mul, Nat.one_mul]
    have whole : m / b * b ≤ m := Nat.div_mul_le_self ..
    have lost : m / b * (a - b) ≤ a := Nat.le_trans (Nat.mul_le_mul_right _ few) (Nat.div_mul_le_self ..)
    rw [Nat.mul_sub] at lost
    omega
  have counted : m / a ≤ passages a s m := div_le_passages
  omega

theorem agree_fast (positive : 0 < a) (fast : a < b) (soon : s + m < apart a b) : Agree a b s m := by
  refine ⟨?_, Nat.le_succ_of_le (Nat.le_trans (Nat.div_le_div_left (Nat.le_of_lt fast) positive) div_le_passages)⟩
  rw [apart, if_neg (by omega)] at soon
  by_cases next : a + 1 = b
  · rw [if_pos next] at soon
    have twice : (s + m) / a < 3 := (Nat.div_lt_iff_lt_mul positive).mpr (by rw [Nat.mul_comm]; exact soon)
    unfold passages
    by_cases early : m < b
    · by_cases began : s < a
      · rw [Nat.div_eq_of_lt began, Nat.div_eq_of_lt early]
        have once : (s + m) / a < 2 := (Nat.div_lt_iff_lt_mul positive).mpr (by omega)
        omega
      · have one : 1 ≤ s / a := (Nat.one_le_div_iff positive).mpr (Nat.le_of_not_lt began)
        rw [Nat.div_eq_of_lt early]
        generalize (s + m) / a = counted at twice
        generalize s / a = before at one
        omega
    · have one : 1 ≤ m / b := (Nat.one_le_div_iff (by omega)).mpr (Nat.le_of_not_lt early)
      exact Nat.le_trans (Nat.sub_le ..) (Nat.le_trans (Nat.lt_add_one_iff.mp twice) (Nat.succ_le_succ one))
  · rw [if_neg next] at soon
    have once : (s + m) / a < 2 := (Nat.div_lt_iff_lt_mul positive).mpr (by rw [Nat.mul_comm]; exact soon)
    exact Nat.le_trans (Nat.sub_le ..) (Nat.le_trans (Nat.lt_add_one_iff.mp once) (Nat.le_add_left ..))

theorem agree_of_lt (positive : 0 < a) (differ : a ≠ b) (soon : s + m < apart a b) : Agree a b s m := by
  obtain fast | slow := Nat.lt_or_gt_of_ne differ
  · exact agree_fast positive fast soon
  · exact agree_slow slow soon

theorem exists_not_agree (positive : 0 < a) (other : 0 < b) (differ : a ≠ b) :
    ∃ s m, s + m = apart a b ∧ ¬Agree a b s m := by
  unfold apart
  obtain fast | slow := Nat.lt_or_gt_of_ne differ
  · rw [if_neg (by omega)]
    have none : (a - 1) / a = 0 := Nat.div_eq_of_lt (by omega)
    split
    case isTrue next =>
      refine ⟨a - 1, 2 * a + 1, by omega, fun agree => ?_⟩
      have thrice : (a - 1 + (2 * a + 1)) / a = 3 := by
        rw [show a - 1 + (2 * a + 1) = a * 3 by omega, Nat.mul_div_cancel_left _ positive]
      have once : (2 * a + 1) / b < 2 := (Nat.div_lt_iff_lt_mul other).mpr (by omega)
      have close := agree.1
      rw [passages, thrice, none] at close
      omega
    case isFalse far =>
      refine ⟨a - 1, a + 1, by omega, fun agree => ?_⟩
      have twice : (a - 1 + (a + 1)) / a = 2 := by
        rw [show a - 1 + (a + 1) = a * 2 by omega, Nat.mul_div_cancel_left _ positive]
      have close := agree.1
      rw [passages, twice, none, Nat.div_eq_of_lt (by omega)] at close
      omega
  · rw [if_pos slow]
    have drift : 0 < a - b := Nat.sub_pos_of_lt slow
    refine ⟨0, b * (a / (a - b) + 1), Nat.zero_add _, fun agree => ?_⟩
    have lost := Nat.lt_mul_div_succ a drift
    rw [Nat.mul_comm, Nat.mul_sub] at lost
    have few : b * (a / (a - b) + 1) / a < a / (a - b) := by
      rw [Nat.div_lt_iff_lt_mul positive, Nat.mul_comm b]
      have expand : (a / (a - b) + 1) * a = a / (a - b) * a + a := by rw [Nat.add_mul, Nat.one_mul]
      omega
    have close := agree.2
    rw [passages, Nat.zero_add, Nat.zero_div, Nat.sub_zero, Nat.mul_div_cancel_left _ other] at close
    omega

end RtThread.Lib
