import Mathlib.Data.Nat.Digits.Lemmas

/-! Numerals in a base, over an alphabet that gives a character for each digit. -/

set_option autoImplicit false
namespace RtThread.Lib

variable {α : Type}

/-- `text` stands for `n`, with its first digit in front. -/
structure Denotes (digit : Nat → α) (base : Nat) (text : List α) (n : Nat) : Prop where
  nonempty : text ≠ []
  places : ∃ values : List Nat,
    (∀ value ∈ values, value < base) ∧ text = (values.map digit).reverse ∧ Nat.ofDigits base values = n

/-- No other numeral of `n` has fewer digits. -/
structure Shortest (digit : Nat → α) (base : Nat) (text : List α) (n : Nat) : Prop where
  denotes : Denotes digit base text n
  least : ∀ other, Denotes digit base other n → text.length ≤ other.length

/-- The numeral of `n` without leading zeros. -/
def numeral (digit : Nat → α) (base n : Nat) : List α :=
  if n = 0 then [digit 0] else ((Nat.digits base n).map digit).reverse

section numeral
variable {digit : Nat → α} {base : Nat}

theorem numeral_denotes (big : 1 < base) (n : Nat) : Denotes digit base (numeral digit base n) n := by
  unfold numeral
  split
  next zero =>
    refine ⟨List.cons_ne_nil _ _, [0], ?_, rfl, ?_⟩
    · intro value member
      rw [List.mem_singleton] at member
      omega
    · rw [Nat.ofDigits_singleton, zero]
  next positive =>
    refine ⟨?_, Nat.digits base n, fun value member => Nat.digits_lt_base big member, rfl, Nat.ofDigits_digits base n⟩
    intro none
    rw [List.reverse_eq_nil_iff, List.map_eq_nil_iff] at none
    exact Nat.digits_ne_nil_iff_ne_zero.mpr positive none

theorem numeral_length_pos (n : Nat) : 0 < (numeral digit base n).length := by
  unfold numeral
  split
  · exact Nat.one_pos
  next positive =>
    rw [List.length_reverse, List.length_map]
    exact List.length_pos_iff.mpr (Nat.digits_ne_nil_iff_ne_zero.mpr positive)

theorem numeral_shortest (big : 1 < base) (n : Nat) : Shortest digit base (numeral digit base n) n := by
  refine ⟨numeral_denotes big n, ?_⟩
  intro other stands
  obtain ⟨nonempty, values, below, rfl, total⟩ := stands
  rw [List.length_reverse, List.length_map]
  unfold numeral
  split
  next zero =>
    refine List.length_pos_iff.mpr ?_
    rintro rfl
    exact nonempty rfl
  next positive =>
    rw [List.length_reverse, List.length_map, Nat.digits_length_le_iff big, ← total]
    exact Nat.ofDigits_lt_base_pow_length big below

theorem numeral_length_le (big : 1 < base) {k n : Nat} (positive : 0 < k) (below : n < base ^ k) :
    (numeral digit base n).length ≤ k := by
  unfold numeral
  split
  · exact positive
  · rw [List.length_reverse, List.length_map]
    exact (Nat.digits_length_le_iff big n).mpr below

def Distinct (digit : Nat → α) (base : Nat) : Prop := ∀ a < base, ∀ b < base, digit a = digit b → a = b

theorem map_digit_injective (distinct : Distinct digit base) {left right : List Nat} (leftBelow : ∀ value ∈ left, value < base)
    (rightBelow : ∀ value ∈ right, value < base) (same : left.map digit = right.map digit) : left = right := by
  induction left generalizing right with
  | nil => exact (List.map_eq_nil_iff.mp same.symm).symm
  | cons value left ih =>
    cases right with
    | nil => exact absurd same (List.cons_ne_nil _ _)
    | cons other right =>
      rw [List.map_cons, List.map_cons, List.cons.injEq] at same
      have head := distinct value (leftBelow value List.mem_cons_self) other (rightBelow other List.mem_cons_self) same.1
      have tail := ih (fun value member => leftBelow value (List.mem_cons_of_mem _ member))
        (fun value member => rightBelow value (List.mem_cons_of_mem _ member)) same.2
      rw [head, tail]

theorem Denotes.unique (distinct : Distinct digit base) {text : List α} {m n : Nat} (first : Denotes digit base text m)
    (second : Denotes digit base text n) : m = n := by
  obtain ⟨_, values, below, written, total⟩ := first
  obtain ⟨_, others, otherBelow, otherWritten, otherTotal⟩ := second
  have same := map_digit_injective distinct below otherBelow (List.reverse_inj.mp (written.symm.trans otherWritten))
  rw [← total, ← otherTotal, same]

theorem Denotes.digits {text : List α} {n : Nat} (stands : Denotes digit base text n) :
    ∀ ch ∈ text, ∃ value, value < base ∧ digit value = ch := by
  obtain ⟨_, values, below, rfl, _⟩ := stands
  intro ch member
  obtain ⟨value, inside, rfl⟩ := List.mem_map.mp (List.mem_reverse.mp member)
  exact ⟨value, below value inside, rfl⟩

end numeral

end RtThread.Lib
