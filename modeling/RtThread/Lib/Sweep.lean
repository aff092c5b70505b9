import Mathlib.Data.Set.Lattice

/-! The bytes of a transfer whose address counter wraps, and what it takes to keep it inside a window. -/

set_option autoImplicit false
namespace RtThread.Lib

/-- The addresses `base`, `base + 1`, … of `count` bytes, in a space of `space` addresses. -/
def sweep (space base count : Nat) : Set Nat := {b | ∃ i < count, b = (base + i) % space}

def interval (base count : Nat) : Set Nat := {b | base ≤ b ∧ b < base + count}

theorem interval_zero (base : Nat) : interval base 0 = ∅ := by
  ext b
  simp [interval]

theorem sweep_empty (space base : Nat) : sweep space base 0 = ∅ := by
  ext b
  simp [sweep]

theorem sweep_succ (space base count : Nat) (small : base < space) :
    sweep space base (count + 1) = {base} ∪ sweep space ((base + 1) % space) count := by
  ext b
  constructor
  · rintro ⟨i, less, rfl⟩
    cases i with
    | zero => exact Or.inl (Nat.mod_eq_of_lt small)
    | succ i =>
      right
      use i, by omega
      rw [Nat.mod_add_mod, Nat.add_assoc, Nat.add_comm 1]
  · rintro (rfl | ⟨i, less, rfl⟩)
    · exact ⟨0, by omega, (Nat.mod_eq_of_lt small).symm⟩
    · use i + 1, by omega
      rw [Nat.mod_add_mod, Nat.add_assoc, Nat.add_comm 1]

theorem sweep_eq_interval (space base count : Nat) (fits : base + count ≤ space) :
    sweep space base count = interval base count := by
  ext b
  constructor
  · rintro ⟨i, less, rfl⟩
    have below : (base + i) % space = base + i := Nat.mod_eq_of_lt (by omega)
    constructor <;> omega
  · rintro ⟨low, high⟩
    exact ⟨b - base, by omega, by rw [Nat.mod_eq_of_lt] <;> omega⟩

-- A sweep that wraps holds the last address of the space, which no smaller window has.
theorem sweep_wraps (space base count : Nat) (small : base < space) (beyond : space ≤ base + count) :
    space - 1 ∈ sweep space base count := by
  use space - 1 - base, by omega
  rw [Nat.mod_eq_of_lt] <;> omega

theorem sweep_subset (space base count high : Nat) (small : base < space) (window : high < space) :
    sweep space base count ⊆ interval 0 high ↔ count = 0 ∨ base + count ≤ high := by
  constructor
  · intro inside
    by_contra outside
    by_cases beyond : space ≤ base + count
    · have := inside (sweep_wraps space base count small beyond)
      have := this.2
      omega
    · have last : base + count - 1 ∈ sweep space base count := by
        rw [sweep_eq_interval space base count (by omega)]
        constructor <;> omega
      have := (inside last).2
      omega
  · rintro (rfl | within)
    · simp [sweep_empty]
    · rw [sweep_eq_interval space base count (by omega)]
      intro b inside
      exact ⟨Nat.zero_le b, by have := inside.2; omega⟩

section pages
variable (page : Nat)

/-- Every byte of a page that holds a byte of `bytes`. -/
def pages (bytes : Set Nat) : Set Nat := {b | ∃ c ∈ bytes, c / page = b / page}

theorem subset_pages (bytes : Set Nat) : bytes ⊆ pages page bytes :=
  fun b inside => ⟨b, inside, rfl⟩

theorem pages_empty : pages page ∅ = ∅ := by
  ext b
  simp [pages]

theorem pages_interval (base count : Nat) (some : 0 < count) :
    pages page (interval base count) =
      {b | base / page ≤ b / page ∧ b / page ≤ (base + count - 1) / page} := by
  ext b
  constructor
  · rintro ⟨c, ⟨low, high⟩, same⟩
    have first : base / page ≤ c / page := Nat.div_le_div_right low
    have last : c / page ≤ (base + count - 1) / page := Nat.div_le_div_right (by omega)
    exact ⟨by omega, by omega⟩
  · rintro ⟨first, last⟩
    -- the byte of b's page nearest to the request
    by_cases low : b < base
    · exact ⟨base, ⟨le_rfl, by omega⟩, le_antisymm first (Nat.div_le_div_right (by omega))⟩
    · by_cases high : b < base + count
      · exact ⟨b, ⟨by omega, high⟩, rfl⟩
      · exact ⟨base + count - 1, ⟨by omega, by omega⟩,
          le_antisymm (Nat.div_le_div_right (by omega)) last⟩

end pages

end RtThread.Lib
