import Mathlib.Data.List.Basic

/-! Stretches of a ring of cells, read and written as lists. -/

set_option autoImplicit false
namespace RtThread.Lib

variable {α : Type} {slot slot' : Nat → α} {size start start' count more : Nat} {data : List α}

/-- The `count` cells from `start` on, round the ring. -/
def window (slot : Nat → α) (size start count : Nat) : List α :=
  (List.range count).map fun i => slot ((start + i) % size)

theorem window_length : (window slot size start count).length = count := by simp [window]

theorem window_zero : window slot size start 0 = [] := rfl

theorem window_add : window slot size start (count + more) =
    window slot size start count ++ window slot size (start + count) more := by
  simp only [window, List.range_add, List.map_append, List.map_map, Function.comp_def, Nat.add_assoc]

theorem window_congr (same : start % size = start' % size) :
    window slot size start count = window slot size start' count := by
  apply List.map_congr_left
  intro i _
  simp only [Nat.add_mod start i, Nat.add_mod start' i, same]

theorem window_take (le : count ≤ more) :
    (window slot size start more).take count = window slot size start count := by
  obtain ⟨rest, rfl⟩ := Nat.exists_eq_add_of_le le
  rw [window_add, List.take_left' window_length]

theorem window_drop (le : count ≤ more) :
    (window slot size start more).drop count = window slot size (start + count) (more - count) := by
  obtain ⟨rest, rfl⟩ := Nat.exists_eq_add_of_le le
  rw [window_add, List.drop_left' window_length, Nat.add_sub_cancel_left]

/-- `data` is written into the ring from `start` on, and nothing else. -/
structure Written (slot slot' : Nat → α) (size start : Nat) (data : List α) : Prop where
  here : ∀ i (inside : i < data.length), slot' ((start + i) % size) = data[i]
  rest : ∀ a, (∀ i < data.length, (start + i) % size ≠ a) → slot' a = slot a

theorem Written.window (written : Written slot slot' size start data) :
    window slot' size start data.length = data := by
  apply List.ext_getElem window_length
  intro i _ inside
  simp only [Lib.window, List.getElem_map, List.getElem_range]
  exact written.here i inside

theorem ring_apart {a b : Nat} (less : a < b) (near : b < a + size) : a % size ≠ b % size := by
  intro same
  have whole : size ∣ b - a := Nat.dvd_of_mod_eq_zero (Nat.sub_mod_eq_zero_of_mod_eq same.symm)
  have far := Nat.le_of_dvd (by omega) whole
  omega

theorem Written.before (written : Written slot slot' size start data)
    (meets : (start' + count) % size = start % size) (room : count + data.length ≤ size) :
    Lib.window slot' size start' count = Lib.window slot size start' count := by
  apply List.map_congr_left
  intro j inside
  have low := List.mem_range.mp inside
  apply written.rest
  intro i short
  have place : (start + i) % size = (start' + count + i) % size := by
    rw [Nat.add_mod, ← meets, ← Nat.add_mod]
  rw [place]
  exact (ring_apart (by omega) (by omega)).symm

theorem Written.nil (slot : Nat → α) (size start : Nat) : Written slot slot size start [] where
  here i inside := absurd inside (Nat.not_lt_zero i)
  rest _ _ := rfl

theorem Written.snoc (written : Written slot slot' size start data) (room : data.length < size) (v : α) :
    Written slot (Function.update slot' ((start + data.length) % size) v) size start (data ++ [v]) where
  here i inside := by
    rw [List.length_append, List.length_singleton] at inside
    rcases Nat.lt_succ_iff_lt_or_eq.mp inside with less | rfl
    · have apart : (start + i) % size ≠ (start + data.length) % size := ring_apart (by omega) (by omega)
      rw [Function.update_of_ne apart, written.here i less, List.getElem_append_left less]
    · rw [Function.update_self, List.getElem_concat_length rfl]
  rest a outside := by
    have apart : a ≠ (start + data.length) % size := fun same => outside data.length (by simp) same.symm
    rw [Function.update_of_ne apart]
    exact written.rest a fun i less => outside i (by simp only [List.length_append]; omega)

theorem Written.append {mid : Nat → α} {next : List α} (first : Written slot mid size start data)
    (second : Written mid slot' size (start + data.length) next) (room : data.length + next.length ≤ size) :
    Written slot slot' size start (data ++ next) where
  here i inside := by
    rcases Nat.lt_or_ge i data.length with less | more
    · have apart : slot' ((start + i) % size) = mid ((start + i) % size) :=
        second.rest _ fun j short => (ring_apart (by omega) (by omega)).symm
      rw [apart, first.here i less, List.getElem_append_left less]
    · obtain ⟨j, rfl⟩ := Nat.exists_eq_add_of_le more
      rw [List.length_append] at inside
      rw [← Nat.add_assoc, second.here j (by omega), List.getElem_append_right more]
      simp
  rest a outside := by
    have later := second.rest a fun i less => by
      rw [Nat.add_assoc]
      exact outside _ (by rw [List.length_append]; omega)
    rw [later]
    exact first.rest a fun i less => outside i (by rw [List.length_append]; omega)

theorem Written.congr (written : Written slot slot' size start data) (same : start % size = start' % size) :
    Written slot slot' size start' data where
  here i inside := by
    rw [Nat.add_mod, ← same, ← Nat.add_mod]
    exact written.here i inside
  rest a outside := written.rest a fun i less => by
    rw [Nat.add_mod, same, ← Nat.add_mod]
    exact outside i less

theorem window_part (same : window slot' size start count = window slot size start count) {off n : Nat}
    (fits : off + n ≤ count) : window slot' size (start + off) n = window slot size (start + off) n := by
  have tails := congrArg (List.drop off) same
  rw [window_drop (by omega), window_drop (by omega)] at tails
  have parts := congrArg (List.take n) tails
  rwa [window_take (by omega), window_take (by omega)] at parts

section straight

/-- The cells from `start` on, not round the ring -/
def cells (slot : Nat → α) (start count : Nat) : List α := (List.range count).map fun i => slot (start + i)

def setCells (slot : Nat → α) (start : Nat) (data : List α) : Nat → α := fun a =>
  if inside : start ≤ a ∧ a - start < data.length then data[a - start] else slot a

theorem cells_eq_window (room : start + count ≤ size) : cells slot start count = window slot size start count := by
  apply List.map_congr_left
  intro i inside
  rw [Nat.mod_eq_of_lt (by have := List.mem_range.mp inside; omega)]

theorem setCells_written (room : start + data.length ≤ size) : Written slot (setCells slot start data) size start data where
  here i inside := by
    rw [Nat.mod_eq_of_lt (by omega), setCells, dif_pos ⟨Nat.le_add_right _ _, by omega⟩]
    simp
  rest a outside := by
    refine dif_neg fun inside => ?_
    have here := outside (a - start) inside.2
    rw [Nat.mod_eq_of_lt (by omega)] at here
    omega

end straight

theorem Written.forced {lost : Nat} (written : Written slot slot' size start data)
    (meets : (start' + count) % size = start % size) (fewer : lost ≤ count)
    (room : count - lost + data.length ≤ size) :
    Lib.window slot' size (start' + lost) (count - lost + data.length) =
      (Lib.window slot size start' count ++ data).drop lost := by
  have further : start' + lost + (count - lost) = start' + count := by omega
  have meets' : (start' + lost + (count - lost)) % size = start % size := by rw [further, meets]
  rw [window_add, written.before meets' room, window_congr meets', written.window, List.drop_append_of_le_length
    (by rw [window_length]; exact fewer), window_drop fewer]

end RtThread.Lib
