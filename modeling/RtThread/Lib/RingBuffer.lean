import Mathlib.Data.List.Basic

/-! A ring of slots written from both ends, as a list. -/

set_option autoImplicit false

namespace RtThread.Lib

variable {α : Type}

/-- Slots `out`, `out + 1`, … modulo `size`; `into` is the slot behind the last one. -/
structure RingBuffer (α : Type) where
  slot : Nat → α
  size : Nat
  entry : Nat
  into : Nat
  out : Nat

namespace RingBuffer

def contents (r : RingBuffer α) : List α := (List.range r.entry).map fun i => r.slot ((r.out + i) % r.size)

structure WellFormed (r : RingBuffer α) : Prop where
  room : r.entry ≤ r.size
  out : r.out < r.size
  into : r.into = (r.out + r.entry) % r.size

def clear (r : RingBuffer α) : RingBuffer α := { r with entry := 0, into := 0, out := 0 }

def pushBack (r : RingBuffer α) (v : α) : RingBuffer α :=
  { r with
    slot := Function.update r.slot r.into v
    into := if r.into + 1 < r.size then r.into + 1 else 0
    entry := r.entry + 1 }

def before (r : RingBuffer α) : Nat := if 0 < r.out then r.out - 1 else r.size - 1

def pushFront (r : RingBuffer α) (v : α) : RingBuffer α :=
  { r with slot := Function.update r.slot r.before v, out := r.before, entry := r.entry + 1 }

def popFront (r : RingBuffer α) : RingBuffer α :=
  { r with out := if r.out + 1 < r.size then r.out + 1 else 0, entry := r.entry - 1 }

variable {r : RingBuffer α}

theorem contents_length (r : RingBuffer α) : r.contents.length = r.entry := by
  simp [contents]

theorem WellFormed.into_lt (wf : r.WellFormed) : r.into < r.size := by
  rw [wf.into]
  exact Nat.mod_lt _ (by have := wf.out; omega)

theorem succ_mod {i size : Nat} (inside : i < size) :
    (if i + 1 < size then i + 1 else 0) = (i + 1) % size := by
  split
  case isTrue less => rw [Nat.mod_eq_of_lt less]
  case isFalse beyond =>
    have last : i + 1 = size := by omega
    rw [last, Nat.mod_self]

theorem WellFormed.before_lt (wf : r.WellFormed) : r.before < r.size := by
  have := wf.out
  unfold before
  split <;> omega

theorem WellFormed.before_succ (wf : r.WellFormed) : (r.before + 1) % r.size = r.out := by
  have := wf.out
  unfold before
  split
  case isTrue positive =>
    have same : r.out - 1 + 1 = r.out := by omega
    rw [same, Nat.mod_eq_of_lt wf.out]
  case isFalse zero =>
    have last : r.size - 1 + 1 = r.size := by omega
    rw [last, Nat.mod_self]
    omega

theorem clear_wellFormed (positive : 0 < r.size) : r.clear.WellFormed where
  room := Nat.zero_le _
  out := positive
  into := by simp [clear]

theorem WellFormed.pushBack (wf : r.WellFormed) (v : α) (free : r.entry < r.size) :
    (r.pushBack v).WellFormed where
  room := free
  out := wf.out
  into := by
    have next : (r.pushBack v).into = (r.into + 1) % r.size := succ_mod wf.into_lt
    rw [next, wf.into, Nat.mod_add_mod]
    rfl

-- The slot behind the last one is none of the occupied ones while the ring is not full.
section
variable (wf : r.WellFormed)
include wf

theorem WellFormed.into_fresh {i : Nat} (inside : i < r.entry)
    (free : r.entry < r.size) : (r.out + i) % r.size ≠ r.into := by
  rw [wf.into]
  intro same
  have small := wf.out
  rcases Nat.lt_or_ge (r.out + i) r.size with flat | beyond
  · rw [Nat.mod_eq_of_lt flat] at same
    rcases Nat.lt_or_ge (r.out + r.entry) r.size with flat' | beyond'
    · rw [Nat.mod_eq_of_lt flat'] at same
      omega
    · rw [Nat.mod_eq_sub_mod beyond', Nat.mod_eq_of_lt (by omega)] at same
      omega
  · rw [Nat.mod_eq_sub_mod beyond, Nat.mod_eq_of_lt (by omega),
      Nat.mod_eq_sub_mod (a := r.out + r.entry) (by omega), Nat.mod_eq_of_lt (by omega)] at same
    omega

theorem contents_pushBack (v : α) (free : r.entry < r.size) :
    (r.pushBack v).contents = r.contents ++ [v] := by
  have last : (r.pushBack v).slot ((r.out + r.entry) % r.size) = v := by
    rw [← wf.into]
    exact Function.update_self ..
  have rest : ∀ i ∈ List.range r.entry, (r.pushBack v).slot ((r.out + i) % r.size) =
      r.slot ((r.out + i) % r.size) := by
    intro i listed
    exact Function.update_of_ne (wf.into_fresh (List.mem_range.mp listed) free) ..
  have unfolded : (r.pushBack v).contents =
      (List.range (r.entry + 1)).map fun i => (r.pushBack v).slot ((r.out + i) % r.size) := rfl
  rw [unfolded, List.range_succ, List.map_append, List.map_congr_left rest]
  simp only [List.map_cons, List.map_nil, last]
  rfl

theorem WellFormed.pushFront (v : α) (free : r.entry < r.size) :
    (r.pushFront v).WellFormed where
  room := free
  out := wf.before_lt
  into := by
    have shifted : r.before + (r.entry + 1) = r.before + 1 + r.entry := by omega
    have unfolded : ((r.pushFront v).out + (r.pushFront v).entry) % (r.pushFront v).size =
        (r.before + (r.entry + 1)) % r.size := rfl
    rw [unfolded, shifted, Nat.add_mod, wf.before_succ, ← Nat.mod_eq_of_lt wf.out, ← Nat.add_mod]
    exact wf.into

theorem contents_pushFront (v : α) (free : r.entry < r.size) :
    (r.pushFront v).contents = v :: r.contents := by
  have shifted : ∀ i, (r.before + (i + 1)) % r.size = (r.out + i) % r.size := by
    intro i
    have same : r.before + (i + 1) = r.before + 1 + i := by omega
    rw [same, Nat.add_mod, wf.before_succ, ← Nat.mod_eq_of_lt wf.out, ← Nat.add_mod,
      Nat.mod_eq_of_lt wf.out]
  have first : (r.pushFront v).slot ((r.before + 0) % r.size) = v := by
    rw [Nat.add_zero, Nat.mod_eq_of_lt wf.before_lt]
    exact Function.update_self ..
  -- the slot in front of the first one is the one behind a last one that is not there
  have fresh : ∀ i < r.entry, (r.out + i) % r.size ≠ r.before := by
    intro i less same
    have small := wf.out
    have next := wf.before_succ
    rw [← same, Nat.mod_add_mod] at next
    have shift : (r.out + (i + 1)) % r.size = r.out := by rw [← Nat.add_assoc, next]
    rcases Nat.lt_or_ge (r.out + (i + 1)) r.size with flat | beyond
    · rw [Nat.mod_eq_of_lt flat] at shift
      omega
    · rw [Nat.mod_eq_sub_mod beyond, Nat.mod_eq_of_lt (by omega)] at shift
      omega
  have rest : ∀ i ∈ List.range r.entry, (r.pushFront v).slot ((r.before + (i + 1)) % r.size) =
      r.slot ((r.out + i) % r.size) := by
    intro i listed
    rw [shifted]
    exact Function.update_of_ne (fresh i (List.mem_range.mp listed)) ..
  have unfolded : (r.pushFront v).contents =
      (List.range (r.entry + 1)).map fun i => (r.pushFront v).slot ((r.before + i) % r.size) := rfl
  rw [unfolded, List.range_succ_eq_map, List.map_cons, first, List.map_map]
  congr 1
  exact List.map_congr_left rest

theorem WellFormed.popFront (some : 0 < r.entry) : r.popFront.WellFormed where
  room := by
    have := wf.room
    have unfolded : r.popFront.entry = r.entry - 1 := rfl
    have same : r.popFront.size = r.size := rfl
    omega
  out := by
    have next : r.popFront.out = (r.out + 1) % r.size := succ_mod wf.out
    rw [next]
    exact Nat.mod_lt _ (by have := wf.out; omega)
  into := by
    have next : r.popFront.out = (r.out + 1) % r.size := succ_mod wf.out
    have count : r.popFront.entry = r.entry - 1 := rfl
    have shifted : r.out + 1 + (r.entry - 1) = r.out + r.entry := by omega
    have same : r.popFront.into = r.into := rfl
    have size : r.popFront.size = r.size := rfl
    rw [next, count, same, size, Nat.mod_add_mod, shifted]
    exact wf.into

theorem contents_popFront (some : 0 < r.entry) :
    r.contents = r.slot r.out :: r.popFront.contents := by
  obtain ⟨count, entry⟩ : ∃ count, r.entry = count + 1 := ⟨r.entry - 1, by omega⟩
  have next : r.popFront.out = (r.out + 1) % r.size := succ_mod wf.out
  have unfolded : r.popFront.contents =
      (List.range (r.entry - 1)).map fun i => r.slot ((r.popFront.out + i) % r.size) := rfl
  rw [unfolded, contents, entry, List.range_succ_eq_map, List.map_cons, List.map_map, Nat.add_zero,
    Nat.mod_eq_of_lt wf.out, Nat.add_sub_cancel, next]
  congr 1
  apply List.map_congr_left
  intro i _
  have shifted : r.out + (i + 1) = r.out + 1 + i := by omega
  simp only [Function.comp, Nat.succ_eq_add_one, Nat.mod_add_mod, shifted]

end

end RingBuffer

end RtThread.Lib
