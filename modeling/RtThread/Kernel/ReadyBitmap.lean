import Mathlib.Tactic.Common

/-! The ready bitmap of the scheduler.

One word marks the priorities that have a ready thread. With more than 32
priorities the word marks bytes of a table, and the bytes mark the priorities.
-/

set_option autoImplicit false

namespace RtThread.Kernel

def lowestBitBitmap : List Nat :=
  [0, 0, 1, 0, 2, 0, 1, 0, 3, 0, 1, 0, 2, 0, 1, 0,
   4, 0, 1, 0, 2, 0, 1, 0, 3, 0, 1, 0, 2, 0, 1, 0,
   5, 0, 1, 0, 2, 0, 1, 0, 3, 0, 1, 0, 2, 0, 1, 0,
   4, 0, 1, 0, 2, 0, 1, 0, 3, 0, 1, 0, 2, 0, 1, 0,
   6, 0, 1, 0, 2, 0, 1, 0, 3, 0, 1, 0, 2, 0, 1, 0,
   4, 0, 1, 0, 2, 0, 1, 0, 3, 0, 1, 0, 2, 0, 1, 0,
   5, 0, 1, 0, 2, 0, 1, 0, 3, 0, 1, 0, 2, 0, 1, 0,
   4, 0, 1, 0, 2, 0, 1, 0, 3, 0, 1, 0, 2, 0, 1, 0,
   7, 0, 1, 0, 2, 0, 1, 0, 3, 0, 1, 0, 2, 0, 1, 0,
   4, 0, 1, 0, 2, 0, 1, 0, 3, 0, 1, 0, 2, 0, 1, 0,
   5, 0, 1, 0, 2, 0, 1, 0, 3, 0, 1, 0, 2, 0, 1, 0,
   4, 0, 1, 0, 2, 0, 1, 0, 3, 0, 1, 0, 2, 0, 1, 0,
   6, 0, 1, 0, 2, 0, 1, 0, 3, 0, 1, 0, 2, 0, 1, 0,
   4, 0, 1, 0, 2, 0, 1, 0, 3, 0, 1, 0, 2, 0, 1, 0,
   5, 0, 1, 0, 2, 0, 1, 0, 3, 0, 1, 0, 2, 0, 1, 0,
   4, 0, 1, 0, 2, 0, 1, 0, 3, 0, 1, 0, 2, 0, 1, 0]

/-- `__rt_ffs`: one more than the index of the lowest set bit, 0 for 0. -/
def rtFfs (value : BitVec 32) : Nat :=
  if value = 0#32 then 0
  else if value &&& 0xff#32 ≠ 0#32 then lowestBitBitmap.getD (value &&& 0xff#32).toNat 0 + 1
  else if value &&& 0xff00#32 ≠ 0#32 then lowestBitBitmap.getD ((value &&& 0xff00#32) >>> 8).toNat 0 + 9
  else if value &&& 0xff0000#32 ≠ 0#32 then
    lowestBitBitmap.getD ((value &&& 0xff0000#32) >>> 16).toNat 0 + 17
  else lowestBitBitmap.getD ((value &&& 0xff000000#32) >>> 24).toNat 0 + 25

/-- The priority attribute a thread caches: `number`, `number_mask` and `high_mask`. -/
structure PriorityMask where
  number : Nat
  numberMask : BitVec 32
  highMask : BitVec 8
  deriving DecidableEq, Repr

/-- What `_thread_init` leaves in the attribute. -/
def PriorityMask.zero : PriorityMask := ⟨0, 0#32, 0#8⟩

/-- `rt_thread_ready_priority_group` and `rt_thread_ready_table` -/
structure ReadyBitmap where
  group : BitVec 32
  table : Nat → BitVec 8

namespace ReadyBitmap

-- `RT_THREAD_PRIORITY_MAX`
variable (priorityMax : Nat)

def empty : ReadyBitmap := ⟨0#32, fun _ => 0#8⟩

/-- The attribute calculated from a priority. The layout for at most 32
priorities has no `number` and no `high_mask`. -/
def maskOf (priority : Nat) : PriorityMask :=
  if 32 < priorityMax then ⟨priority >>> 3, 1#32 <<< (priority >>> 3), 1#8 <<< (priority &&& 7)⟩
  else ⟨0, 1#32 <<< priority, 0#8⟩

/-- The marking half of `rt_schedule_insert_thread`. -/
def set (b : ReadyBitmap) (mask : PriorityMask) : ReadyBitmap :=
  if 32 < priorityMax then
    { table := Function.update b.table mask.number (b.table mask.number ||| mask.highMask)
      group := b.group ||| mask.numberMask }
  else { b with group := b.group ||| mask.numberMask }

/-- The unmarking half of `rt_schedule_remove_thread`. -/
def clear (b : ReadyBitmap) (mask : PriorityMask) : ReadyBitmap :=
  if 32 < priorityMax then
    let table := Function.update b.table mask.number (b.table mask.number &&& ~~~mask.highMask)
    { table := table
      group := if table mask.number = 0#8 then b.group &&& ~~~mask.numberMask else b.group }
  else { b with group := b.group &&& ~~~mask.numberMask }

/-- The priority computed by `_scheduler_get_highest_priority_thread`. -/
def highest (b : ReadyBitmap) : Nat :=
  if 32 < priorityMax then
    let number := rtFfs b.group - 1
    (number <<< 3) + rtFfs ((b.table number).setWidth 32) - 1
  else rtFfs b.group - 1

end ReadyBitmap

/-! ## The lowest set bit -/

theorem lowestBitBitmap_spec : ∀ byte < 256, byte ≠ 0 →
    byte.testBit (lowestBitBitmap.getD byte 0) = true ∧
      ∀ i < lowestBitBitmap.getD byte 0, byte.testBit i = false := by
  decide +kernel

/-- `place` is the lowest set bit of `value`. -/
def Lowest {w : Nat} (value : BitVec w) (place : Nat) : Prop :=
  value.getLsbD place = true ∧ ∀ i < place, value.getLsbD i = false

theorem getLsbD_byte (i : Nat) : (0xff#32).getLsbD i = decide (i < 8) := by
  rw [BitVec.getLsbD, BitVec.toNat_ofNat]
  exact Nat.testBit_two_pow_sub_one 8 i

theorem lowest_byte (value mask : BitVec 32) (shift : Nat) (shape : mask = 0xff#32 <<< shift)
    (fits : shift + 8 ≤ 32) (marked : value &&& mask ≠ 0#32) (below : ∀ i < shift, value.getLsbD i = false) :
    Lowest value (lowestBitBitmap.getD ((value &&& mask) >>> shift).toNat 0 + shift) := by
  have bit : ∀ i, ((value &&& mask) >>> shift).toNat.testBit i = (value.getLsbD (i + shift) && decide (i < 8)) := by
    intro i
    rw [BitVec.testBit_toNat, BitVec.getLsbD_ushiftRight, BitVec.getLsbD_and, shape, BitVec.getLsbD_shiftLeft,
      Nat.add_sub_cancel_left, getLsbD_byte, Nat.add_comm shift]
    by_cases low : i < 8
    · have inside : i + shift < 32 := by omega
      simp [low, inside]
    · simp [low]
  generalize ((value &&& mask) >>> shift).toNat = byte at bit
  have bound : byte < 2 ^ 8 := by
    refine Nat.lt_pow_two_of_testBit byte fun i high => ?_
    rw [bit]
    simp [Nat.not_lt.mpr high]
  have nonzero : byte ≠ 0 := by
    rintro rfl
    refine marked (BitVec.eq_of_getLsbD_eq fun i _ => ?_)
    rw [BitVec.getLsbD_and, BitVec.getLsbD_zero, shape, BitVec.getLsbD_shiftLeft, getLsbD_byte]
    by_cases low : i < shift
    · simp [low]
    · have here := (bit (i - shift)).symm.trans (Nat.zero_testBit _)
      rw [Nat.sub_add_cancel (by omega)] at here
      by_cases high : i - shift < 8
      · have clear : value.getLsbD i = false := by simpa [high] using here
        simp [clear]
      · simp [high]
  obtain ⟨here, lower⟩ := lowestBitBitmap_spec byte bound nonzero
  rw [bit] at here
  obtain ⟨hit, index⟩ := Bool.and_eq_true_iff.mp here
  refine ⟨hit, fun i small => ?_⟩
  by_cases inside : i < shift
  · exact below i inside
  · have index : lowestBitBitmap.getD byte 0 < 8 := of_decide_eq_true index
    have clear := lower (i - shift) (by omega)
    rw [bit, Nat.sub_add_cancel (by omega)] at clear
    have low : i - shift < 8 := by omega
    simpa [low] using clear

theorem byte_clear (value mask : BitVec 32) (shift : Nat) (shape : mask = 0xff#32 <<< shift)
    (fits : shift + 8 ≤ 32) (zero : value &&& mask = 0#32) :
    ∀ i, shift ≤ i → i < shift + 8 → value.getLsbD i = false := by
  intro i low high
  have bit : (value &&& mask).getLsbD i = false := by rw [zero]; exact BitVec.getLsbD_zero
  rw [BitVec.getLsbD_and, shape, BitVec.getLsbD_shiftLeft, getLsbD_byte] at bit
  have inside : i < 32 := by omega
  have offset : i - shift < 8 := by omega
  simpa only [inside, offset, Nat.not_lt.mpr low, decide_true, decide_false, Bool.not_false, Bool.and_true] using bit

theorem rtFfs_spec (value : BitVec 32) (nonzero : value ≠ 0#32) :
    0 < rtFfs value ∧ Lowest value (rtFfs value - 1) := by
  unfold rtFfs
  rw [if_neg nonzero]
  by_cases first : value &&& 0xff#32 ≠ 0#32
  · rw [if_pos first]
    exact ⟨by omega, lowest_byte value _ 0 (by decide) (by decide) first (by simp)⟩
  rw [if_neg first]
  have clear₁ := byte_clear value _ 0 (by decide) (by decide) (not_not.mp first)
  by_cases second : value &&& 0xff00#32 ≠ 0#32
  · rw [if_pos second]
    exact ⟨by omega, lowest_byte value _ 8 (by decide) (by decide) second fun i low => clear₁ i (by omega) low⟩
  rw [if_neg second]
  have clear₂ : ∀ i < 16, value.getLsbD i = false := by
    intro i low
    by_cases early : i < 8
    · exact clear₁ i (by omega) early
    · exact byte_clear value _ 8 (by decide) (by decide) (not_not.mp second) i (by omega) low
  by_cases third : value &&& 0xff0000#32 ≠ 0#32
  · rw [if_pos third]
    exact ⟨by omega, lowest_byte value _ 16 (by decide) (by decide) third clear₂⟩
  rw [if_neg third]
  have clear₃ : ∀ i < 24, value.getLsbD i = false := by
    intro i low
    by_cases early : i < 16
    · exact clear₂ i early
    · exact byte_clear value _ 16 (by decide) (by decide) (not_not.mp third) i (by omega) low
  have fourth : value &&& 0xff000000#32 ≠ 0#32 := by
    intro zero
    refine nonzero (BitVec.eq_of_getLsbD_eq fun i inside => ?_)
    rw [BitVec.getLsbD_zero]
    by_cases early : i < 24
    · exact clear₃ i early
    · exact byte_clear value _ 24 (by decide) (by decide) zero i (by omega) inside
  exact ⟨by omega, lowest_byte value _ 24 (by decide) (by decide) fourth clear₃⟩

theorem getLsbD_one_shiftLeft {w : Nat} (place i : Nat) (inside : i < w) (fits : place < w) :
    (1#w <<< place).getLsbD i = decide (i = place) := by
  rw [BitVec.getLsbD_shiftLeft, BitVec.getLsbD_one]
  by_cases low : i < place
  · have apart : i ≠ place := by omega
    simp [low, apart]
  · by_cases same : i = place
    · subst same; simp [inside]; omega
    · have later : i - place ≠ 0 := by omega
      simp [later, same]

namespace ReadyBitmap

variable (priorityMax : Nat)

/-- The bitmap marks exactly the priorities in `occupied`. -/
def Marks (b : ReadyBitmap) (occupied : Nat → Prop) : Prop :=
  if 32 < priorityMax then
    (∀ number < 32, ∀ i < 8, (b.table number).getLsbD i = true ↔ occupied (8 * number + i)) ∧
      ∀ number < 32, b.group.getLsbD number = true ↔ b.table number ≠ 0#8
  else ∀ priority < 32, b.group.getLsbD priority = true ↔ occupied priority

theorem marks_empty : Marks priorityMax empty fun _ => False := by
  unfold Marks empty
  split <;> simp

theorem Marks.congr {b : ReadyBitmap} {occupied other : Nat → Prop} (marks : Marks priorityMax b occupied)
    (same : ∀ p, occupied p ↔ other p) : Marks priorityMax b other := by
  have : occupied = other := funext fun p => propext (same p)
  exact this ▸ marks

theorem number_lt {priority : Nat} (bound : priority < priorityMax) (limit : priorityMax ≤ 256) :
    priority >>> 3 < 32 ∧ priority &&& 7 < 8 ∧ 8 * (priority >>> 3) + (priority &&& 7) = priority := by
  have low : priority &&& 7 = priority % 8 := Nat.and_two_pow_sub_one_eq_mod priority 3
  rw [Nat.shiftRight_eq_div_pow, low]
  omega

theorem Marks.set {b : ReadyBitmap} {occupied : Nat → Prop} (marks : Marks priorityMax b occupied)
    {priority : Nat} (bound : priority < priorityMax) (limit : priorityMax ≤ 256) :
    Marks priorityMax (b.set priorityMax (maskOf priorityMax priority)) fun q => q = priority ∨ occupied q := by
  by_cases wide : 32 < priorityMax
  · obtain ⟨number, index, whole⟩ := number_lt priorityMax bound limit
    simp only [Marks, if_pos wide, ReadyBitmap.set, maskOf] at marks ⊢
    obtain ⟨bytes, words⟩ := marks
    generalize priority >>> 3 = n at number whole ⊢
    generalize priority &&& 7 = j at index whole ⊢
    have byte : ∀ m < 32, ∀ i < 8, (Function.update b.table n (b.table n ||| 1#8 <<< j) m).getLsbD i = true ↔
        (8 * m + i = priority ∨ occupied (8 * m + i)) := by
      intro m hm i hi
      by_cases same : m = n
      · subst same
        rw [Function.update_self, BitVec.getLsbD_or, Bool.or_eq_true, bytes m hm i hi,
          getLsbD_one_shiftLeft j i hi index, decide_eq_true_eq]
        rw [← whole]
        constructor
        · rintro (marked | rfl)
          · exact .inr marked
          · exact .inl rfl
        · rintro (same | marked)
          · exact .inr (by omega)
          · exact .inl marked
      · rw [Function.update_of_ne same, bytes m hm i hi]
        have apart : 8 * m + i ≠ priority := by omega
        simp [apart]
    refine ⟨byte, fun m hm => ?_⟩
    rw [BitVec.getLsbD_or, Bool.or_eq_true, words m hm, getLsbD_one_shiftLeft n m hm number, decide_eq_true_eq]
    by_cases same : m = n
    · subst same
      have marked := (byte m hm j index).mpr (.inl whole)
      simp only [or_true, true_iff]
      intro zero
      rw [zero, BitVec.getLsbD_zero] at marked
      cases marked
    · rw [Function.update_of_ne same]
      simp [same]
  · simp only [Marks, if_neg wide, ReadyBitmap.set, maskOf] at marks ⊢
    intro q hq
    rw [BitVec.getLsbD_or, Bool.or_eq_true, marks q hq, getLsbD_one_shiftLeft priority q hq (by omega),
      decide_eq_true_eq]
    exact or_comm

theorem Marks.clear {b : ReadyBitmap} {occupied : Nat → Prop} (marks : Marks priorityMax b occupied)
    {priority : Nat} (bound : priority < priorityMax) (limit : priorityMax ≤ 256) :
    Marks priorityMax (b.clear priorityMax (maskOf priorityMax priority)) fun q => q ≠ priority ∧ occupied q := by
  by_cases wide : 32 < priorityMax
  · obtain ⟨number, index, whole⟩ := number_lt priorityMax bound limit
    simp only [Marks, if_pos wide, ReadyBitmap.clear, maskOf] at marks ⊢
    obtain ⟨bytes, words⟩ := marks
    generalize priority >>> 3 = n at number whole ⊢
    generalize priority &&& 7 = j at index whole ⊢
    have byte : ∀ m < 32, ∀ i < 8, (Function.update b.table n (b.table n &&& ~~~(1#8 <<< j)) m).getLsbD i = true ↔
        (8 * m + i ≠ priority ∧ occupied (8 * m + i)) := by
      intro m hm i hi
      by_cases same : m = n
      · subst same
        rw [Function.update_self, BitVec.getLsbD_and, Bool.and_eq_true, bytes m hm i hi, BitVec.getLsbD_not,
          getLsbD_one_shiftLeft j i hi index, ← whole]
        simp only [hi, decide_true, Bool.true_and, Bool.not_eq_true', decide_eq_false_iff_not]
        constructor
        · rintro ⟨marked, other⟩
          exact ⟨by omega, marked⟩
        · rintro ⟨other, marked⟩
          exact ⟨marked, by omega⟩
      · rw [Function.update_of_ne same, bytes m hm i hi]
        have apart : 8 * m + i ≠ priority := by omega
        simp [apart]
    refine ⟨byte, fun m hm => ?_⟩
    by_cases same : m = n
    · subst same
      rw [Function.update_self]
      split
      case isTrue zero =>
        rw [BitVec.getLsbD_and, BitVec.getLsbD_not, getLsbD_one_shiftLeft m m hm number]
        simp [zero]
      case isFalse left =>
        rw [words m hm]
        refine ⟨fun _ => left, fun _ zero => left ?_⟩
        rw [zero, BitVec.zero_and]
    · rw [Function.update_of_ne same, ← words m hm]
      split
      · rw [BitVec.getLsbD_and, BitVec.getLsbD_not, getLsbD_one_shiftLeft n m hm number]
        simp [hm, same]
      · exact Iff.rfl
  · simp only [Marks, if_neg wide, ReadyBitmap.clear, maskOf] at marks ⊢
    intro q hq
    rw [BitVec.getLsbD_and, Bool.and_eq_true, marks q hq, BitVec.getLsbD_not,
      getLsbD_one_shiftLeft priority q hq (by omega)]
    simp [hq, and_comm]

theorem Marks.group_zero {b : ReadyBitmap} {occupied : Nat → Prop} (marks : Marks priorityMax b occupied)
    (limit : priorityMax ≤ 256) (zero : b.group = 0#32) {q : Nat} (bound : q < priorityMax) : ¬ occupied q := by
  intro marked
  by_cases wide : 32 < priorityMax
  · simp only [Marks, if_pos wide] at marks
    have whole : 8 * (q / 8) + q % 8 = q := by omega
    have bit := (marks.1 (q / 8) (by omega) (q % 8) (by omega)).mpr (whole.symm ▸ marked)
    have empty : b.table (q / 8) = 0#8 := by
      by_contra some
      have := (marks.2 (q / 8) (by omega)).mpr some
      rw [zero, BitVec.getLsbD_zero] at this
      cases this
    rw [empty, BitVec.getLsbD_zero] at bit
    cases bit
  · simp only [Marks, if_neg wide] at marks
    have bit := (marks q (by omega)).mpr marked
    rw [zero, BitVec.getLsbD_zero] at bit
    cases bit

theorem Marks.highest {b : ReadyBitmap} {occupied : Nat → Prop} (marks : Marks priorityMax b occupied)
    (limit : priorityMax ≤ 256) (inside : ∀ q, occupied q → q < priorityMax) (some : b.group ≠ 0#32) :
    occupied (b.highest priorityMax) ∧ ∀ q, occupied q → b.highest priorityMax ≤ q := by
  obtain ⟨-, here, below⟩ := rtFfs_spec b.group some
  have word := BitVec.lt_of_getLsbD here
  by_cases wide : 32 < priorityMax
  · simp only [Marks, if_pos wide, ReadyBitmap.highest] at marks ⊢
    obtain ⟨bytes, words⟩ := marks
    generalize rtFfs b.group - 1 = n at here below word ⊢
    have used := (words n word).mp here
    have widened : (b.table n).setWidth 32 ≠ 0#32 := by
      intro zero
      refine used (BitVec.eq_of_getLsbD_eq fun i hi => ?_)
      have bit : ((b.table n).setWidth 32).getLsbD i = false := by rw [zero]; exact BitVec.getLsbD_zero
      rw [BitVec.getLsbD_setWidth] at bit
      have wider : i < 32 := by omega
      simpa [wider] using bit
    obtain ⟨positive, hit, lower⟩ := rtFfs_spec _ widened
    have place : n <<< 3 + rtFfs ((b.table n).setWidth 32) - 1 =
        8 * n + (rtFfs ((b.table n).setWidth 32) - 1) := by
      rw [Nat.shiftLeft_eq]; omega
    rw [place]
    generalize rtFfs ((b.table n).setWidth 32) - 1 = j at hit lower ⊢
    rw [BitVec.getLsbD_setWidth, Bool.and_eq_true] at hit
    have index := BitVec.lt_of_getLsbD hit.2
    refine ⟨(bytes n word j index).mp hit.2, fun q marked => ?_⟩
    by_contra early
    have whole : 8 * (q / 8) + q % 8 = q := by omega
    have bound := inside q marked
    have bit := (bytes (q / 8) (by omega) (q % 8) (by omega)).mpr (whole.symm ▸ marked)
    rcases Nat.lt_or_ge (q / 8) n with before | after
    · have clear := below (q / 8) before
      have zero : ¬ b.table (q / 8) ≠ 0#8 := fun some => by
        rw [(words (q / 8) (by omega)).mpr some] at clear
        cases clear
      rw [not_not.mp zero, BitVec.getLsbD_zero] at bit
      cases bit
    · have same : q / 8 = n := by omega
      rw [same] at bit
      have clear := lower (q % 8) (by omega)
      have wider : q % 8 < 32 := by omega
      rw [BitVec.getLsbD_setWidth, bit] at clear
      simp [wider] at clear
  · simp only [Marks, if_neg wide, ReadyBitmap.highest] at marks ⊢
    refine ⟨(marks _ word).mp here, fun q marked => ?_⟩
    by_contra early
    have bound := inside q marked
    have clear := below q (by omega)
    rw [(marks q (by omega)).mpr marked] at clear
    cases clear

end ReadyBitmap

end RtThread.Kernel
