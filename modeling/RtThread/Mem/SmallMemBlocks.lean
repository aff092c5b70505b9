import RtThread.Lib.Tiling
import RtThread.Mem.SmallMem

/-! The heap as a list of blocks.

`Listed` says that the items threaded through the region spell a given list of
blocks. The four edits of `mem.c` (mark, split, merge forward, merge backward)
become edits of the list.
-/

set_option autoImplicit false

namespace RtThread.Mem

open RtThread.Lib

structure Block where
  capacity : Nat
  used : Bool
  deriving DecidableEq, Repr

variable (cfg : Config)

def blockSize (b : Block) : Nat := cfg.sizeofStructMem + b.capacity

/-- The items from `offset` on describe `blocks`; `prev` is the block before. -/
def Linked (item : Nat → SmallMemItem) : Nat → Nat → List Block → Prop
  | _, _, [] => True
  | prev, offset, b :: rest =>
    item offset = ⟨true, b.used, offset + blockSize cfg b, prev⟩ ∧
      Linked item offset (offset + blockSize cfg b) rest

/-- The start of the last block, `prev` when there is none. -/
def lastOffset : Nat → Nat → List Block → Nat
  | prev, _, [] => prev
  | _, offset, b :: rest => lastOffset offset (offset + blockSize cfg b) rest

def firstFree : Nat → List Block → Nat
  | offset, [] => offset
  | offset, b :: rest => if b.used then firstFree (offset + blockSize cfg b) rest else offset

def Coalesced (blocks : List Block) : Prop := blocks.IsChain (fun a b => a.used = true ∨ b.used = true)

/-- The heap's items describe `blocks`, which fill the region up to `heap_end`. -/
structure Listed (h : SmallMem) (blocks : List Block) : Prop where
  linked : Linked cfg h.item 0 0 blocks
  total : span (blockSize cfg) blocks = h.heapEnd
  end_eq : h.heapEnd = h.memSizeAligned + cfg.sizeofStructMem
  end_pool : (h.item h.heapEnd).pool = true
  end_used : (h.item h.heapEnd).used = true
  aligned : ∀ b ∈ blocks, cfg.alignSize ∣ b.capacity

/-! ## Alignment -/

namespace Config

theorem word_eq : cfg.word = cfg.alignSize * 2 ^ (cfg.wordBits - cfg.alignBits) := by
  unfold word alignSize
  rw [← Nat.pow_add]
  congr 1
  have := cfg.align_le
  omega

theorem alignSize_pos : 0 < cfg.alignSize := Nat.two_pow_pos _

theorem mask_eq (value : Nat) (bound : value < cfg.word) :
    value &&& (cfg.word - cfg.alignSize) = value / cfg.alignSize * cfg.alignSize := by
  apply Nat.eq_of_testBit_eq
  intro i
  have shape : cfg.word - cfg.alignSize =
      2 ^ cfg.alignBits * (2 ^ (cfg.wordBits - cfg.alignBits) - 1) := by
    rw [word_eq, alignSize, Nat.mul_sub, Nat.mul_one]
  rw [shape, alignSize, Nat.mul_comm (value / _), Nat.testBit_and, Nat.testBit_two_pow_mul,
    Nat.testBit_two_pow_mul, Nat.testBit_two_pow_sub_one, ← Nat.shiftRight_eq_div_pow,
    Nat.testBit_shiftRight]
  by_cases low : cfg.alignBits ≤ i
  · by_cases high : i < cfg.wordBits
    · have inside : i - cfg.alignBits < cfg.wordBits - cfg.alignBits := by omega
      simp [low, inside]
    · have zero : value.testBit i = false :=
        Nat.testBit_lt_two_pow (Nat.lt_of_lt_of_le bound (Nat.pow_le_pow_right (by decide) (by omega)))
      simp [low, zero]
  · simp [low]

theorem rtAlign_eq (size : Nat) : cfg.rtAlign size =
    (size + (cfg.alignSize - 1)) % cfg.word / cfg.alignSize * cfg.alignSize :=
  cfg.mask_eq _ (Nat.mod_lt _ (Nat.two_pow_pos _))

theorem rtAlign_dvd (size : Nat) : cfg.alignSize ∣ cfg.rtAlign size := by
  rw [rtAlign_eq]
  exact Nat.dvd_mul_left _ _

theorem rtAlignDown_dvd (size : Nat) (bound : size < cfg.word) :
    cfg.alignSize ∣ cfg.rtAlignDown size := by
  rw [rtAlignDown, cfg.mask_eq _ bound]
  exact Nat.dvd_mul_left _ _

theorem rtAlign_ge (size : Nat) (fits : size + cfg.alignSize ≤ cfg.word) : size ≤ cfg.rtAlign size := by
  have positive := cfg.alignSize_pos
  rw [rtAlign_eq, Nat.mod_eq_of_lt (by omega)]
  have := Nat.div_add_mod (size + (cfg.alignSize - 1)) cfg.alignSize
  have := Nat.mod_lt (size + (cfg.alignSize - 1)) positive
  rw [Nat.mul_comm]
  omega

theorem rtAlign_le {size bound : Nat} (fits : size + cfg.alignSize ≤ cfg.word) (le : size ≤ bound)
    (aligned : cfg.alignSize ∣ bound) : cfg.rtAlign size ≤ bound := by
  have positive := cfg.alignSize_pos
  rw [rtAlign_eq, Nat.mod_eq_of_lt (by omega)]
  obtain ⟨count, rfl⟩ := aligned
  rw [Nat.mul_comm cfg.alignSize count]
  apply Nat.mul_le_mul_right
  have : (size + (cfg.alignSize - 1)) / cfg.alignSize < count + 1 := by
    rw [Nat.div_lt_iff_lt_mul positive, Nat.add_mul, Nat.mul_comm count]
    omega
  omega

theorem rtAlign_lt (size : Nat) : cfg.rtAlign size < cfg.word := by
  rw [rtAlign_eq]
  exact Nat.lt_of_le_of_lt (Nat.div_mul_le_self _ _) (Nat.mod_lt _ (Nat.two_pow_pos _))

theorem rtAlign_of_dvd {size : Nat} (aligned : cfg.alignSize ∣ size) (bound : size < cfg.word) :
    cfg.rtAlign size = size := by
  have positive := cfg.alignSize_pos
  have room : size + cfg.alignSize ≤ cfg.word := by
    rw [word_eq] at bound ⊢
    obtain ⟨count, rfl⟩ := aligned
    rw [← Nat.mul_succ]
    exact Nat.mul_le_mul_left _ (Nat.lt_of_mul_lt_mul_left bound)
  exact Nat.le_antisymm (cfg.rtAlign_le room (Nat.le_refl _) aligned) (cfg.rtAlign_ge _ room)

theorem sizeofStructMem_dvd : cfg.alignSize ∣ cfg.sizeofStructMem := cfg.rtAlign_dvd _

theorem minSizeAligned_dvd : cfg.alignSize ∣ cfg.minSizeAligned := cfg.rtAlign_dvd _

theorem sizeofStructMem_pos : 0 < cfg.sizeofStructMem :=
  Nat.lt_of_lt_of_le cfg.item_pos (cfg.rtAlign_ge _ cfg.item_fits)

end Config

theorem blockSize_pos (b : Block) : 0 < blockSize cfg b := by
  have := cfg.sizeofStructMem_pos
  unfold blockSize
  omega

theorem blockSize_dvd {b : Block} (aligned : cfg.alignSize ∣ b.capacity) :
    cfg.alignSize ∣ blockSize cfg b :=
  Nat.dvd_add cfg.sizeofStructMem_dvd aligned

theorem span_dvd {blocks : List Block} (aligned : ∀ b ∈ blocks, cfg.alignSize ∣ b.capacity) :
    cfg.alignSize ∣ span (blockSize cfg) blocks := by
  induction blocks with
  | nil => exact Nat.dvd_zero _
  | cons b rest ih =>
    exact Nat.dvd_add (blockSize_dvd cfg (aligned b (by simp)))
      (ih fun c member => aligned c (by simp [member]))

/-! ## Chains of items -/

theorem lastOffset_append (prev offset : Nat) (first rest : List Block) :
    lastOffset cfg prev offset (first ++ rest) =
      lastOffset cfg (lastOffset cfg prev offset first) (offset + span (blockSize cfg) first) rest := by
  induction first generalizing prev offset with
  | nil => simp [lastOffset]
  | cons b first ih => simp [lastOffset, ih, Nat.add_assoc]

theorem lastOffset_concat (prev offset : Nat) (first : List Block) (b : Block) :
    lastOffset cfg prev offset (first ++ [b]) = offset + span (blockSize cfg) first := by
  simp [lastOffset_append, lastOffset]

theorem linked_append {item : Nat → SmallMemItem} {prev offset : Nat} {first rest : List Block} :
    Linked cfg item prev offset (first ++ rest) ↔
      Linked cfg item prev offset first ∧
        Linked cfg item (lastOffset cfg prev offset first) (offset + span (blockSize cfg) first) rest := by
  induction first generalizing prev offset with
  | nil => simp [Linked, lastOffset]
  | cons b first ih => simp [Linked, lastOffset, ih, and_assoc, Nat.add_assoc]

theorem Linked.congr {item other : Nat → SmallMemItem} {prev offset : Nat} {blocks : List Block}
    (linked : Linked cfg item prev offset blocks)
    (same : ∀ entry ∈ layout (blockSize cfg) offset blocks, other entry.1 = item entry.1) :
    Linked cfg other prev offset blocks := by
  induction blocks generalizing prev offset with
  | nil => trivial
  | cons b rest ih =>
    refine ⟨(same (offset, b) (by simp)).trans linked.1, ih linked.2 fun entry member => ?_⟩
    exact same entry (by simp [member])

theorem Linked.update {item : Nat → SmallMemItem} {prev offset : Nat} {blocks : List Block}
    (linked : Linked cfg item prev offset blocks) (place : Nat) (value : SmallMemItem)
    (outside : place < offset ∨ offset + span (blockSize cfg) blocks ≤ place) :
    Linked cfg (Function.update item place value) prev offset blocks := by
  apply linked.congr
  intro entry member
  have bounds := layout_bounds (blockSize cfg) (show (entry.1, entry.2) ∈ _ from member)
  have positive := blockSize_pos cfg entry.2
  exact Function.update_of_ne (by omega) _ _

theorem Linked.update_prev {item : Nat → SmallMemItem} {prev offset : Nat} {blocks : List Block}
    (linked : Linked cfg item prev offset blocks) (other : Nat) :
    Linked cfg (Function.update item offset ((item offset).withPrev other)) other offset blocks := by
  cases blocks with
  | nil => trivial
  | cons b rest =>
    refine ⟨?_, ?_⟩
    · simp [linked.1, SmallMemItem.withPrev]
    · have positive := blockSize_pos cfg b
      exact linked.2.update cfg _ _ (.inl (by omega))

theorem Listed.item_at {h : SmallMem} {first rest : List Block} {b : Block}
    (listed : Listed cfg h (first ++ b :: rest)) :
    h.item (span (blockSize cfg) first) =
      ⟨true, b.used, span (blockSize cfg) first + blockSize cfg b, lastOffset cfg 0 0 first⟩ := by
  have tail := ((linked_append cfg).mp listed.linked).2
  rw [Nat.zero_add] at tail
  exact tail.1

/-! ## Neighbours and the lowest free block -/

theorem coalesced_used {first rest : List Block} {capacity : Nat} :
    Coalesced (first ++ ⟨capacity, true⟩ :: rest) ↔ Coalesced first ∧ Coalesced rest := by
  unfold Coalesced
  rw [List.isChain_append]
  cases rest with
  | nil => simp
  | cons b rest => simp

theorem coalesced_free {first rest : List Block} {capacity : Nat} :
    Coalesced (first ++ ⟨capacity, false⟩ :: rest) ↔
      Coalesced first ∧ Coalesced rest ∧ (∀ b ∈ first.getLast?, b.used = true) ∧
        ∀ b ∈ rest.head?, b.used = true := by
  unfold Coalesced
  rw [List.isChain_append]
  cases rest with
  | nil => simp
  | cons b rest =>
    simp only [List.isChain_cons_cons, List.head?_cons, Option.mem_def, Option.some.injEq,
      forall_eq', Bool.false_eq_true, false_or, or_false]
    tauto

theorem firstFree_append_used {offset : Nat} {first : List Block} (rest : List Block)
    (used : ∀ b ∈ first, b.used = true) : firstFree cfg offset (first ++ rest) =
      firstFree cfg (offset + span (blockSize cfg) first) rest := by
  induction first generalizing offset with
  | nil => simp
  | cons b first ih =>
    simp only [List.cons_append, firstFree, used b (by simp), if_true, span_cons, ← Nat.add_assoc]
    exact ih fun c member => used c (by simp [member])

theorem firstFree_append_free (offset : Nat) {first : List Block} (rest other : List Block)
    (free : ∃ b ∈ first, b.used = false) :
    firstFree cfg offset (first ++ rest) = firstFree cfg offset (first ++ other) ∧
      firstFree cfg offset (first ++ rest) < offset + span (blockSize cfg) first := by
  induction first generalizing offset with
  | nil => simp at free
  | cons b first ih =>
    have positive := blockSize_pos cfg b
    cases status : b.used with
    | false =>
      simp only [List.cons_append, firstFree, status, Bool.false_eq_true, if_false, span_cons]
      exact ⟨trivial, by omega⟩
    | true =>
      have later : ∃ c ∈ first, c.used = false := by
        obtain ⟨c, member, cFree⟩ := free
        rcases List.mem_cons.mp member with rfl | member
        · simp [status] at cFree
        · exact ⟨c, member, cFree⟩
      simp only [List.cons_append, firstFree, status, if_true, span_cons, ← Nat.add_assoc]
      exact ih _ later

theorem firstFree_le (offset : Nat) (first rest : List Block) (capacity : Nat) :
    firstFree cfg offset (first ++ ⟨capacity, false⟩ :: rest) ≤ offset + span (blockSize cfg) first := by
  by_cases free : ∃ b ∈ first, b.used = false
  · exact Nat.le_of_lt (firstFree_append_free cfg _ _ [] free).2
  · rw [firstFree_append_used cfg _ (by simpa using free)]
    simp [firstFree]

theorem firstFree_mark (offset : Nat) (first rest : List Block) (capacity : Nat) :
    firstFree cfg offset (first ++ ⟨capacity, false⟩ :: rest) =
      if offset + span (blockSize cfg) first < firstFree cfg offset (first ++ ⟨capacity, true⟩ :: rest)
      then offset + span (blockSize cfg) first
      else firstFree cfg offset (first ++ ⟨capacity, true⟩ :: rest) := by
  by_cases free : ∃ b ∈ first, b.used = false
  · obtain ⟨same, below⟩ := firstFree_append_free cfg offset
      (⟨capacity, true⟩ :: rest) (⟨capacity, false⟩ :: rest) free
    rw [if_neg (by omega), same]
  · have used : ∀ b ∈ first, b.used = true := by simpa using free
    rw [firstFree_append_used cfg _ used, firstFree_append_used cfg _ used]
    have above : ∀ (start : Nat) (blocks : List Block), start ≤ firstFree cfg start blocks := by
      intro start blocks
      induction blocks generalizing start with
      | nil => exact Nat.le_refl _
      | cons b blocks ih =>
        simp only [firstFree]
        split
        · exact Nat.le_trans (Nat.le_add_right _ _) (ih _)
        · exact Nat.le_refl _
    have later := above (offset + span (blockSize cfg) first + blockSize cfg ⟨capacity, true⟩) rest
    have positive := blockSize_pos cfg ⟨capacity, true⟩
    simp only [firstFree, Bool.false_eq_true, if_false, if_true]
    rw [if_pos (by omega)]

end RtThread.Mem
