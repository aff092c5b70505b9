import RtThread.Kservice.Bytewise
import RtThread.Mem.SmallMemBlocks

/-! `rt_calloc`, `rt_malloc_align` and `rt_free_align` of `kservice.c`, for any `rt_malloc`. A pointer has four bytes. -/

set_option autoImplicit false
namespace RtThread.Kservice.Bytewise
open Lib

def rtAlignSize : Nat := 8

/-- A block that `rt_malloc` may return for `request` bytes. -/
structure Granted (request ptr : UInt32) (capacity : Nat) : Prop where
  aligned : rtAlignSize ∣ ptr.toNat
  enough : request.toNat ≤ capacity
  inside : ptr.toNat + capacity ≤ 2 ^ 32

section calls
variable (rtMalloc : UInt32 → UInt32) (mem : Memory)

def rtCalloc (count size : UInt32) : Memory × UInt32 :=
  let p := rtMalloc (count * size)
  if p ≠ 0 then (rtMemset mem p 0 (count * size), p) else (mem, p)

/-- What `rt_malloc_align` makes of its second argument. -/
def alignUp (align : UInt32) : UInt32 := (align + 3) &&& ~~~3

/-- What `rt_malloc_align` asks `rt_malloc` for. -/
def alignSize (size align : UInt32) : UInt32 := ((size + 3) &&& ~~~3) + alignUp align

def rtMallocAlign (size align : UInt32) : Memory × UInt32 :=
  let ptr := rtMalloc (alignSize size align)
  let align := alignUp align
  if ptr ≠ 0 then
    let alignPtr := if ptr &&& (align - 1) = 0 then ptr + align else (ptr + (align - 1)) &&& ~~~(align - 1)
    (store32 mem (alignPtr - 4).toNat ptr, alignPtr)
  else (mem, ptr)

/-- The pointer that `rt_free_align` hands to `rt_free`. -/
def rtFreeAlign (ptr : UInt32) : Option UInt32 := if ptr = 0 then none else some (load32 mem (ptr - 4).toNat)

end calls

/-- Whatever block `rt_malloc` grants, there are as many bytes as the product of the numbers, all zero. -/
def CallocSound (count size : UInt32) : Prop :=
  ∀ (rtMalloc : UInt32 → UInt32) (mem : Memory) (capacity : Nat),
    (rtMalloc (count * size) ≠ 0 → Granted (count * size) (rtMalloc (count * size)) capacity) →
    (rtCalloc rtMalloc mem count size).2 ≠ 0 →
    count.toNat * size.toNat ≤ capacity ∧
      ∀ i < count.toNat * size.toNat,
        (rtCalloc rtMalloc mem count size).1 ((rtCalloc rtMalloc mem count size).2.toNat + i) = 0

/-- Whatever block `rt_malloc` grants, the result is aligned, the bytes and the pointer in front of them are in the block,
and as long as the pointer is not overwritten the block is what is freed. -/
def AlignSound (size align : UInt32) : Prop :=
  ∀ (rtMalloc : UInt32 → UInt32) (mem : Memory) (capacity : Nat),
    (rtMalloc (alignSize size align) ≠ 0 →
      Granted (alignSize size align) (rtMalloc (alignSize size align)) capacity) →
    (rtMallocAlign rtMalloc mem size align).2 ≠ 0 →
    align.toNat ∣ (rtMallocAlign rtMalloc mem size align).2.toNat ∧
      (rtMalloc (alignSize size align)).toNat + 4 ≤ (rtMallocAlign rtMalloc mem size align).2.toNat ∧
      (rtMallocAlign rtMalloc mem size align).2.toNat + size.toNat ≤
        (rtMalloc (alignSize size align)).toNat + capacity ∧
      ∀ later : Memory,
        (∀ i < 4, later (((rtMallocAlign rtMalloc mem size align).2 - 4).toNat + i) =
          (rtMallocAlign rtMalloc mem size align).1 (((rtMallocAlign rtMalloc mem size align).2 - 4).toNat + i)) →
        rtFreeAlign later (rtMallocAlign rtMalloc mem size align).2 = some (rtMalloc (alignSize size align))

/-! ## `rt_calloc` -/

theorem mul_toNat (a b : UInt32) : (a * b).toNat = a.toNat * b.toNat % 2 ^ 32 := UInt32.toNat_mul a b

theorem calloc_iff (count size : UInt32) :
    CallocSound count size ↔ count.toNat * size.toNat < 2 ^ 32 ∨ 2 ^ 32 < rtAlignSize + (count * size).toNat := by
  have product := mul_toNat count size
  constructor
  · intro sound
    by_contra wraps
    rw [not_or, Nat.not_lt, Nat.not_lt] at wraps
    have enough := (sound (fun _ => 8) (fun _ => 0) (count * size).toNat
      (fun _ => ⟨Nat.dvd_refl 8, Nat.le_refl _, wraps.2⟩) (by rw [rtCalloc, if_pos (by decide)]; exact (by decide : (8 : UInt32) ≠ 0))).1
    have word := (count * size).toNat_lt
    omega
  · intro fits rtMalloc mem capacity granted some
    have result : (rtCalloc rtMalloc mem count size).2 = rtMalloc (count * size) := by
      unfold rtCalloc
      dsimp only
      split <;> rfl
    rw [result] at some ⊢
    obtain ⟨aligned, enough, inside⟩ := granted some
    have positive : 8 ≤ (rtMalloc (count * size)).toNat :=
      Nat.le_of_dvd (Nat.pos_of_ne_zero fun zero => some (eq_zero_iff.mpr zero)) aligned
    have exact' : (count * size).toNat = count.toNat * size.toNat := by
      obtain less | none := fits
      · rw [product, Nat.mod_eq_of_lt less]
      · unfold rtAlignSize at none
        omega
    refine ⟨exact' ▸ enough, fun i less => ?_⟩
    rw [← exact'] at less
    have byte := (rtMemset_wrote mem (rtMalloc (count * size)) 0 (count * size)).byte i less
    rw [offset_toNat, Nat.mod_eq_of_lt (by omega)] at byte
    unfold rtCalloc
    dsimp only
    rw [if_pos some]
    exact byte

/-! ## `rt_malloc_align` -/

section masks
variable {a x : UInt32} {k : Nat}

theorem log_lt (power : a.toNat = 2 ^ k) : k < 32 :=
  (Nat.pow_lt_pow_iff_right (by decide : 1 < 2)).mp (power ▸ a.toNat_lt)

theorem sub_one_toNat (power : a.toNat = 2 ^ k) : (a - 1).toNat = 2 ^ k - 1 := by
  have positive : 0 < 2 ^ k := Nat.two_pow_pos k
  have one : (1 : UInt32).toNat = 1 := rfl
  rw [sub_toNat (by omega), power, one]

theorem low_zero (power : a.toNat = 2 ^ k) : x &&& (a - 1) = 0 ↔ 2 ^ k ∣ x.toNat := by
  rw [eq_zero_iff, UInt32.toNat_and, sub_one_toNat power, Nat.and_two_pow_sub_one_eq_mod]
  exact Nat.dvd_iff_mod_eq_zero.symm

theorem clear_low (power : a.toNat = 2 ^ k) : (x &&& ~~~(a - 1)).toNat = x.toNat / 2 ^ k * 2 ^ k := by
  have less := log_lt power
  have size : 2 ^ k ≤ 2 ^ 31 := Nat.pow_le_pow_right (by decide) (by omega)
  have positive : 0 < 2 ^ k := Nat.two_pow_pos k
  have cleared := Mem.Config.mask_eq ⟨32, k, 1, 0, 0, Nat.le_of_lt less, by decide, by omega⟩ x.toNat x.toNat_lt
  have mask : (~~~(a - 1)).toNat = 2 ^ 32 - 2 ^ k := by
    rw [UInt32.toNat_not, sub_one_toNat power]
    change 2 ^ 32 - 1 - (2 ^ k - 1) = _
    omega
  rw [UInt32.toNat_and, mask]
  exact cleared

theorem clear_two (x : UInt32) : (x &&& ~~~3).toNat = x.toNat / 4 * 4 := clear_low (a := 4) (k := 2) rfl

theorem alignUp_toNat (power : a.toNat = 2 ^ k) : (alignUp a).toNat = 2 ^ max k 2 := by
  have less := log_lt power
  have all : ∀ k < 32, (alignUp (UInt32.ofNat (2 ^ k))).toNat = 2 ^ max k 2 := by decide +kernel
  have same : a = UInt32.ofNat (2 ^ k) := by
    rw [← power, UInt32.ofNat_toNat]
  rw [same]
  exact all k less

end masks

theorem rtMallocAlign_null {rtMalloc : UInt32 → UInt32} {mem : Memory} {size align : UInt32}
    (none : rtMalloc (alignSize size align) = 0) : (rtMallocAlign rtMalloc mem size align).2 = 0 := by
  unfold rtMallocAlign
  dsimp only
  rw [if_neg (not_not.mpr none)]
  exact none

theorem place (ptr : UInt32) {align : UInt32} {k : Nat} (power : align.toNat = 2 ^ k) (least : 2 ≤ k) (eight : 8 ∣ ptr.toNat)
    (fits : ptr.toNat + align.toNat ≤ 2 ^ 32) (less : ptr.toNat + align.toNat < 2 ^ 32 ∨ ¬2 ^ k ∣ ptr.toNat)
    {p : UInt32} (placed : (if ptr &&& (align - 1) = 0 then ptr + align else (ptr + (align - 1)) &&& ~~~(align - 1)) = p) :
    2 ^ k ∣ p.toNat ∧ ptr.toNat + 4 ≤ p.toNat ∧ p.toNat ≤ ptr.toNat + align.toNat := by
  have four : 4 ≤ 2 ^ k := Nat.pow_le_pow_right (by decide : 0 < 2) least
  by_cases even : 2 ^ k ∣ ptr.toNat
  · rw [if_pos ((low_zero power).mpr even)] at placed
    have value := add_toNat (less.resolve_right (not_not.mpr even))
    rw [← placed, value, power]
    exact ⟨Nat.dvd_add even (Nat.dvd_refl _), by omega, Nat.le_refl _⟩
  · rw [if_neg (mt (low_zero power).mp even)] at placed
    have more : 3 < k := by
      by_contra small
      exact even (Nat.dvd_trans (Nat.pow_dvd_pow 2 (Nat.le_of_not_lt small)) eight)
    have eight' : 8 ∣ 2 ^ k := Nat.pow_dvd_pow 2 (by omega : 3 ≤ k)
    have sum : (ptr + (align - 1)).toNat = ptr.toNat + (2 ^ k - 1) := by
      rw [add_toNat, sub_one_toNat power]
      rw [sub_one_toNat power]
      omega
    have value : p.toNat = (ptr.toNat + (2 ^ k - 1)) / 2 ^ k * 2 ^ k := by
      rw [← placed, clear_low power, sum]
    have split := Nat.div_add_mod (ptr.toNat + (2 ^ k - 1)) (2 ^ k)
    have rest := Nat.mod_lt (ptr.toNat + (2 ^ k - 1)) (Nat.two_pow_pos k)
    rw [Nat.mul_comm, ← value] at split
    have multiple : 2 ^ k ∣ p.toNat := value ▸ Nat.dvd_mul_left _ _
    have differ : p.toNat ≠ ptr.toNat := fun same => even (same ▸ multiple)
    obtain ⟨i, ptrEq⟩ := eight
    obtain ⟨j, pEq⟩ := Nat.dvd_trans eight' multiple
    exact ⟨multiple, by omega, by omega⟩

theorem align_iff (size align : UInt32) (power : ∃ k, align.toNat = 2 ^ k) :
    AlignSound size align ↔ (size.toNat + 3) / 4 * 4 + max align.toNat 4 < 2 ^ 32 := by
  obtain ⟨k, power⟩ := power
  have up := alignUp_toNat power
  have most : max align.toNat 4 = 2 ^ max k 2 := by
    rw [power]
    obtain small | large := Nat.le_total k 2
    · rw [Nat.max_eq_right small]
      exact Nat.max_eq_right (Nat.pow_le_pow_right (by decide : 2 > 0) small)
    · rw [Nat.max_eq_left large]
      exact Nat.max_eq_left (Nat.pow_le_pow_right (by decide : 2 > 0) large)
  have limit : 2 ^ max k 2 ≤ 2 ^ 31 := Nat.pow_le_pow_right (by decide) (by have := log_lt power; omega)
  have least : 4 ≤ 2 ^ max k 2 := Nat.pow_le_pow_right (by decide : 0 < 2) (Nat.le_max_right k 2)
  have word := size.toNat_lt
  have request : (alignSize size align).toNat = ((size.toNat + 3) % 2 ^ 32 / 4 * 4 + 2 ^ max k 2) % 2 ^ 32 := by
    rw [alignSize, UInt32.toNat_add, clear_two, up, UInt32.toNat_add]
    rfl
  have result (rtMalloc : UInt32 → UInt32) (mem : Memory) (some : rtMalloc (alignSize size align) ≠ 0) :
      ∃ p, (if rtMalloc (alignSize size align) &&& (alignUp align - 1) = 0 then
          rtMalloc (alignSize size align) + alignUp align
        else (rtMalloc (alignSize size align) + (alignUp align - 1)) &&& ~~~(alignUp align - 1)) = p ∧
        rtMallocAlign rtMalloc mem size align = (store32 mem (p - 4).toNat (rtMalloc (alignSize size align)), p) :=
    ⟨_, rfl, if_pos some⟩
  rw [most]
  constructor
  · intro sound
    by_contra wraps
    obtain ⟨p, placed, returned⟩ := result (fun _ => 8) (fun _ => 0) (by decide)
    have eight : (8 : UInt32).toNat = 8 := rfl
    obtain ⟨-, behind, -⟩ := place 8 up (Nat.le_max_right k 2) (Nat.dvd_refl 8) (by rw [up, eight]; omega)
      (Or.inl (by rw [up, eight]; omega)) placed
    have granted : Granted (alignSize size align) 8 (alignSize size align).toNat :=
      ⟨Nat.dvd_refl 8, Nat.le_refl _, by rw [request, eight]; omega⟩
    have whole := sound (fun _ => 8) (fun _ => 0) (alignSize size align).toNat (fun _ => granted)
    rw [returned] at whole
    have some : p ≠ 0 := by
      rintro rfl
      exact absurd behind (by decide)
    obtain ⟨-, -, inside, -⟩ := whole some
    dsimp only at inside
    rw [request] at inside
    omega
  · intro fits rtMalloc mem capacity granted some
    have block : rtMalloc (alignSize size align) ≠ 0 := fun none => some (rtMallocAlign_null none)
    obtain ⟨aligned, enough, inside⟩ := granted block
    obtain ⟨p, placed, returned⟩ := result rtMalloc mem block
    rw [returned] at some ⊢
    dsimp only at some ⊢
    generalize rtMalloc (alignSize size align) = ptr at *
    rw [request, Nat.mod_eq_of_lt (by omega : size.toNat + 3 < 2 ^ 32), Nat.mod_eq_of_lt fits] at enough
    have less : ptr.toNat + (alignUp align).toNat < 2 ^ 32 ∨ ¬2 ^ max k 2 ∣ ptr.toNat := by
      by_contra round
      rw [not_or, not_not] at round
      rw [if_pos ((low_zero up).mpr round.2)] at placed
      refine some (eq_zero_iff.mpr ?_)
      rw [← placed, UInt32.toNat_add]
      omega
    obtain ⟨multiple, behind, within⟩ := place _ up (Nat.le_max_right k 2) aligned (by omega) less placed
    refine ⟨power ▸ Nat.dvd_trans (Nat.pow_dvd_pow 2 (Nat.le_max_left k 2)) multiple, behind, by omega, ?_⟩
    intro later same
    rw [rtFreeAlign, if_neg some, load32_congr same, load32_store32]

/-! ## Both -/

/-- The allocators that are made from `rt_malloc` do not give less than they are asked for just if their sums and
products do not wrap. -/
theorem derived_iff (count size alignedSize align : UInt32) (power : ∃ k, align.toNat = 2 ^ k) :
    (CallocSound count size ∧ AlignSound alignedSize align) ↔
      (count.toNat * size.toNat < 2 ^ 32 ∨ 2 ^ 32 < rtAlignSize + (count * size).toNat) ∧
        (alignedSize.toNat + 3) / 4 * 4 + max align.toNat 4 < 2 ^ 32 :=
  and_congr (calloc_iff count size) (align_iff alignedSize align power)

theorem derived_small : CallocSound 1000 24 ∧ AlignSound 100 64 :=
  (derived_iff 1000 24 100 64 ⟨6, rfl⟩).mpr (by decide)

/-- 2^16 + 1 objects of 2^16 bytes: 2^16 bytes are what is asked for. All but three bytes of the address space, at a
multiple of 8: 8 bytes are. -/
theorem derived_wraps : ¬CallocSound 65537 65536 ∧ ¬AlignSound 4294967293 8 :=
  ⟨fun sound => absurd ((calloc_iff 65537 65536).mp sound) (by decide),
    fun sound => absurd ((align_iff 4294967293 8 ⟨3, rfl⟩).mp sound) (by decide)⟩

end RtThread.Kservice.Bytewise
