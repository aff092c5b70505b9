import Mathlib.Algebra.Group.Nat.Defs
import RtThread.Lib.Sweep

/-! The on-chip flash driver: mcu_flash_read, mcu_flash_write and mcu_flash_erase over the NVMC calls. -/

set_option autoImplicit false
namespace RtThread.Flash
open Lib

def mcuFlashStartAddress : UInt32 := 0x00000000
def mcuFlashSizeKb : UInt32 := 512
def mcuFlashPageSize : UInt32 := 0x1000
def mcuFlashSize : UInt32 := mcuFlashSizeKb * 1024
def mcuFlashEndAddress : UInt32 := mcuFlashStartAddress + mcuFlashSize

def rtError : Int := 1
def rtEinval : Int := 10

/-- The C cast `(int)size` of a returned size. -/
def asInt (size : UInt32) : Int := size.toInt32.toInt

def getPage (addr : UInt32) : UInt32 :=
  if addr < mcuFlashStartAddress + mcuFlashSize then
    (addr - mcuFlashStartAddress) / mcuFlashPageSize
  else 0xffffffff

inductive NvmcCall where
  | pageErase (addr : UInt32)
  | bytesWrite (addr : UInt32) (src : List UInt8) (numBytes : UInt32)
  | wordsWrite (addr : UInt32) (src : List UInt8) (numWords : UInt32)

/-- The NVMC driver as the flash driver sees it: the result code of a page erase, and which
bytes of memory a call programs or erases. -/
structure Nvmc where
  success : Int
  pageErase : UInt32 → Int
  touches : NvmcCall → Set Nat

structure Nvmc.Exact (nvmc : Nvmc) : Prop where
  erases : ∀ addr, addr % mcuFlashPageSize = 0 → nvmc.pageErase addr = nvmc.success
  page : ∀ addr, addr % mcuFlashPageSize = 0 →
    nvmc.touches (.pageErase addr) =
      interval addr.toNat mcuFlashPageSize.toNat
  bytes : ∀ addr src numBytes, nvmc.touches (.bytesWrite addr src numBytes) =
    sweep (2 ^ 32) addr.toNat numBytes.toNat
  words : ∀ addr src numWords, addr % 4 = 0 → nvmc.touches (.wordsWrite addr src numWords) =
    sweep (2 ^ 32) addr.toNat (4 * numWords.toNat)

structure Loaded where
  status : Int
  loads : List UInt32
  buf : List UInt8

def readBytes (memory : UInt32 → UInt8) (addr : UInt32) : Nat → List UInt32 × List UInt8
  | 0 => ([], [])
  | n + 1 =>
    let rest := readBytes memory (addr + 1) n
    (addr :: rest.1, memory addr :: rest.2)

def mcuFlashRead (memory : UInt32 → UInt8) (addr size : UInt32) : Loaded :=
  if addr + size > mcuFlashEndAddress then ⟨-rtEinval, [], []⟩
  else
    let done := readBytes memory addr size.toNat
    ⟨asInt size, done.1, done.2⟩

structure Changed where
  status : Int
  calls : List NvmcCall

def mcuFlashWrite (addr : UInt32) (buf : List UInt8) (size : UInt32) : Changed :=
  if addr + size > mcuFlashEndAddress then ⟨-rtEinval, []⟩
  else if addr % 4 ≠ 0 then ⟨-rtEinval, []⟩
  else if size < 1 then ⟨-rtError, []⟩
  else if size % 4 ≠ 0 then ⟨asInt size, [.bytesWrite addr buf size]⟩
  else ⟨asInt size, [.wordsWrite addr buf (size / 4)]⟩

/-- The loop of mcu_flash_erase from its index `i`; the count is what the loop has left. -/
def erasePages (nvmc : Nvmc) (firstPage i : UInt32) : Nat → Bool × List NvmcCall
  | 0 => (true, [])
  | n + 1 =>
    let page := (firstPage + i) * mcuFlashPageSize
    if nvmc.pageErase page ≠ nvmc.success then (false, [.pageErase page])
    else
      let rest := erasePages nvmc firstPage (i + 1) n
      (rest.1, .pageErase page :: rest.2)

def nbOfPages (addr size : UInt32) : UInt32 := getPage (addr + size - 1) - getPage addr + 1

def mcuFlashErase (nvmc : Nvmc) (addr size : UInt32) : Changed :=
  if addr + size > mcuFlashEndAddress then ⟨-rtEinval, []⟩
  else
    let done := erasePages nvmc (getPage addr) 0 (nbOfPages addr size).toNat
    if done.1 then ⟨asInt size, done.2⟩ else ⟨-rtEinval, done.2⟩

def Loaded.touched (outcome : Loaded) : Set Nat := {b | ∃ addr ∈ outcome.loads, b = addr.toNat}

def Changed.touched (nvmc : Nvmc) (outcome : Changed) : Set Nat :=
  {b | ∃ call ∈ outcome.calls, b ∈ nvmc.touches call}

def flash : Set Nat := {b | mcuFlashStartAddress.toNat ≤ b ∧ b < mcuFlashEndAddress.toNat}

def Contained (status : Int) (touched : Set Nat) (addr size : UInt32) : Prop :=
  (status < 0 ∧ touched = ∅) ∨ touched ⊆ interval addr.toNat size.toNat ∩ flash

def ErasesPages (status : Int) (touched : Set Nat) (addr size : UInt32) : Prop :=
  (status < 0 ∧ touched = ∅) ∨
    (touched = pages mcuFlashPageSize.toNat (interval addr.toNat size.toNat) ∧ touched ⊆ flash)

@[simp] theorem endAddress_toNat : mcuFlashEndAddress.toNat = 524288 := by decide

@[simp] theorem startAddress_toNat : mcuFlashStartAddress.toNat = 0 := by decide

@[simp] theorem pageSize_toNat : mcuFlashPageSize.toNat = 4096 := by decide

theorem flash_eq : flash = interval 0 524288 := by
  ext b
  simp [flash, interval]

theorem flash_lt (b : Nat) (inside : b ∈ flash) : b < 524288 := by
  simpa using inside.2

-- The range check of the three functions, on numbers: the sum is the wrapped one.
theorem rejected_iff (addr size : UInt32) :
    addr + size > mcuFlashEndAddress ↔ 524288 < (addr.toNat + size.toNat) % 2 ^ 32 := by
  rw [gt_iff_lt, UInt32.lt_iff_toNat_lt, UInt32.toNat_add, endAddress_toNat]

theorem getPage_toNat (addr : UInt32) :
    (getPage addr).toNat = if addr.toNat < 524288 then addr.toNat / 4096 else 2 ^ 32 - 1 := by
  have bound : (mcuFlashStartAddress + mcuFlashSize).toNat = 524288 := by decide
  have start : addr - mcuFlashStartAddress = addr := UInt32.sub_zero addr
  rw [getPage]
  by_cases inside : addr.toNat < 524288
  · rw [if_pos (by rw [UInt32.lt_iff_toNat_lt, bound]; exact inside), if_pos inside, start,
      UInt32.toNat_div, pageSize_toNat]
  · rw [if_neg (by rw [UInt32.lt_iff_toNat_lt, bound]; exact inside), if_neg inside]
    rfl

theorem nbOfPages_toNat (addr size : UInt32) :
    (nbOfPages addr size).toNat =
      (2 ^ 32 - (getPage addr).toNat + (getPage (addr + size - 1)).toNat + 1) % 2 ^ 32 := by
  rw [nbOfPages, UInt32.toNat_add, UInt32.toNat_sub]
  simp only [UInt32.toNat_one, Nat.mod_add_mod]

theorem readBytes_touched (memory : UInt32 → UInt8) (addr : UInt32) (n : Nat) :
    {b | ∃ a ∈ (readBytes memory addr n).1, b = a.toNat} = sweep (2 ^ 32) addr.toNat n := by
  induction n generalizing addr with
  | zero => simp [readBytes, sweep]
  | succ n ih =>
    have next : (addr + 1).toNat = (addr.toNat + 1) % 2 ^ 32 := by simp
    rw [sweep_succ _ _ _ addr.toNat_lt, ← next, ← ih (addr + 1)]
    ext b
    simp [readBytes]

-- Under an exact NVMC the loop runs to its end and erases the pages its page numbers name.
theorem erasePages_exact (nvmc : Nvmc) (exact : nvmc.Exact) (firstPage i : UInt32) (n : Nat) :
    (erasePages nvmc firstPage i n).1 = true ∧
      {b | ∃ call ∈ (erasePages nvmc firstPage i n).2, b ∈ nvmc.touches call} =
        {b | b / 4096 ∈ sweep (2 ^ 20) ((firstPage + i).toNat % 2 ^ 20) n} := by
  induction n generalizing i with
  | zero => simp [erasePages, sweep]
  | succ n ih =>
    have aligned : (firstPage + i) * mcuFlashPageSize % mcuFlashPageSize = 0 := by
      apply UInt32.toNat.inj
      rw [UInt32.toNat_mod, UInt32.toNat_mul, pageSize_toNat]
      simp only [UInt32.toNat_zero]
      omega
    have erased := exact.erases _ aligned
    have next : ((firstPage + i).toNat % 2 ^ 20 + 1) % 2 ^ 20 = (firstPage + (i + 1)).toNat % 2 ^ 20 := by
      rw [← UInt32.add_assoc, UInt32.toNat_add (firstPage + i), UInt32.toNat_one]
      omega
    have touched : ∀ b, b ∈ nvmc.touches (.pageErase ((firstPage + i) * mcuFlashPageSize)) ↔
        b / 4096 = (firstPage + i).toNat % 2 ^ 20 := by
      intro b
      rw [exact.page _ aligned, UInt32.toNat_mul, pageSize_toNat]
      simp only [interval, Set.mem_ofPred_eq]
      omega
    obtain ⟨finished, rest⟩ := ih (i + 1)
    have step : erasePages nvmc firstPage i (n + 1) =
        ((erasePages nvmc firstPage (i + 1) n).1,
          .pageErase ((firstPage + i) * mcuFlashPageSize) ::
            (erasePages nvmc firstPage (i + 1) n).2) := by
      rw [erasePages, if_neg (by simpa using erased)]
    constructor
    · rw [step, finished]
    · rw [step, sweep_succ _ _ _ (Nat.mod_lt _ (by omega)), next]
      ext b
      have tail := Set.ext_iff.mp rest b
      simp only [Set.mem_ofPred_eq] at tail
      simp [tail, touched]

theorem asInt_neg_iff (size : UInt32) : asInt size < 0 ↔ 2 ^ 31 ≤ size.toNat := by
  have small := size.toNat_lt
  have value : asInt size = size.toBitVec.toInt := rfl
  have number : size.toBitVec.toNat = size.toNat := rfl
  rw [value, BitVec.toInt_eq_toNat_cond, number]
  split_ifs <;> omega

theorem sweep_contained (addr size : UInt32) (accepted : ¬addr + size > mcuFlashEndAddress) :
    sweep (2 ^ 32) addr.toNat size.toNat ⊆ interval addr.toNat size.toNat ∩ flash ↔
      addr.toNat + size.toNat < 2 ^ 32 := by
  rw [rejected_iff] at accepted
  have small := addr.toNat_lt
  constructor
  · intro inside
    have window := fun b found => (inside (a := b) found).2
    rw [flash_eq] at window
    have fits := (sweep_subset (2 ^ 32) addr.toNat size.toNat 524288 small (by omega)).mp window
    omega
  · intro fits
    rw [sweep_eq_interval _ _ _ (by omega), flash_eq]
    intro b inside
    have bound := inside.2
    constructor
    · exact inside
    · constructor <;> omega

theorem contained_empty (status : Int) (addr size : UInt32) : Contained status ∅ addr size :=
  Or.inr (Set.empty_subset _)

def ReadHolds (addr size : UInt32) : Prop :=
  mcuFlashEndAddress < addr + size ∨ addr.toNat + size.toNat < 2 ^ 32

theorem read_contained_iff (memory : UInt32 → UInt8) (addr size : UInt32) :
    Contained (mcuFlashRead memory addr size).status (mcuFlashRead memory addr size).touched addr size ↔
      ReadHolds addr size := by
  by_cases rejected : addr + size > mcuFlashEndAddress
  · have nothing : (mcuFlashRead memory addr size).touched = ∅ := by
      rw [mcuFlashRead, if_pos rejected]
      simp [Loaded.touched]
    rw [nothing]
    exact iff_of_true (contained_empty _ addr size) (Or.inl rejected)
  · have outcome : mcuFlashRead memory addr size =
        ⟨asInt size, (readBytes memory addr size.toNat).1, (readBytes memory addr size.toNat).2⟩ := by
      rw [mcuFlashRead, if_neg rejected]
    have touched : (mcuFlashRead memory addr size).touched =
        sweep (2 ^ 32) addr.toNat size.toNat := by
      rw [outcome]
      exact readBytes_touched memory addr size.toNat
    rw [touched, Contained, sweep_contained addr size rejected, ReadHolds]
    constructor
    · rintro (⟨_, none⟩ | fits)
      · -- a read that loads nothing has size 0, which wraps nothing
        have window := sweep_subset (2 ^ 32) addr.toNat size.toNat 0 addr.toNat_lt (by omega)
        rw [none] at window
        have := window.mp (Set.empty_subset _)
        have := addr.toNat_lt
        omega
      · exact Or.inr fits
    · rintro (beyond | fits)
      · exact absurd beyond rejected
      · exact Or.inr fits

theorem touched_nil (nvmc : Nvmc) (outcome : Changed) (nothing : outcome.calls = []) :
    outcome.touched nvmc = ∅ := by
  simp [Changed.touched, nothing]

def WriteHolds (addr size : UInt32) : Prop :=
  mcuFlashEndAddress < addr + size ∨ addr.toNat + size.toNat < 2 ^ 32 ∨ addr % 4 ≠ 0

theorem write_touched (nvmc : Nvmc) (exact : nvmc.Exact) (addr : UInt32) (buf : List UInt8)
    (size : UInt32) (accepted : ¬addr + size > mcuFlashEndAddress) (aligned : addr % 4 = 0)
    (some : ¬size < 1) :
    (mcuFlashWrite addr buf size).touched nvmc = sweep (2 ^ 32) addr.toNat size.toNat := by
  rw [mcuFlashWrite, if_neg accepted, if_neg (not_not.mpr aligned), if_neg some]
  by_cases words : size % 4 = 0
  · have number := congrArg UInt32.toNat words
    rw [UInt32.toNat_mod] at number
    have quarter : 4 * (size / 4).toNat = size.toNat := by
      rw [UInt32.toNat_div]
      simp only [UInt32.reduceToNat] at number ⊢
      omega
    rw [if_neg (not_not.mpr words)]
    simp only [Changed.touched, List.mem_singleton, exists_eq_left,
      exact.words addr buf _ aligned, quarter, Set.ofPred_mem_eq]
  · rw [if_pos words]
    simp [Changed.touched, exact.bytes]

theorem write_contained_iff (nvmc : Nvmc) (exact : nvmc.Exact) (addr : UInt32) (buf : List UInt8)
    (size : UInt32) :
    Contained (mcuFlashWrite addr buf size).status ((mcuFlashWrite addr buf size).touched nvmc)
      addr size ↔ WriteHolds addr size := by
  by_cases rejected : addr + size > mcuFlashEndAddress
  · have nothing : (mcuFlashWrite addr buf size).calls = [] := by
      rw [mcuFlashWrite, if_pos rejected]
    rw [touched_nil nvmc _ nothing]
    exact iff_of_true (contained_empty _ addr size) (Or.inl rejected)
  by_cases unaligned : addr % 4 ≠ 0
  · have nothing : (mcuFlashWrite addr buf size).calls = [] := by
      rw [mcuFlashWrite, if_neg rejected, if_pos unaligned]
    rw [touched_nil nvmc _ nothing]
    exact iff_of_true (contained_empty _ addr size) (Or.inr (Or.inr unaligned))
  by_cases none : size < 1
  · have nothing : (mcuFlashWrite addr buf size).calls = [] := by
      rw [mcuFlashWrite, if_neg rejected, if_neg unaligned, if_pos none]
    have zero : size.toNat = 0 := by
      rw [UInt32.lt_iff_toNat_lt, UInt32.toNat_one] at none
      omega
    have fits : addr.toNat + size.toNat < 2 ^ 32 := by
      have := addr.toNat_lt
      omega
    rw [touched_nil nvmc _ nothing]
    exact iff_of_true (contained_empty _ addr size) (Or.inr (Or.inl fits))
  have some : 0 < size.toNat := by
    rw [UInt32.lt_iff_toNat_lt, UInt32.toNat_one] at none
    omega
  have touched := write_touched nvmc exact addr buf size rejected (not_not.mp unaligned) none
  have first : addr.toNat ∈ sweep (2 ^ 32) addr.toNat size.toNat :=
    ⟨0, some, (Nat.mod_eq_of_lt addr.toNat_lt).symm⟩
  rw [touched, Contained, sweep_contained addr size rejected, WriteHolds]
  constructor
  · rintro (⟨_, none⟩ | fits)
    · rw [none] at first
      exact absurd first (Set.notMem_empty _)
    · exact Or.inr (Or.inl fits)
  · rintro (beyond | fits | odd)
    · exact absurd beyond rejected
    · exact Or.inr fits
    · exact absurd odd unaligned

/-- Where mcu_flash_erase does what it is for: the request is refused, or its sum does not wrap
and it is not an empty one inside a page or at the end of the flash, or it wraps to a page count
of zero (the size is then so large that the returned `int` is negative). -/
def EraseHolds (addr size : UInt32) : Prop :=
  mcuFlashEndAddress < addr + size ∨
    (addr.toNat + size.toNat < 2 ^ 32 ∧
      (0 < size.toNat ∨ (addr.toNat % 4096 = 0 ∧ addr ≠ mcuFlashEndAddress))) ∨
    (2 ^ 32 ≤ addr.toNat + size.toNat ∧ addr < mcuFlashEndAddress ∧
      addr.toNat / 4096 = ((addr + size).toNat + 4095) / 4096)

def erased (addr size : UInt32) : Set Nat :=
  {b | b / 4096 ∈ sweep (2 ^ 20) ((getPage addr).toNat % 2 ^ 20) (nbOfPages addr size).toNat}

theorem erase_accepted (nvmc : Nvmc) (exact : nvmc.Exact) (addr size : UInt32)
    (accepted : ¬addr + size > mcuFlashEndAddress) :
    (mcuFlashErase nvmc addr size).status = asInt size ∧
      (mcuFlashErase nvmc addr size).touched nvmc = erased addr size := by
  obtain ⟨finished, touched⟩ :=
    erasePages_exact nvmc exact (getPage addr) 0 (nbOfPages addr size).toNat
  rw [UInt32.add_zero] at touched
  have outcome : mcuFlashErase nvmc addr size =
      ⟨asInt size, (erasePages nvmc (getPage addr) 0 (nbOfPages addr size).toNat).2⟩ := by
    rw [mcuFlashErase, if_neg accepted]
    simp only [finished, if_true]
  rw [outcome]
  exact ⟨rfl, touched⟩

-- The page after `i` rounds is touched from its first byte on.
theorem erased_round (addr size : UInt32) (i : Nat) (less : i < (nbOfPages addr size).toNat) :
    (((getPage addr).toNat % 2 ^ 20 + i) % 2 ^ 20) * 4096 ∈ erased addr size :=
  ⟨i, less, by omega⟩

theorem erased_none (addr size : UInt32) (none : (nbOfPages addr size).toNat = 0) :
    erased addr size = ∅ := by
  ext b
  simp [erased, none, sweep_empty]

theorem not_flash_of_round (addr size : UInt32) (i : Nat) (less : i < (nbOfPages addr size).toNat)
    (outside : 128 ≤ ((getPage addr).toNat % 2 ^ 20 + i) % 2 ^ 20) : ¬erased addr size ⊆ flash := by
  intro inside
  have := flash_lt _ (inside (erased_round addr size i less))
  omega

theorem nbOfPages_cases (addr size : UInt32) :
    (nbOfPages addr size).toNat = 
      (2 ^ 32 - (if addr.toNat < 524288 then addr.toNat / 4096 else 2 ^ 32 - 1) +
        (if (2 ^ 32 - 1 + (addr.toNat + size.toNat) % 2 ^ 32) % 2 ^ 32 < 524288 then
          (2 ^ 32 - 1 + (addr.toNat + size.toNat) % 2 ^ 32) % 2 ^ 32 / 4096 else 2 ^ 32 - 1) + 1) %
        2 ^ 32 := by
  have last : (addr + size - 1).toNat =
      (2 ^ 32 - 1 + (addr.toNat + size.toNat) % 2 ^ 32) % 2 ^ 32 := by
    rw [UInt32.toNat_sub, UInt32.toNat_add, UInt32.toNat_one]
  rw [nbOfPages_toNat, getPage_toNat, getPage_toNat, last]

-- An accepted request that fits and is not empty goes through just its own pages.
theorem erased_request (addr size : UInt32) (fits : addr.toNat + size.toNat ≤ 524288)
    (some : 0 < size.toNat) :
    erased addr size = pages 4096 (interval addr.toNat size.toNat) := by
  have first : (getPage addr).toNat = addr.toNat / 4096 := by
    rw [getPage_toNat, if_pos (by omega)]
  have count : (nbOfPages addr size).toNat =
      (addr.toNat + size.toNat - 1) / 4096 - addr.toNat / 4096 + 1 := by
    rw [nbOfPages_cases, if_pos (by omega), if_pos (by omega)]
    omega
  rw [pages_interval 4096 _ _ some, erased, first, Nat.mod_eq_of_lt (by omega), count,
    sweep_eq_interval _ _ _ (by omega)]
  ext b
  simp only [interval, Set.mem_ofPred_eq]
  omega

theorem erases_request (addr size : UInt32) (fits : addr.toNat + size.toNat ≤ 524288)
    (some : 0 < size.toNat) : ErasesPages (asInt size) (erased addr size) addr size := by
  have request := erased_request addr size fits some
  right
  constructor
  · rw [request, pageSize_toNat]
  · rw [request, pages_interval 4096 _ _ some, flash_eq]
    rintro b ⟨_, last⟩
    exact ⟨Nat.zero_le b, by omega⟩

theorem erases_nothing (addr size : UInt32) (zero : size.toNat = 0)
    (none : (nbOfPages addr size).toNat = 0) :
    ErasesPages (asInt size) (erased addr size) addr size := by
  right
  rw [erased_none addr size none, zero, interval_zero, pages_empty]
  exact ⟨rfl, Set.empty_subset _⟩

theorem erases_of_holds (addr size : UInt32) (accepted : ¬addr + size > mcuFlashEndAddress)
    (holds : EraseHolds addr size) : ErasesPages (asInt size) (erased addr size) addr size := by
  have sum : (addr + size).toNat = (addr.toNat + size.toNat) % 2 ^ 32 := UInt32.toNat_add ..
  have small := size.toNat_lt
  have bound := accepted
  rw [rejected_iff] at bound
  rcases holds with beyond | ⟨fits, shape⟩ | ⟨wraps, inside, same⟩
  · exact absurd beyond accepted
  · by_cases some : 0 < size.toNat
    · exact erases_request addr size (by omega) some
    obtain ⟨aligned, inside⟩ := shape.resolve_left some
    have notEnd : addr.toNat ≠ 524288 := fun same => inside (UInt32.toNat.inj (by simpa using same))
    have none : (nbOfPages addr size).toNat = 0 := by
      rw [nbOfPages_cases]
      split_ifs <;> omega
    exact erases_nothing addr size (by omega) none
  · rw [UInt32.lt_iff_toNat_lt, endAddress_toNat] at inside
    rw [sum] at same
    have none : (nbOfPages addr size).toNat = 0 := by
      rw [nbOfPages_cases]
      split_ifs <;> omega
    left
    exact ⟨(asInt_neg_iff size).mpr (by omega), erased_none addr size none⟩

-- The page-number wrap of a request that starts behind the flash: the sentinel is the last page.
theorem not_erases_behind (addr size : UInt32) (behind : 524288 ≤ addr.toNat)
    (some : 0 < (nbOfPages addr size).toNat) :
    ¬ErasesPages (asInt size) (erased addr size) addr size := by
  have first : (getPage addr).toNat = 2 ^ 32 - 1 := by
    rw [getPage_toNat, if_neg (by omega)]
  have round := erased_round addr size 0 some
  have outside := not_flash_of_round addr size 0 some (by rw [first]; omega)
  rintro (⟨_, none⟩ | ⟨_, inside⟩)
  · rw [none] at round
    exact absurd round (Set.notMem_empty _)
  · exact outside inside

-- A wrapping request asks for bytes behind the flash, so no run inside it erases its pages.
theorem not_erases_wrap (addr size : UInt32) (wraps : 2 ^ 32 ≤ addr.toNat + size.toNat)
    (some : 0 < (nbOfPages addr size).toNat) :
    ¬ErasesPages (asInt size) (erased addr size) addr size := by
  have small := addr.toNat_lt
  have round := erased_round addr size 0 some
  rintro (⟨_, none⟩ | ⟨exactly, inside⟩)
  · rw [none] at round
    exact absurd round (Set.notMem_empty _)
  · rw [exactly] at inside
    have last : 2 ^ 32 - 1 ∈ interval addr.toNat size.toNat := ⟨by omega, by omega⟩
    have := flash_lt _ (inside (subset_pages _ _ last))
    omega

theorem holds_of_erases (addr size : UInt32) (accepted : ¬addr + size > mcuFlashEndAddress)
    (erases : ErasesPages (asInt size) (erased addr size) addr size) : EraseHolds addr size := by
  have sum : (addr + size).toNat = (addr.toNat + size.toNat) % 2 ^ 32 := UInt32.toNat_add ..
  have bound := accepted
  have startSmall := addr.toNat_lt
  have sizeSmall := size.toNat_lt
  rw [rejected_iff] at bound
  right
  by_cases wraps : 2 ^ 32 ≤ addr.toNat + size.toNat
  · right
    have none : (nbOfPages addr size).toNat = 0 := by
      by_contra some
      exact not_erases_wrap addr size wraps (by omega) erases
    rw [nbOfPages_cases] at none
    rw [UInt32.lt_iff_toNat_lt, endAddress_toNat, sum]
    refine ⟨wraps, ?_⟩
    split_ifs at none <;> omega
  · left
    refine ⟨by omega, ?_⟩
    by_contra shape
    have zero : size.toNat = 0 := by
      by_contra some
      exact shape (Or.inl (Nat.pos_of_ne_zero some))
    have corner : addr.toNat % 4096 = 0 → addr = mcuFlashEndAddress := fun aligned =>
      not_not.mp fun inside => shape (Or.inr ⟨aligned, inside⟩)
    by_cases behind : 524288 ≤ addr.toNat
    · apply not_erases_behind addr size behind _ erases
      rw [nbOfPages_cases, zero]
      split_ifs <;> omega
    · have notEnd : addr ≠ mcuFlashEndAddress := by
        intro same
        rw [same, endAddress_toNat] at behind
        omega
      have unaligned : addr.toNat % 4096 ≠ 0 := fun aligned => notEnd (corner aligned)
      have some : 0 < (nbOfPages addr size).toNat := by
        rw [nbOfPages_cases]
        split_ifs <;> omega
      have round := erased_round addr size 0 some
      rcases erases with ⟨_, none⟩ | ⟨exactly, _⟩
      · rw [none] at round
        exact absurd round (Set.notMem_empty _)
      · rw [exactly, zero, interval_zero, pages_empty] at round
        exact absurd round (Set.notMem_empty _)

theorem erase_pages_iff (nvmc : Nvmc) (exact : nvmc.Exact) (addr size : UInt32) :
    ErasesPages (mcuFlashErase nvmc addr size).status ((mcuFlashErase nvmc addr size).touched nvmc)
      addr size ↔ EraseHolds addr size := by
  by_cases rejected : addr + size > mcuFlashEndAddress
  · have outcome : mcuFlashErase nvmc addr size = ⟨-rtEinval, []⟩ := by
      rw [mcuFlashErase, if_pos rejected]
    have nothing : (mcuFlashErase nvmc addr size).touched nvmc = ∅ := by
      apply touched_nil
      rw [outcome]
    have refused : (mcuFlashErase nvmc addr size).status < 0 := by
      rw [outcome]
      decide
    exact iff_of_true (Or.inl ⟨refused, nothing⟩) (Or.inl rejected)
  · obtain ⟨status, touched⟩ := erase_accepted nvmc exact addr size rejected
    rw [status, touched]
    constructor
    · exact holds_of_erases addr size rejected
    · exact erases_of_holds addr size rejected

/-- The three functions keep to what they are asked exactly when the sum of their range check
does not deceive them. -/
theorem flash_contained (nvmc : Nvmc) (exact : nvmc.Exact) (memory : UInt32 → UInt8)
    (buf : List UInt8) (addr size : UInt32) :
    (Contained (mcuFlashRead memory addr size).status (mcuFlashRead memory addr size).touched
        addr size ↔ ReadHolds addr size) ∧
      (Contained (mcuFlashWrite addr buf size).status
        ((mcuFlashWrite addr buf size).touched nvmc) addr size ↔ WriteHolds addr size) ∧
      (ErasesPages (mcuFlashErase nvmc addr size).status
        ((mcuFlashErase nvmc addr size).touched nvmc) addr size ↔ EraseHolds addr size) := by
  constructor
  · exact read_contained_iff memory addr size
  · constructor
    · exact write_contained_iff nvmc exact addr buf size
    · exact erase_pages_iff nvmc exact addr size

def Nvmc.ideal : Nvmc where
  success := 0
  pageErase _ := 0
  touches
    | .pageErase addr => interval addr.toNat mcuFlashPageSize.toNat
    | .bytesWrite addr _ numBytes => sweep (2 ^ 32) addr.toNat numBytes.toNat
    | .wordsWrite addr _ numWords => sweep (2 ^ 32) addr.toNat (4 * numWords.toNat)

theorem Nvmc.ideal_exact : Nvmc.ideal.Exact where
  erases _ _ := rfl
  page _ _ := rfl
  bytes _ _ _ := rfl
  words _ _ _ _ := rfl

theorem flash_contained_ideal :
    (Contained (mcuFlashRead (fun _ => 0) 0x1000 0x20).status
        (mcuFlashRead (fun _ => 0) 0x1000 0x20).touched 0x1000 0x20 ↔ ReadHolds 0x1000 0x20) ∧
      (Contained (mcuFlashWrite 0x1000 [] 0x20).status
        ((mcuFlashWrite 0x1000 [] 0x20).touched Nvmc.ideal) 0x1000 0x20 ↔ WriteHolds 0x1000 0x20) ∧
      (ErasesPages (mcuFlashErase Nvmc.ideal 0x1000 0x20).status
        ((mcuFlashErase Nvmc.ideal 0x1000 0x20).touched Nvmc.ideal) 0x1000 0x20 ↔
        EraseHolds 0x1000 0x20) :=
  flash_contained Nvmc.ideal Nvmc.ideal_exact (fun _ => 0) [] 0x1000 0x20

-- An empty erase inside page 1 returns 0 and takes the whole page; a read whose sum wraps is let through.
theorem flash_strays :
    ¬ErasesPages (mcuFlashErase Nvmc.ideal 0x1004 0).status
        ((mcuFlashErase Nvmc.ideal 0x1004 0).touched Nvmc.ideal) 0x1004 0 ∧
      ¬Contained (mcuFlashRead (fun _ => 0) 0xFFFFFFF0 0x20).status
        (mcuFlashRead (fun _ => 0) 0xFFFFFFF0 0x20).touched 0xFFFFFFF0 0x20 := by
  constructor
  · have outcome : mcuFlashErase Nvmc.ideal 0x1004 0 = ⟨0, [.pageErase 0x1000]⟩ := rfl
    have first : 0x1000 ∈ (mcuFlashErase Nvmc.ideal 0x1004 0).touched Nvmc.ideal := by
      rw [outcome]
      exact ⟨.pageErase 0x1000, List.mem_singleton_self _, by decide, by decide⟩
    have zero : (0 : UInt32).toNat = 0 := rfl
    rintro (⟨_, none⟩ | ⟨exactly, _⟩)
    · rw [none] at first
      exact absurd first (Set.notMem_empty _)
    · rw [exactly, zero, interval_zero, pages_empty] at first
      exact absurd first (Set.notMem_empty _)
  · have first : 0xFFFFFFF0 ∈ (mcuFlashRead (fun _ => 0) 0xFFFFFFF0 0x20).touched :=
      ⟨0xFFFFFFF0, List.mem_cons_self .., rfl⟩
    rintro (⟨_, none⟩ | inside)
    · rw [none] at first
      exact absurd first (Set.notMem_empty _)
    · have := flash_lt _ (inside first).2
      omega

end RtThread.Flash
