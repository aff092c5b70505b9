import RtThread.Flash.Isolation
import RtThread.Lib.Throughout

/-! The block device of FAL on the two flashes of the board, with what is stored: each write is an erase and a program,
and each driver rounds the erase in its own way. -/

set_option autoImplicit false
namespace RtThread.Flash
open Lib

/-- What the flashes store; an erased byte is 255, and programming only clears bits. -/
abbrev Memory := UInt32 → UInt8

/-- `size` bytes from `addr` on are programmed. -/
def program (addr : UInt32) (size : Nat) (buf : List UInt8) (memory : Memory) : Memory := fun a =>
  if (a - addr).toNat < size then memory a &&& buf.getD (a - addr).toNat 255 else memory a

def NvmcCall.perform (memory : Memory) : NvmcCall → Memory
  | .pageErase addr => fun a => if (a - addr).toNat < mcuFlashPageSize.toNat then 255 else memory a
  | .bytesWrite addr src numBytes => program addr numBytes.toNat src memory
  | .wordsWrite addr src numWords => program addr (4 * numWords.toNat) src memory

/-- `nrfx_qspi_erase` with NRF_QSPI_ERASE_LEN_64KB -/
def nrfxQspiErase (addr : UInt32) (memory : Memory) : Memory := fun a =>
  if a / 0x10000 = addr / 0x10000 then 255 else memory a

/-- FAL_FLASH_DEV_TABLE; NOR_FLASH_DEV_NAME and QSPI_FLASH_SIZE_KB are configured. -/
inductive BoardFlash where
  | mcuOnchipFlash
  | norFlash0 (name : List Char) (sizeKb : UInt32)

namespace BoardFlash

def falFlashDev : BoardFlash → FalFlashDev
  | .mcuOnchipFlash => Flash.mcuOnchipFlash Nvmc.ideal fun _ => 0
  | .norFlash0 name sizeKb => ⟨name, sizeKb * 1024, 4096, fun _ _ size => asInt size⟩

def perform (flash : BoardFlash) (buf : List UInt8) (memory : Memory) (call : FlashCall) : Memory :=
  match flash, call.op with
  | _, .read => memory
  | .mcuOnchipFlash, .write =>
    (mcuFlashWrite (mcuFlashStartAddress + call.offset.toUInt32) buf call.size).calls.foldl NvmcCall.perform memory
  | .mcuOnchipFlash, .erase =>
    (mcuFlashErase Nvmc.ideal (mcuFlashStartAddress + call.offset.toUInt32) call.size).calls.foldl NvmcCall.perform memory
  | .norFlash0 _ _, .write => program call.offset.toUInt32 call.size.toNat buf memory
  | .norFlash0 _ _, .erase => nrfxQspiErase call.offset.toUInt32 memory

def load (flash : BoardFlash) (memory : Memory) (call : FlashCall) : List UInt8 :=
  match flash with
  | .mcuOnchipFlash => (mcuFlashRead memory (mcuFlashStartAddress + call.offset.toUInt32) call.size).buf
  | .norFlash0 _ _ => (List.range call.size.toNat).map fun i => memory (call.offset.toUInt32 + UInt32.ofNat i)

end BoardFlash

structure BoardBlk (flash : BoardFlash) where
  devices : List FalFlashDev
  fal : Fal devices
  part : fal.Part
  found : flashDeviceFindByPart fal part = some flash.falFlashDev
  offset : 4096 ∣ (fal.part part).offset.toUInt32.toNat
  len : 4096 ∣ (fal.part part).len.toNat

namespace BoardBlk
variable {flash : BoardFlash} (dev : BoardBlk flash)

/-- `fal_blk_device_create` -/
def blk : FalBlkDevice dev.fal :=
  ⟨dev.part, ⟨flash.falFlashDev.blkSize, flash.falFlashDev.blkSize,
    (dev.fal.part dev.part).len / flash.falFlashDev.blkSize⟩⟩

def sectorCount : Nat := dev.blk.geometry.sectorCount.toNat

structure Inside (pos : Int32) (count : UInt32) : Prop where
  low : 0 ≤ pos.toInt
  start : pos.toUInt32.toNat < dev.sectorCount
  stop : pos.toUInt32.toNat + count.toNat ≤ dev.sectorCount

/-- Where byte `k` of the device is stored. -/
def address (k : Nat) : UInt32 := (dev.fal.part dev.part).offset.toUInt32 + UInt32.ofNat k

end BoardBlk

/-- What is stored, and for each byte of the device what the last successful write has put there. -/
structure BlkStore where
  memory : Memory
  expected : Nat → UInt8

inductive BlkAction where
  | write (pos : Int32) (data : List UInt8) (count : UInt32)
  | read (pos : Int32) (count : UInt32)

namespace BlkStore
variable {flash : BoardFlash} (dev : BoardBlk flash)

/-- The bytes from block `pos` on, once they are written. -/
def put (expected : Nat → UInt8) (pos : Int32) (data : List UInt8) : Nat → UInt8 := fun k =>
  if 4096 * pos.toUInt32.toNat ≤ k ∧ k < 4096 * pos.toUInt32.toNat + data.length then
    data.getD (k - 4096 * pos.toUInt32.toNat) 255
  else expected k

def Step (s : BlkStore) (a : BlkAction) (s' : BlkStore) : Prop :=
  match a with
  | .write pos data count => dev.Inside pos count ∧ data.length = 4096 * count.toNat ∧
      s' = ⟨(blkDevWrite dev.blk pos count).calls.foldl (flash.perform data) s.memory,
        if (blkDevWrite dev.blk pos count).ret = asInt count then put s.expected pos data else s.expected⟩
  | .read pos count => dev.Inside pos count ∧ s' = s

def Sound (s : BlkStore) : Prop :=
  ∀ pos count, dev.Inside pos count → (blkDevRead dev.blk pos count).ret = asInt count →
    (blkDevRead dev.blk pos count).calls.flatMap (flash.load s.memory) =
      (List.range (4096 * count.toNat)).map fun i => s.expected (4096 * pos.toUInt32.toNat + i)

end BlkStore

/-! ## What the drivers do to the memory -/

namespace BoardFlash

/-- The driver does not refuse the range; the one of the on-chip flash checks its end, as a sum that may wrap. -/
def Accepts : BoardFlash → UInt32 → UInt32 → Prop
  | .mcuOnchipFlash, addr, size => ¬addr + size > mcuFlashEndAddress
  | .norFlash0 _ _, _, _ => True

/-- The byte at `a` is erased with the range: on the on-chip flash in its pages, on the other only in the 64 KB that
the range begins in. -/
def Clears : BoardFlash → UInt32 → UInt32 → UInt32 → Prop
  | .mcuOnchipFlash, addr, size, a => a.toNat ∈ erased addr size
  | .norFlash0 _ _, addr, _, a => a / 0x10000 = addr / 0x10000

end BoardFlash

section drivers
open Classical in
theorem foldl_pageErase (firstPage i : UInt32) (n : Nat) (memory : Memory) (a : UInt32) :
    (erasePages Nvmc.ideal firstPage i n).2.foldl NvmcCall.perform memory a =
      if a.toNat ∈ {b | ∃ call ∈ (erasePages Nvmc.ideal firstPage i n).2, b ∈ Nvmc.ideal.touches call} then 255
      else memory a := by
  induction n generalizing i memory with
  | zero => simp [erasePages]
  | succ n ih =>
    have step : (erasePages Nvmc.ideal firstPage i (n + 1)).2 =
        .pageErase ((firstPage + i) * mcuFlashPageSize) :: (erasePages Nvmc.ideal firstPage (i + 1) n).2 := rfl
    have page : (a - (firstPage + i) * mcuFlashPageSize).toNat < mcuFlashPageSize.toNat ↔
        a.toNat ∈ Nvmc.ideal.touches (.pageErase ((firstPage + i) * mcuFlashPageSize)) := by
      have aligned : ((firstPage + i) * mcuFlashPageSize).toNat % 4096 = 0 := by
        rw [UInt32.toNat_mul, pageSize_toNat]
        omega
      have below := ((firstPage + i) * mcuFlashPageSize).toNat_lt
      have bound := a.toNat_lt
      rw [UInt32.toNat_sub, pageSize_toNat]
      simp only [Nvmc.ideal, interval, pageSize_toNat, Set.mem_ofPred_eq]
      omega
    rw [step, List.foldl_cons, ih]
    simp only [Set.mem_ofPred_eq, List.mem_cons, exists_eq_or_imp, NvmcCall.perform, page]
    by_cases later : ∃ call ∈ (erasePages Nvmc.ideal firstPage (i + 1) n).2, a.toNat ∈ Nvmc.ideal.touches call
    · simp [later]
    · simp [later]

variable {flash : BoardFlash} {addr size : UInt32} {memory : Memory} {buf : List UInt8}

open Classical in
theorem perform_erase (accepts : flash.Accepts addr size) (a : UInt32) :
    flash.perform buf memory ⟨flash.falFlashDev, .erase, addr.toInt32, size⟩ a =
      if flash.Clears addr size a then 255 else memory a := by
  have back : addr.toInt32.toUInt32 = addr := rfl
  cases flash with
  | mcuOnchipFlash =>
    have first : mcuFlashStartAddress + addr = addr := UInt32.zero_add addr
    have finished := (erasePages_exact Nvmc.ideal Nvmc.ideal_exact (getPage addr) 0 (nbOfPages addr size).toNat)
    have calls : (mcuFlashErase Nvmc.ideal addr size).calls =
        (erasePages Nvmc.ideal (getPage addr) 0 (nbOfPages addr size).toNat).2 := by
      rw [mcuFlashErase, if_neg accepts]
      simp only [finished.1, if_true]
    have touched := finished.2
    rw [UInt32.add_zero] at touched
    simp only [BoardFlash.perform, back, first, calls, foldl_pageErase, touched]
    rfl
  | norFlash0 name sizeKb =>
    by_cases same : (BoardFlash.norFlash0 name sizeKb).Clears addr size a
    · exact (if_pos same).trans (if_pos same).symm
    · exact (if_neg same).trans (if_neg same).symm

theorem perform_erase_refused (refused : ¬flash.Accepts addr size) :
    flash.perform buf memory ⟨flash.falFlashDev, .erase, addr.toInt32, size⟩ = memory := by
  have back : addr.toInt32.toUInt32 = addr := rfl
  cases flash with
  | mcuOnchipFlash =>
    have first : mcuFlashStartAddress + addr = addr := UInt32.zero_add addr
    simp only [BoardFlash.perform, back, first]
    rw [mcuFlashErase, if_pos (not_not.mp refused)]
    rfl
  | norFlash0 name sizeKb => exact absurd trivial refused

theorem perform_write (accepts : flash.Accepts addr size) (words : 4096 ∣ addr.toNat) (whole : 4096 ∣ size.toNat) :
    flash.perform buf memory ⟨flash.falFlashDev, .write, addr.toInt32, size⟩ = program addr size.toNat buf memory := by
  have back : addr.toInt32.toUInt32 = addr := rfl
  cases flash with
  | mcuOnchipFlash =>
    have first : mcuFlashStartAddress + addr = addr := UInt32.zero_add addr
    have aligned : addr % 4 = 0 := by
      rw [← UInt32.toNat_inj, UInt32.toNat_mod]
      exact Nat.mod_eq_zero_of_dvd (Nat.dvd_trans (by decide) words)
    have four : size.toNat % 4 = 0 := Nat.mod_eq_zero_of_dvd (Nat.dvd_trans (by decide) whole)
    have number : size % 4 = 0 := by
      rw [← UInt32.toNat_inj, UInt32.toNat_mod]
      exact four
    simp only [BoardFlash.perform, back, first]
    rw [mcuFlashWrite, if_neg accepts, if_neg (not_not.mpr aligned)]
    by_cases none : size < 1
    · have zero : size.toNat = 0 := by
        rw [UInt32.lt_iff_toNat_lt, UInt32.toNat_one] at none
        omega
      rw [if_pos none, zero]
      funext a
      simp [program]
    · have quarter : 4 * (size / 4).toNat = size.toNat := by
        rw [UInt32.toNat_div]
        simp only [UInt32.reduceToNat]
        omega
      rw [if_neg none, if_neg (not_not.mpr number)]
      simp only [List.foldl_cons, List.foldl_nil, NvmcCall.perform, quarter]
  | norFlash0 name sizeKb => rfl

theorem readBytes_buf (memory : Memory) (addr : UInt32) (n : Nat) :
    (readBytes memory addr n).2 = (List.range n).map fun i => memory (addr + UInt32.ofNat i) := by
  induction n generalizing addr with
  | zero => rfl
  | succ n ih =>
    rw [readBytes, ih, List.range_succ_eq_map, List.map_cons, List.map_map]
    simp only [List.cons.injEq, Function.comp_def]
    refine ⟨by simp, List.map_congr_left fun i _ => ?_⟩
    rw [Nat.succ_eq_add_one, UInt32.ofNat_add, UInt32.add_assoc, UInt32.add_comm 1]
    rfl

theorem load_read (accepts : flash.Accepts addr size) :
    flash.load memory ⟨flash.falFlashDev, .read, addr.toInt32, size⟩ =
      (List.range size.toNat).map fun i => memory (addr + UInt32.ofNat i) := by
  have back : addr.toInt32.toUInt32 = addr := rfl
  cases flash with
  | mcuOnchipFlash =>
    have first : mcuFlashStartAddress + addr = addr := UInt32.zero_add addr
    simp only [BoardFlash.load, back, first]
    rw [mcuFlashRead, if_neg accepts, ← readBytes_buf]
  | norFlash0 name sizeKb => rfl

theorem load_refused (refused : ¬flash.Accepts addr size) :
    flash.load memory ⟨flash.falFlashDev, .read, addr.toInt32, size⟩ = [] := by
  have back : addr.toInt32.toUInt32 = addr := rfl
  cases flash with
  | mcuOnchipFlash =>
    have first : mcuFlashStartAddress + addr = addr := UInt32.zero_add addr
    simp only [BoardFlash.load, back, first]
    rw [mcuFlashRead, if_pos (not_not.mp refused)]
  | norFlash0 name sizeKb => exact absurd trivial refused

theorem error_ne_size (whole : 4096 ∣ size.toNat) (error : Int) (small : -4096 < error ∧ error < 0) :
    error ≠ asInt size := by
  have value := asInt_eq size
  have bound := size.toNat_lt
  obtain ⟨blocks, eq⟩ := whole
  split at value <;> omega

theorem ops_read (whole : 4096 ∣ size.toNat) :
    flash.falFlashDev.ops .read addr.toInt32 size = asInt size ↔ flash.Accepts addr size := by
  cases flash with
  | mcuOnchipFlash =>
    have first : mcuFlashStartAddress + addr = addr := UInt32.zero_add addr
    have ops : BoardFlash.mcuOnchipFlash.falFlashDev.ops .read addr.toInt32 size =
        (mcuFlashRead (fun _ => 0) (mcuFlashStartAddress + addr) size).status := rfl
    rw [ops, first, mcuFlashRead]
    by_cases rejected : addr + size > mcuFlashEndAddress
    · rw [if_pos rejected]
      exact iff_of_false (error_ne_size whole _ (by decide)) fun accepts => accepts rejected
    · rw [if_neg rejected]
      exact iff_of_true rfl rejected
  | norFlash0 name sizeKb => exact iff_of_true rfl trivial

theorem ops_erase (whole : 4096 ∣ size.toNat) :
    flash.falFlashDev.ops .erase addr.toInt32 size = asInt size ↔ flash.Accepts addr size := by
  cases flash with
  | mcuOnchipFlash =>
    have first : mcuFlashStartAddress + addr = addr := UInt32.zero_add addr
    have ops : BoardFlash.mcuOnchipFlash.falFlashDev.ops .erase addr.toInt32 size =
        (mcuFlashErase Nvmc.ideal (mcuFlashStartAddress + addr) size).status := rfl
    rw [ops, first]
    by_cases rejected : addr + size > mcuFlashEndAddress
    · rw [mcuFlashErase, if_pos rejected]
      exact iff_of_false (error_ne_size whole _ (by decide)) fun accepts => accepts rejected
    · rw [(erase_accepted Nvmc.ideal Nvmc.ideal_exact addr size rejected).1]
      exact iff_of_true rfl rejected
  | norFlash0 name sizeKb => exact iff_of_true rfl trivial

theorem ops_write (accepts : flash.Accepts addr size) (words : 4096 ∣ addr.toNat) (some : 0 < size.toNat) :
    flash.falFlashDev.ops .write addr.toInt32 size = asInt size := by
  cases flash with
  | mcuOnchipFlash =>
    have first : mcuFlashStartAddress + addr = addr := UInt32.zero_add addr
    have ops : BoardFlash.mcuOnchipFlash.falFlashDev.ops .write addr.toInt32 size =
        (mcuFlashWrite (mcuFlashStartAddress + addr) [] size).status := rfl
    have aligned : addr % 4 = 0 := by
      rw [← UInt32.toNat_inj, UInt32.toNat_mod]
      exact Nat.mod_eq_zero_of_dvd (Nat.dvd_trans (by decide) words)
    have big : ¬size < 1 := by
      rw [UInt32.lt_iff_toNat_lt, UInt32.toNat_one]
      omega
    rw [ops, first, mcuFlashWrite, if_neg accepts, if_neg (not_not.mpr aligned), if_neg big]
    split <;> rfl
  | norFlash0 name sizeKb => rfl

end drivers

/-! ## What a request of the block device reaches -/

namespace BoardBlk
variable {flash : BoardFlash} {dev : BoardBlk flash} {pos : Int32} {count : UInt32}

theorem blkSize (flash : BoardFlash) : flash.falFlashDev.blkSize = 4096 := by
  cases flash <;> rfl

theorem sectorCount_eq (dev : BoardBlk flash) : dev.sectorCount * 4096 = (dev.fal.part dev.part).len.toNat := by
  have count : dev.sectorCount = (dev.fal.part dev.part).len.toNat / 4096 := by
    rw [sectorCount, blk, blkSize, UInt32.toNat_div]
    rfl
  rw [count]
  exact Nat.div_mul_cancel dev.len

def first (dev : BoardBlk flash) (pos : Int32) : UInt32 := dev.address (4096 * pos.toUInt32.toNat)

def bytes (count : UInt32) : UInt32 := count * 4096

theorem first_add (dev : BoardBlk flash) (pos : Int32) (i : Nat) :
    dev.first pos + UInt32.ofNat i = dev.address (4096 * pos.toUInt32.toNat + i) := by
  rw [first, address, address, UInt32.ofNat_add (4096 * pos.toUInt32.toNat) i, UInt32.add_assoc]

namespace Inside

section
variable (inside : dev.Inside pos count)
include inside

theorem stop_lt : 4096 * pos.toUInt32.toNat + 4096 * count.toNat < 2 ^ 32 := by
  have whole := dev.sectorCount_eq
  have bound := (dev.fal.part dev.part).len.toNat_lt
  have stop := inside.stop
  omega

theorem bytes_toNat : (bytes count).toNat = 4096 * count.toNat := by
  have bound := inside.stop_lt
  have block : (4096 : UInt32).toNat = 4096 := rfl
  rw [bytes, UInt32.toNat_mul, block]
  omega

theorem place_toNat :
    (pos.toUInt32 * 4096).toNat = 4096 * pos.toUInt32.toNat := by
  have bound := inside.stop_lt
  have block : (4096 : UInt32).toNat = 4096 := rfl
  rw [UInt32.toNat_mul, block]
  omega

theorem first_eq :
    dev.first pos = (dev.fal.part dev.part).offset.toUInt32 + pos.toUInt32 * 4096 := by
  rw [first, address, ← inside.place_toNat, UInt32.ofNat_toNat]

theorem first_words : 4096 ∣ (dev.first pos).toNat := by
  obtain ⟨pages, offset⟩ := dev.offset
  rw [inside.first_eq, UInt32.toNat_add, inside.place_toNat, offset]
  omega

theorem bytes_whole : 4096 ∣ (bytes count).toNat :=
  ⟨count.toNat, inside.bytes_toNat⟩

theorem served (op : FlashOp) :
    falPartitionOp dev.fal op dev.part (pos.toUInt32 * 4096) (bytes count) =
      ⟨flash.falFlashDev.ops op (dev.first pos).toInt32 (bytes count),
        [⟨flash.falFlashDev, op, (dev.first pos).toInt32, bytes count⟩]⟩ := by
  have within : ¬pos.toUInt32 * 4096 + bytes count > (dev.fal.part dev.part).len := by
    have bound := inside.stop_lt
    have whole := dev.sectorCount_eq
    have stop := inside.stop
    rw [gt_iff_lt, UInt32.lt_iff_toNat_lt, UInt32.toNat_add, inside.place_toNat, inside.bytes_toNat]
    omega
  rw [falPartitionOp, if_neg within]
  simp only [dev.found, inside.first_eq]

theorem named (k : Nat) (low : k < dev.sectorCount * 4096) :
    (dev.address k - dev.first pos).toNat < 4096 * count.toNat ↔
      4096 * pos.toUInt32.toNat ≤ k ∧ k < 4096 * pos.toUInt32.toNat + 4096 * count.toNat := by
  have bound := inside.stop_lt
  have whole := dev.sectorCount_eq
  have len := (dev.fal.part dev.part).len.toNat_lt
  have own := (dev.fal.part dev.part).offset.toUInt32.toNat_lt
  rw [first, address, address, UInt32.toNat_sub, UInt32.toNat_add, UInt32.toNat_add, UInt32.toNat_ofNat',
    UInt32.toNat_ofNat']
  omega

theorem distance (k : Nat) (low : k < dev.sectorCount * 4096)
    (behind : 4096 * pos.toUInt32.toNat ≤ k) :
    (dev.address k - dev.first pos).toNat = k - 4096 * pos.toUInt32.toNat := by
  have bound := inside.stop_lt
  have whole := dev.sectorCount_eq
  have len := (dev.fal.part dev.part).len.toNat_lt
  have own := (dev.fal.part dev.part).offset.toUInt32.toNat_lt
  rw [first, address, address, UInt32.toNat_sub, UInt32.toNat_add, UInt32.toNat_add, UInt32.toNat_ofNat',
    UInt32.toNat_ofNat']
  omega

end

end Inside

def Readable (dev : BoardBlk flash) (k : Nat) : Prop :=
  ∃ pos count, dev.Inside pos count ∧ flash.Accepts (dev.first pos) (bytes count) ∧
    4096 * pos.toUInt32.toNat ≤ k ∧ k < 4096 * pos.toUInt32.toNat + 4096 * count.toNat

theorem Readable.lt {k : Nat} (readable : dev.Readable k) : k < dev.sectorCount * 4096 := by
  obtain ⟨pos, count, inside, -, -, below⟩ := readable
  have stop := inside.stop
  omega

namespace Inside

section
variable (inside : dev.Inside pos count)
include inside

theorem count_zero : asInt count = 0 ↔ count.toNat = 0 := by
  have value := asInt_eq count
  have bound := inside.stop_lt
  rw [if_pos (by omega)] at value
  omega

theorem read_accepted (accepts : flash.Accepts (dev.first pos) (bytes count)) :
    blkDevRead dev.blk pos count =
      ⟨asInt count, [⟨flash.falFlashDev, .read, (dev.first pos).toInt32, bytes count⟩]⟩ := by
  have geometry : dev.blk.geometry.blockSize = 4096 := blkSize flash
  have loaded : falPartitionRead dev.fal dev.blk.falPart (pos.toUInt32 * 4096) (count * 4096) = _ := inside.served .read
  have size : flash.falFlashDev.ops .read (dev.first pos).toInt32 (bytes count) = asInt (count * 4096) :=
    (ops_read inside.bytes_whole).mpr accepts
  rw [blkDevRead, geometry]
  simp only [loaded, size, ne_eq, not_true_eq_false, if_false]

theorem read_refused (refused : ¬flash.Accepts (dev.first pos) (bytes count)) :
    blkDevRead dev.blk pos count =
      ⟨0, [⟨flash.falFlashDev, .read, (dev.first pos).toInt32, bytes count⟩]⟩ := by
  have geometry : dev.blk.geometry.blockSize = 4096 := blkSize flash
  have loaded : falPartitionRead dev.fal dev.blk.falPart (pos.toUInt32 * 4096) (count * 4096) = _ := inside.served .read
  have size : flash.falFlashDev.ops .read (dev.first pos).toInt32 (bytes count) ≠ asInt (count * 4096) :=
    fun same => refused ((ops_read inside.bytes_whole).mp same)
  rw [blkDevRead, geometry]
  simp only [loaded, ne_eq, size, not_false_eq_true, if_true]

theorem write_accepted (accepts : flash.Accepts (dev.first pos) (bytes count)) :
    (blkDevWrite dev.blk pos count).calls =
        [⟨flash.falFlashDev, .erase, (dev.first pos).toInt32, bytes count⟩,
          ⟨flash.falFlashDev, .write, (dev.first pos).toInt32, bytes count⟩] ∧
      (0 < count.toNat → (blkDevWrite dev.blk pos count).ret = asInt count) := by
  have geometry : dev.blk.geometry.bytesPerSector = 4096 := blkSize flash
  have back : (pos.toUInt32 * 4096).toInt32.toUInt32 = pos.toUInt32 * 4096 := rfl
  have erased : falPartitionErase dev.fal dev.blk.falPart (pos.toUInt32 * 4096) (count * 4096) = _ := inside.served .erase
  have programmed : falPartitionWrite dev.fal dev.blk.falPart (pos.toUInt32 * 4096) (count * 4096) = _ := inside.served .write
  have size : flash.falFlashDev.ops .erase (dev.first pos).toInt32 (bytes count) = asInt (count * 4096) :=
    (ops_erase inside.bytes_whole).mpr accepts
  rw [blkDevWrite, geometry]
  simp only [back, erased, size, if_true, programmed]
  constructor
  · split <;> rfl
  · intro some
    have written : flash.falFlashDev.ops .write (dev.first pos).toInt32 (bytes count) = asInt (count * 4096) :=
      ops_write accepts inside.first_words (by rw [inside.bytes_toNat]; omega)
    rw [if_neg (not_not.mpr written)]

theorem write_refused (refused : ¬flash.Accepts (dev.first pos) (bytes count)) :
    blkDevWrite dev.blk pos count =
      ⟨0, [⟨flash.falFlashDev, .erase, (dev.first pos).toInt32, bytes count⟩]⟩ := by
  have geometry : dev.blk.geometry.bytesPerSector = 4096 := blkSize flash
  have back : (pos.toUInt32 * 4096).toInt32.toUInt32 = pos.toUInt32 * 4096 := rfl
  have erased : falPartitionErase dev.fal dev.blk.falPart (pos.toUInt32 * 4096) (count * 4096) = _ := inside.served .erase
  have size : flash.falFlashDev.ops .erase (dev.first pos).toInt32 (bytes count) ≠ asInt (count * 4096) :=
    fun same => refused ((ops_erase inside.bytes_whole).mp same)
  rw [blkDevWrite, geometry]
  simp only [back, erased, size, if_false, ne_eq, not_false_eq_true, if_true]

end

end Inside

end BoardBlk

/-! ## Runs of the block device -/

namespace BlkStore
variable {flash : BoardFlash} {dev : BoardBlk flash} {s s' : BlkStore}

def Inv (dev : BoardBlk flash) (s : BlkStore) : Prop := ∀ k, dev.Readable k → s.memory (dev.address k) = s.expected k

/-- A write may be served where the erase clears no byte of another block that is not clear already, and where its data
sets no bit in a byte that the erase does not reach. -/
def Allowed (dev : BoardBlk flash) (s : BlkStore) : BlkAction → Prop
  | .write pos data count => flash.Accepts (dev.first pos) (BoardBlk.bytes count) → ∀ k, dev.Readable k →
      if 4096 * pos.toUInt32.toNat ≤ k ∧ k < 4096 * pos.toUInt32.toNat + data.length then
        flash.Clears (dev.first pos) (BoardBlk.bytes count) (dev.address k) ∨
          s.memory (dev.address k) &&& data.getD (k - 4096 * pos.toUInt32.toNat) 255 =
            data.getD (k - 4096 * pos.toUInt32.toNat) 255
      else flash.Clears (dev.first pos) (BoardBlk.bytes count) (dev.address k) → s.memory (dev.address k) = 255
  | .read _ _ => True

theorem sound_iff : Sound dev s ↔ Inv dev s := by
  constructor
  · rintro sound k ⟨pos, count, inside, accepts, low, high⟩
    have read := sound pos count inside (by rw [inside.read_accepted accepts])
    rw [inside.read_accepted accepts] at read
    simp only [List.flatMap_cons, List.flatMap_nil, List.append_nil] at read
    rw [load_read accepts, inside.bytes_toNat, List.map_inj_left] at read
    have byte := read (k - 4096 * pos.toUInt32.toNat) (List.mem_range.mpr (by omega))
    have place : 4096 * pos.toUInt32.toNat + (k - 4096 * pos.toUInt32.toNat) = k := by omega
    rwa [dev.first_add, place] at byte
  · intro inv pos count inside ret
    by_cases accepts : flash.Accepts (dev.first pos) (BoardBlk.bytes count)
    · rw [inside.read_accepted accepts]
      simp only [List.flatMap_cons, List.flatMap_nil, List.append_nil]
      rw [load_read accepts, inside.bytes_toNat]
      refine List.map_congr_left fun i within => ?_
      have less := List.mem_range.mp within
      rw [dev.first_add]
      exact inv _ ⟨pos, count, inside, accepts, by omega, by omega⟩
    · -- only a read of no blocks is refused and returns their number
      rw [inside.read_refused accepts] at ret ⊢
      have none := inside.count_zero.mp ret.symm
      have nothing : (BoardBlk.bytes count).toNat = 0 := by rw [inside.bytes_toNat, none]
      simp only [List.flatMap_cons, List.flatMap_nil, List.append_nil, none, Nat.mul_zero, List.range_zero, List.map_nil]
      exact load_refused accepts

section write
variable {pos : Int32} {count : UInt32} {data : List UInt8}

theorem put_eq (whole : data.length = 4096 * count.toNat) (expected : Nat → UInt8) (k : Nat) :
    put expected pos data k =
      if 4096 * pos.toUInt32.toNat ≤ k ∧ k < 4096 * pos.toUInt32.toNat + 4096 * count.toNat then
        data.getD (k - 4096 * pos.toUInt32.toNat) 255 else expected k := by
  rw [put, whole]

theorem put_none (whole : data.length = 4096 * count.toNat) (none : count.toNat = 0) (expected : Nat → UInt8) :
    put expected pos data = expected := by
  funext k
  rw [put_eq whole, if_neg (by omega)]

theorem step_refused (step : Step dev s (.write pos data count) s')
    (refused : ¬flash.Accepts (dev.first pos) (BoardBlk.bytes count)) : s' = s := by
  obtain ⟨inside, whole, rfl⟩ := step
  rw [inside.write_refused refused]
  simp only [List.foldl_cons, List.foldl_nil, perform_erase_refused refused]
  by_cases none : count.toNat = 0
  · simp only [put_none whole none, ite_self]
  · have some : (0 : Int) ≠ asInt count := fun zero => none (inside.count_zero.mp zero.symm)
    rw [if_neg some]

open Classical in
theorem step_accepted (step : Step dev s (.write pos data count) s')
    (accepts : flash.Accepts (dev.first pos) (BoardBlk.bytes count)) (k : Nat) (low : k < dev.sectorCount * 4096) :
    (s'.memory (dev.address k) =
      let left := if flash.Clears (dev.first pos) (BoardBlk.bytes count) (dev.address k) then 255
        else s.memory (dev.address k)
      if 4096 * pos.toUInt32.toNat ≤ k ∧ k < 4096 * pos.toUInt32.toNat + data.length then
        left &&& data.getD (k - 4096 * pos.toUInt32.toNat) 255 else left) ∧
    s'.expected k = put s.expected pos data k := by
  obtain ⟨inside, whole, rfl⟩ := step
  obtain ⟨calls, ret⟩ := inside.write_accepted accepts
  constructor
  · simp only [calls, List.foldl_cons, List.foldl_nil]
    rw [perform_write accepts inside.first_words inside.bytes_whole, program, inside.bytes_toNat, whole,
      perform_erase accepts]
    by_cases named : (dev.address k - dev.first pos).toNat < 4096 * count.toNat
    · have among := (inside.named k low).mp named
      rw [if_pos named, if_pos among, inside.distance k low among.1]
    · have apart := mt (inside.named k low).mpr named
      rw [if_neg named, if_neg apart]
  · by_cases none : count.toNat = 0
    · simp only [put_none whole none, ite_self]
    · rw [if_pos (ret (by omega))]

end write

theorem needed {a : BlkAction} (inv : Inv dev s) (step : Step dev s a s') (sound : Sound dev s') : Allowed dev s a := by
  cases a with
  | read pos count => trivial
  | write pos data count =>
    intro accepts k readable
    have after := sound_iff.mp sound k readable
    have before := inv k readable
    obtain ⟨memory, expected⟩ := step_accepted step accepts k readable.lt
    rw [memory, expected, put] at after
    by_cases named : 4096 * pos.toUInt32.toNat ≤ k ∧ k < 4096 * pos.toUInt32.toNat + data.length
    · simp only [if_pos named] at after ⊢
      by_cases clears : flash.Clears (dev.first pos) (BoardBlk.bytes count) (dev.address k)
      · exact .inl clears
      · rw [if_neg clears] at after
        exact .inr after
    · simp only [if_neg named] at after ⊢
      intro clears
      rw [if_pos clears] at after
      rw [before, after]

theorem kept {a : BlkAction} (inv : Inv dev s) (allowed : Allowed dev s a) (step : Step dev s a s') : Inv dev s' := by
  cases a with
  | read pos count =>
    obtain ⟨-, rfl⟩ := step
    exact inv
  | write pos data count =>
    by_cases accepts : flash.Accepts (dev.first pos) (BoardBlk.bytes count)
    · intro k readable
      have before := inv k readable
      have all (d : UInt8) : 255 &&& d = d := UInt8.neg_one_and
      have free := allowed accepts k readable
      obtain ⟨memory, expected⟩ := step_accepted step accepts k readable.lt
      rw [memory, expected, put]
      by_cases named : 4096 * pos.toUInt32.toNat ≤ k ∧ k < 4096 * pos.toUInt32.toNat + data.length
      · simp only [if_pos named] at free ⊢
        by_cases clears : flash.Clears (dev.first pos) (BoardBlk.bytes count) (dev.address k)
        · rw [if_pos clears]
          exact all _
        · rw [if_neg clears]
          exact free.resolve_left clears
      · simp only [if_neg named] at free ⊢
        by_cases clears : flash.Clears (dev.first pos) (BoardBlk.bytes count) (dev.address k)
        · rw [if_pos clears, ← before, free clears]
        · rw [if_neg clears, before]
    · rw [step_refused step accepts]
      exact inv

theorem allowed_onchip {dev : BoardBlk .mcuOnchipFlash} {s s' : BlkStore} {a : BlkAction}
    (low : 0 ≤ (dev.fal.part dev.part).offset.toInt)
    (high : (dev.fal.part dev.part).offset.toInt + (dev.fal.part dev.part).len.toNat ≤ mcuFlashSize.toNat)
    (step : Step dev s a s') : Allowed dev s a := by
  cases a with
  | read pos count => trivial
  | write pos data count =>
    obtain ⟨inside, whole, -⟩ := step
    intro accepts k readable
    have stop := inside.stop
    have start := inside.start
    have device := dev.sectorCount_eq
    have below := readable.lt
    have size : mcuFlashSize.toNat = 524288 := by decide
    have own : (dev.fal.part dev.part).offset.toInt = asInt (dev.fal.part dev.part).offset.toUInt32 := rfl
    have value := asInt_eq (dev.fal.part dev.part).offset.toUInt32
    have bound := (dev.fal.part dev.part).offset.toUInt32.toNat_lt
    have offset : (dev.fal.part dev.part).offset.toInt = (dev.fal.part dev.part).offset.toUInt32.toNat := by
      split at value <;> omega
    have place (j : Nat) (less : j < dev.sectorCount * 4096) :
        (dev.address j).toNat = (dev.fal.part dev.part).offset.toUInt32.toNat + j := by
      rw [BoardBlk.address, UInt32.toNat_add, UInt32.toNat_ofNat']
      omega
    have head : (dev.first pos).toNat = (dev.fal.part dev.part).offset.toUInt32.toNat + 4096 * pos.toUInt32.toNat :=
      place _ (by omega)
    have words := inside.first_words
    have clears : BoardFlash.mcuOnchipFlash.Clears (dev.first pos) (BoardBlk.bytes count) (dev.address k) ↔
        4096 * pos.toUInt32.toNat ≤ k ∧ k < 4096 * pos.toUInt32.toNat + data.length := by
      simp only [BoardFlash.Clears, whole]
      by_cases none : count.toNat = 0
      · have pages : (nbOfPages (dev.first pos) (BoardBlk.bytes count)).toNat = 0 := by
          rw [nbOfPages_cases, inside.bytes_toNat, none, if_pos (by omega)]
          split <;> omega
        rw [erased_none _ _ pages, none]
        exact iff_of_false (Set.notMem_empty _) (by omega)
      · rw [erased_request _ _ (by rw [inside.bytes_toNat]; omega) (by rw [inside.bytes_toNat]; omega),
          pages_interval _ _ _ (by rw [inside.bytes_toNat]; omega), inside.bytes_toNat, place k below]
        simp only [Set.mem_ofPred_eq]
        omega
    split
    · exact .inl (clears.mpr ‹_›)
    · exact fun cleared => absurd (clears.mp cleared) ‹_›

def opened (dev : BoardBlk flash) (memory : Memory) : BlkStore := ⟨memory, fun k => memory (dev.address k)⟩

/-- The block device is a block store throughout just if each write is allowed, and it always is on the on-chip flash. -/
theorem blk_store (dev : BoardBlk flash) (memory : Memory) (actions : List BlkAction) :
    (Throughout (Step dev) (opened dev memory) actions (Sound dev) ↔
      EachStep (Step dev) (opened dev memory) actions (Allowed dev)) ∧
    (flash = .mcuOnchipFlash → 0 ≤ (dev.fal.part dev.part).offset.toInt →
      (dev.fal.part dev.part).offset.toInt + (dev.fal.part dev.part).len.toNat ≤ mcuFlashSize.toNat →
      Throughout (Step dev) (opened dev memory) actions (Sound dev)) := by
  have exact : Throughout (Step dev) (opened dev memory) actions (Sound dev) ↔
      EachStep (Step dev) (opened dev memory) actions (Allowed dev) :=
    throughout_iff_eachStep (fun _ => sound_iff.mpr) (fun _ _ _ => kept) (fun _ _ _ => needed) fun _ _ => rfl
  refine ⟨exact, ?_⟩
  rintro rfl low high
  refine exact.mpr ?_
  intro before a mid next inside run step
  exact allowed_onchip low high step

/-- A partition of two blocks in one 64 KB block. -/
def twoBlocks : BoardBlk (.norFlash0 "nor_flash0".toList 8192) where
  devices := [BoardFlash.falFlashDev (.norFlash0 "nor_flash0".toList 8192)]
  fal := ⟨[⟨"storage".toList, "nor_flash0".toList, 0, 8192⟩], _,
    checkAndUpdatePartCache_checked _ _ [some _] rfl⟩
  part := ⟨0, by decide⟩
  found := rfl
  offset := by decide
  len := by decide

theorem blk_store_shared : ¬Throughout (Step twoBlocks) (opened twoBlocks fun _ => 255)
    [.write 0 (.replicate 4096 0) 1, .write 1 (.replicate 4096 0) 1] (Sound twoBlocks) := by
  intro sound
  obtain ⟨mid, first⟩ : ∃ mid, Step twoBlocks (opened twoBlocks fun _ => 255) (.write 0 (.replicate 4096 0) 1) mid :=
    ⟨_, ⟨by decide, by decide, by decide⟩, List.length_replicate, rfl⟩
  obtain ⟨last, second⟩ : ∃ last, Step twoBlocks mid (.write 1 (.replicate 4096 0) 1) last :=
    ⟨_, ⟨by decide, by decide, by decide⟩, List.length_replicate, rfl⟩
  have after := sound_iff.mp (sound _ _ (List.prefix_refl _) (.snoc (.snoc (.nil _) first) second)) 0
    ⟨0, 1, ⟨by decide, by decide, by decide⟩, trivial, by decide, by decide⟩
  obtain ⟨memory, expected⟩ := step_accepted second trivial 0 (by decide)
  have stored := (step_accepted first trivial 0 (by decide)).2
  have cleared : twoBlocks.address 0 / 0x10000 = twoBlocks.first 1 / 0x10000 := by decide
  have lost : last.memory (twoBlocks.address 0) = 255 := by
    rw [memory, List.length_replicate]
    exact (if_neg (by decide)).trans (if_pos cleared)
  have wanted : last.expected 0 = 0 := by
    rw [expected, put, List.length_replicate, if_neg (by decide), stored, put, List.length_replicate, if_pos (by decide)]
    rfl
  rw [lost, wanted] at after
  exact absurd after (by decide)

end BlkStore

end RtThread.Flash
