import RtThread.Flash.Devices

/-! What an erase or a write of a partition leaves alone, on the on-chip flash: the driver erases whole pages. -/

set_option autoImplicit false
namespace RtThread.Flash
open Lib

def FlashCall.touched (nvmc : Nvmc) (call : FlashCall) : Set Nat :=
  match call.op with
  | .read => ∅
  | .write => (mcuFlashWrite (mcuFlashStartAddress + call.offset.toUInt32) [] call.size).touched nvmc
  | .erase => (mcuFlashErase nvmc (mcuFlashStartAddress + call.offset.toUInt32) call.size).touched nvmc

def Served.touched (nvmc : Nvmc) (served : Served) : Set Nat := {b | ∃ call ∈ served.calls, b ∈ call.touched nvmc}

/-- A request for some bytes, none of whose addresses leaves the 32-bit range. -/
structure Plain (part : FalPartition) (addr size : Nat) : Prop where
  some : 0 < size
  flat : addr + size < 2 ^ 32
  start : 0 ≤ part.offset.toInt + addr
  stop : part.offset.toInt + addr + size < 2 ^ 32

/-- Of a request of a partition, only pages with a byte of it change; and in a partition of whole pages, nothing
outside it does. -/
structure Isolated (part : FalPartition) (addr size : Nat) (touched : Set Nat) : Prop where
  rounded : ∀ b ∈ touched, ∃ c : Nat, part.offset.toInt + addr ≤ c ∧ (c : Int) < part.offset.toInt + addr + size ∧
    c / mcuFlashPageSize.toNat = b / mcuFlashPageSize.toNat
  inside : (mcuFlashPageSize.toNat : Int) ∣ part.offset.toInt → mcuFlashPageSize.toNat ∣ part.len.toNat →
    ∀ b ∈ touched, part.offset.toInt ≤ b ∧ (b : Int) < part.offset.toInt + part.len.toNat

variable {part : FalPartition} {addr size : Nat} {touched more : Set Nat}

theorem Isolated.none : Isolated part addr size ∅ := ⟨by simp, by simp⟩

theorem Isolated.union (first : Isolated part addr size touched) (second : Isolated part addr size more) :
    Isolated part addr size (touched ∪ more) where
  rounded b member := member.elim (first.rounded b) (second.rounded b)
  inside offset len b member := member.elim (first.inside offset len b) (second.inside offset len b)

theorem isolated_of_pages (start : Nat) (place : part.offset.toInt + addr = start)
    (within : addr + size ≤ part.len.toNat) (rounded : ∀ b ∈ touched, ∃ c, start ≤ c ∧ c < start + size ∧ c / 4096 = b / 4096) :
    Isolated part addr size touched where
  rounded b member := by
    obtain ⟨c, low, high, same⟩ := rounded b member
    rw [pageSize_toNat]
    exact ⟨c, by omega, by omega, same⟩
  inside offset len b member := by
    obtain ⟨c, low, high, same⟩ := rounded b member
    rw [pageSize_toNat] at offset len
    obtain ⟨first, offset⟩ := offset
    obtain ⟨number, len⟩ := len
    omega

section
variable {nvmc : Nvmc} {devices : List FalFlashDev} (fal : Fal devices) (i : fal.Part)

theorem driver_toNat (offset : Int32) (addr : UInt32) (start : 0 ≤ offset.toInt + addr.toNat)
    (stop : offset.toInt + addr.toNat < 2 ^ 32) :
    ((mcuFlashStartAddress + ((offset.toUInt32 + addr).toInt32).toUInt32).toNat : Int) = offset.toInt + addr.toNat := by
  have back : ((offset.toUInt32 + addr).toInt32).toUInt32 = offset.toUInt32 + addr := rfl
  have zero : mcuFlashStartAddress + (offset.toUInt32 + addr) = offset.toUInt32 + addr := UInt32.zero_add _
  have own : offset.toInt = asInt offset.toUInt32 := rfl
  have value := asInt_eq offset.toUInt32
  have bound := offset.toUInt32.toNat_lt
  have addrBound := addr.toNat_lt
  rw [back, zero, UInt32.toNat_add]
  rw [own] at start stop ⊢
  split_ifs at value <;> omega

theorem driver_touched (exact : nvmc.Exact) (op : FlashOp) (call : FlashCall) (same : call.op = op)
    (some : 0 < call.size.toNat)
    (flat : (mcuFlashStartAddress + call.offset.toUInt32).toNat + call.size.toNat < 2 ^ 32) :
    ∀ b ∈ call.touched nvmc, ∃ c, (mcuFlashStartAddress + call.offset.toUInt32).toNat ≤ c ∧
      c < (mcuFlashStartAddress + call.offset.toUInt32).toNat + call.size.toNat ∧ c / 4096 = b / 4096 := by
  obtain ⟨addr, addrIs⟩ : ∃ addr, addr = mcuFlashStartAddress + call.offset.toUInt32 := ⟨_, rfl⟩
  rw [← addrIs] at flat ⊢
  have big : ¬call.size < 1 := by
    rw [UInt32.lt_iff_toNat_lt, UInt32.toNat_one]
    omega
  intro b member
  rw [FlashCall.touched, same, ← addrIs] at member
  by_cases rejected : addr + call.size > mcuFlashEndAddress
  · -- the driver refuses the range
    cases op with
    | read => exact absurd member (Set.notMem_empty b)
    | write =>
      have nothing : (mcuFlashWrite addr [] call.size).calls = [] := by rw [mcuFlashWrite, if_pos rejected]
      rw [touched_nil nvmc _ nothing] at member
      exact absurd member (Set.notMem_empty b)
    | erase =>
      have nothing : (mcuFlashErase nvmc addr call.size).calls = [] := by rw [mcuFlashErase, if_pos rejected]
      rw [touched_nil nvmc _ nothing] at member
      exact absurd member (Set.notMem_empty b)
  · have fits := rejected
    rw [rejected_iff, Nat.mod_eq_of_lt flat] at fits
    cases op with
    | read => exact absurd member (Set.notMem_empty b)
    | write =>
      by_cases aligned : addr % 4 = 0
      · rw [write_touched nvmc exact addr [] call.size rejected aligned big,
          sweep_eq_interval _ _ _ (by omega)] at member
        exact ⟨b, member.1, member.2, rfl⟩
      · have nothing : (mcuFlashWrite addr [] call.size).calls = [] := by
          rw [mcuFlashWrite, if_neg rejected, if_pos aligned]
        rw [touched_nil nvmc _ nothing] at member
        exact absurd member (Set.notMem_empty b)
    | erase =>
      rw [(erase_accepted nvmc exact addr call.size rejected).2, erased_request addr call.size (by omega) some] at member
      obtain ⟨c, ⟨low, high⟩, page⟩ := member
      exact ⟨c, low, high, page⟩

theorem touched_append (nvmc : Nvmc) (ret : Int) (first second : Served) :
    Served.touched nvmc ⟨ret, first.calls ++ second.calls⟩ = first.touched nvmc ∪ second.touched nvmc := by
  ext b
  simp [Served.touched, or_and_right, exists_or]

theorem touched_congr (nvmc : Nvmc) (first second : Served) (same : first.calls = second.calls) :
    first.touched nvmc = second.touched nvmc := by
  rw [Served.touched, Served.touched, same]

theorem falPartitionOp_isolated (exact : nvmc.Exact) (op : FlashOp) (addr size : UInt32)
    (plain : Plain (fal.part i) addr.toNat size.toNat) :
    Isolated (fal.part i) addr.toNat size.toNat ((falPartitionOp fal op i addr size).touched nvmc) := by
  by_cases out : (fal.part i).len < addr + size
  · rw [falPartitionOp_refused fal op i addr size (Or.inl out)]
    simpa [Served.touched] using Isolated.none
  cases found : flashDeviceFindByPart fal i with
  | none =>
    rw [falPartitionOp_refused fal op i addr size (Or.inr found)]
    simpa [Served.touched] using Isolated.none
  | some dev =>
    have calls := falPartitionOp_served fal op i addr size dev out found
    have start := driver_toNat (fal.part i).offset addr plain.start (by have := plain.stop; omega)
    have within : addr.toNat + size.toNat ≤ (fal.part i).len.toNat := by
      rw [UInt32.lt_iff_toNat_lt, UInt32.toNat_add, Nat.mod_eq_of_lt plain.flat] at out
      omega
    have stop := plain.stop
    refine isolated_of_pages _ start.symm within ?_
    intro b member
    rw [Served.touched, calls] at member
    obtain ⟨call, listed, inside⟩ := member
    obtain rfl := List.mem_singleton.mp listed
    exact driver_touched exact op _ rfl plain.some (by simp only; omega) b inside

theorem blkDevWrite_isolated (exact : nvmc.Exact) (dev : FalBlkDevice fal) (pos : Int32) (size : UInt32)
    (plain : Plain (fal.part dev.falPart) (pos.toUInt32 * dev.geometry.bytesPerSector).toNat
      (size * dev.geometry.bytesPerSector).toNat) :
    Isolated (fal.part dev.falPart) (pos.toUInt32 * dev.geometry.bytesPerSector).toNat
      (size * dev.geometry.bytesPerSector).toNat ((blkDevWrite dev pos size).touched nvmc) := by
  have back (n : UInt32) : n.toInt32.toUInt32 = n := rfl
  have erased := falPartitionOp_isolated fal dev.falPart exact .erase _ _ plain
  have written := falPartitionOp_isolated fal dev.falPart exact .write _ _ plain
  by_cases complete : (falPartitionErase fal dev.falPart (pos.toUInt32 * dev.geometry.bytesPerSector)
      (size * dev.geometry.bytesPerSector)).ret = asInt (size * dev.geometry.bytesPerSector)
  · have calls : (blkDevWrite dev pos size).calls =
        (falPartitionOp fal .erase dev.falPart (pos.toUInt32 * dev.geometry.bytesPerSector)
          (size * dev.geometry.bytesPerSector)).calls ++
        (falPartitionOp fal .write dev.falPart (pos.toUInt32 * dev.geometry.bytesPerSector)
          (size * dev.geometry.bytesPerSector)).calls := by
      simp only [blkDevWrite, apply_ite Served.calls, ite_self, back]
      exact if_pos complete
    rw [touched_congr nvmc _ ⟨0, _⟩ calls, touched_append]
    exact erased.union written
  · have calls : (blkDevWrite dev pos size).calls =
        (falPartitionOp fal .erase dev.falPart (pos.toUInt32 * dev.geometry.bytesPerSector)
          (size * dev.geometry.bytesPerSector)).calls := by
      simp only [blkDevWrite, apply_ite Served.calls, ite_self, back]
      exact if_neg complete
    rw [touched_congr nvmc _ _ calls]
    exact erased

end

section board
variable {nvmc : Nvmc} {memory : UInt32 → UInt8}

/-- On the on-chip flash, for every accepted partition table: an erase of a partition, and a write of its block device,
is isolated, whatever the alignments. -/
theorem partition_isolated (exact : nvmc.Exact) (fal : Fal [mcuOnchipFlash nvmc memory]) :
    (∀ i addr size, Plain (fal.part i) addr.toNat size.toNat →
      Isolated (fal.part i) addr.toNat size.toNat ((falPartitionErase fal i addr size).touched nvmc)) ∧
    ∀ name dev pos size, falBlkDeviceCreate fal name = some dev →
      Plain (fal.part dev.falPart) (pos.toUInt32.toNat * mcuFlashPageSize.toNat) (size.toNat * mcuFlashPageSize.toNat) →
      Isolated (fal.part dev.falPart) (pos.toUInt32.toNat * mcuFlashPageSize.toNat)
        (size.toNat * mcuFlashPageSize.toNat) ((blkDevWrite dev pos size).touched nvmc) := by
  constructor
  · exact fun i addr size plain => falPartitionOp_isolated fal i exact .erase addr size plain
  · intro name dev pos size created plain
    have sector : dev.geometry.bytesPerSector = mcuFlashPageSize := by
      rw [falBlkDeviceCreate] at created
      split at created
      · cases created
      · split at created
        · cases created
        · rename_i falFlash found
          cases created
          have listed : falFlash ∈ [mcuOnchipFlash nvmc memory] := List.mem_of_find?_eq_some found
          rw [List.mem_singleton.mp listed]
          rfl
    have place : (pos.toUInt32 * dev.geometry.bytesPerSector).toNat = pos.toUInt32.toNat * mcuFlashPageSize.toNat := by
      rw [sector, UInt32.toNat_mul]
      exact Nat.mod_eq_of_lt (by have := plain.flat; omega)
    have bytes : (size * dev.geometry.bytesPerSector).toNat = size.toNat * mcuFlashPageSize.toNat := by
      rw [sector, UInt32.toNat_mul]
      exact Nat.mod_eq_of_lt (by have := plain.flat; omega)
    have isolated := blkDevWrite_isolated fal exact dev pos size
    rw [place, bytes] at isolated
    exact isolated plain

def sharedTable : List FalPartition := [⟨"settings".toList, "mcu_onchip_flash".toList, 1024, 1024⟩]

/-- The erase of the whole partition succeeds, and clears the bytes in front of it. -/
theorem partition_shared_page : ∃ fal : Fal [mcuOnchipFlash Nvmc.ideal fun _ => 0],
    falPartitionInit [mcuOnchipFlash Nvmc.ideal fun _ => 0] sharedTable = some fal ∧ ∃ i : fal.Part,
      (falPartitionErase fal i 0 1024).ret = 1024 ∧ 0 ∈ (falPartitionErase fal i 0 1024).touched Nvmc.ideal ∧
        ¬(fal.part i).offset.toInt ≤ (0 : Nat) := by
  have erased : mcuFlashErase Nvmc.ideal 1024 1024 = ⟨1024, [.pageErase 0]⟩ := rfl
  refine ⟨_, rfl, ⟨0, by decide⟩, ?_, ?_, by decide⟩
  · have status : (mcuFlashErase Nvmc.ideal 1024 1024).status = 1024 := by rw [erased]
    exact status
  refine ⟨_, List.mem_singleton_self _, ?_⟩
  have touched : 0 ∈ (mcuFlashErase Nvmc.ideal 1024 1024).touched Nvmc.ideal := by
    rw [erased]
    exact ⟨.pageErase 0, List.mem_singleton_self _, by decide, by decide⟩
  exact touched

theorem partition_isolated_filesystem : ∃ fal : Fal [mcuOnchipFlash Nvmc.ideal fun _ => 0],
    falPartitionInit [mcuOnchipFlash Nvmc.ideal fun _ => 0] falPartTable = some fal ∧ ∃ i : fal.Part,
      Isolated (fal.part i) 0 100 ((falPartitionErase fal i 0 100).touched Nvmc.ideal) := by
  refine ⟨_, rfl, ⟨0, by decide⟩, ?_⟩
  exact (partition_isolated Nvmc.ideal_exact _).1 _ 0 100 ⟨by decide, by decide, by decide, by decide⟩

end board

end RtThread.Flash
