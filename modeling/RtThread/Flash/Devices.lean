import RtThread.Flash.Partition
import Mathlib.Data.List.FinRange

/-! The block, MTD and char devices that FAL puts over a partition, and where they keep to it. -/

set_option autoImplicit false
namespace RtThread.Flash
section devices
variable {devices : List FalFlashDev} (fal : Fal devices)

structure BlkGeometry where
  bytesPerSector : UInt32
  blockSize : UInt32
  sectorCount : UInt32

structure FalBlkDevice where
  falPart : fal.Part
  geometry : BlkGeometry

def falBlkDeviceCreate (name : List Char) : Option (FalBlkDevice fal) :=
  match falPartitionFind fal name with
  | none => none
  | some i =>
    match falFlashDeviceFind devices (fal.part i).flashName with
    | none => none
    | some falFlash =>
      some ⟨i, ⟨falFlash.blkSize, falFlash.blkSize, (fal.part i).len / falFlash.blkSize⟩⟩

section block
variable {fal} (dev : FalBlkDevice fal)

/-- The RT_DEVICE_CTRL_BLK_ERASE command. -/
def blkDevErase (startAddr endAddr : UInt32) : Served :=
  if startAddr > endAddr then ⟨-rtError, []⟩
  else
    let endAddr := if endAddr = startAddr then endAddr + 1 else endAddr
    let phyStartAddr := startAddr * dev.geometry.bytesPerSector
    let phySize := (endAddr - startAddr) * dev.geometry.bytesPerSector
    let erased := falPartitionErase fal dev.falPart phyStartAddr phySize
    if erased.ret < 0 then ⟨-rtError, erased.calls⟩ else ⟨0, erased.calls⟩

def blkDevRead (pos : Int32) (size : UInt32) : Served :=
  let bytes := size * dev.geometry.blockSize
  let loaded := falPartitionRead fal dev.falPart (pos.toUInt32 * dev.geometry.blockSize) bytes
  if loaded.ret ≠ asInt bytes then ⟨0, loaded.calls⟩ else ⟨asInt size, loaded.calls⟩

def blkDevWrite (pos : Int32) (size : UInt32) : Served :=
  let phyPos := (pos.toUInt32 * dev.geometry.bytesPerSector).toInt32
  let phySize := size * dev.geometry.bytesPerSector
  let erased := falPartitionErase fal dev.falPart phyPos.toUInt32 phySize
  let written :=
    if erased.ret = asInt phySize then
      let programmed := falPartitionWrite fal dev.falPart phyPos.toUInt32 phySize
      ⟨programmed.ret, erased.calls ++ programmed.calls⟩
    else erased
  if written.ret ≠ asInt phySize then ⟨0, written.calls⟩ else ⟨asInt size, written.calls⟩

end block

section mtd
variable (i : fal.Part)

def mtdNorDevOp (op : FlashOp) (offset : Int32) (length : UInt32) : Served :=
  let done := falPartitionOp fal op i offset.toUInt32 length
  if done.ret ≠ asInt length then ⟨0, done.calls⟩ else ⟨asInt length, done.calls⟩

def mtdNorDevRead (offset : Int32) (length : UInt32) : Served := mtdNorDevOp fal i .read offset length

def mtdNorDevWrite (offset : Int32) (length : UInt32) : Served := mtdNorDevOp fal i .write offset length

def mtdNorDevErase (offset : Int32) (length : UInt32) : Served :=
  let erased := falPartitionErase fal i offset.toUInt32 length
  -- (rt_uint32_t)ret != length || ret < 0
  if erased.ret % 2 ^ 32 ≠ length.toNat ∨ erased.ret < 0 then ⟨-rtError, erased.calls⟩
  else ⟨0, erased.calls⟩

end mtd

section char
variable (i : fal.Part)

/-- The size that the char device lets through from `pos`. -/
def clip (pos : Int32) (size : UInt32) : UInt32 :=
  if pos.toUInt32 + size > (fal.part i).len then (fal.part i).len - pos.toUInt32 else size

def charDevRead (pos : Int32) (size : UInt32) : Served :=
  let size := clip fal i pos size
  let loaded := falPartitionRead fal i pos.toUInt32 size
  if loaded.ret ≠ asInt size then ⟨0, loaded.calls⟩ else loaded

/-- A write at position 0 erases the partition and is not clipped. -/
def charDevWrite (pos : Int32) (size : UInt32) : Served :=
  let erased := if pos = 0 then falPartitionEraseAll fal i else ⟨0, []⟩
  let size := if pos = 0 then size else clip fal i pos size
  let written := falPartitionWrite fal i pos.toUInt32 size
  ⟨if written.ret ≠ asInt size then 0 else written.ret, erased.calls ++ written.calls⟩

inductive AccMode where | rdonly | wronly | rdwr | other

def charDevFopen (mode : AccMode) : Served :=
  match mode with
  | .wronly | .rdwr => ⟨0, (falPartitionEraseAll fal i).calls⟩
  | .rdonly | .other => ⟨0, []⟩

/-- What fread and fwrite share: the clipped request at the file position, and the new position. -/
def charDevFile (op : FlashOp) (pos : Int32) (count : UInt32) : Served × Int :=
  let count := clip fal i pos count
  let done := falPartitionOp fal op i pos.toUInt32 count
  if done.ret ≠ asInt count then (⟨0, done.calls⟩, pos.toInt)
  else (done, (pos.toInt + done.ret).bmod (2 ^ 32))

def charDevFread (pos : Int32) (count : UInt32) : Served × Int := charDevFile fal i .read pos count

def charDevFwrite (pos : Int32) (count : UInt32) : Served × Int := charDevFile fal i .write pos count

end char

inductive Entry where
  | partition (op : FlashOp) (addr size : UInt32)
  | eraseAll
  | blkErase (geometry : BlkGeometry) (startAddr endAddr : UInt32)
  | blkRead (geometry : BlkGeometry) (pos : Int32) (size : UInt32)
  | blkWrite (geometry : BlkGeometry) (pos : Int32) (size : UInt32)
  | mtdRead (offset : Int32) (length : UInt32)
  | mtdWrite (offset : Int32) (length : UInt32)
  | mtdErase (offset : Int32) (length : UInt32)
  | charRead (pos : Int32) (size : UInt32)
  | charWrite (pos : Int32) (size : UInt32)
  | charFopen (mode : AccMode)
  | charFread (pos : Int32) (count : UInt32)
  | charFwrite (pos : Int32) (count : UInt32)

variable (i : fal.Part)

def serve : Entry → Served
  | .partition .read addr size => falPartitionRead fal i addr size
  | .partition .write addr size => falPartitionWrite fal i addr size
  | .partition .erase addr size => falPartitionErase fal i addr size
  | .eraseAll => falPartitionEraseAll fal i
  | .blkErase geometry startAddr endAddr => blkDevErase ⟨i, geometry⟩ startAddr endAddr
  | .blkRead geometry pos size => blkDevRead ⟨i, geometry⟩ pos size
  | .blkWrite geometry pos size => blkDevWrite ⟨i, geometry⟩ pos size
  | .mtdRead offset length => mtdNorDevRead fal i offset length
  | .mtdWrite offset length => mtdNorDevWrite fal i offset length
  | .mtdErase offset length => mtdNorDevErase fal i offset length
  | .charRead pos size => charDevRead fal i pos size
  | .charWrite pos size => charDevWrite fal i pos size
  | .charFopen mode => charDevFopen fal i mode
  | .charFread pos count => (charDevFread fal i pos count).1
  | .charFwrite pos count => (charDevFwrite fal i pos count).1

def requests : Entry → List (UInt32 × UInt32)
  | .partition _ addr size => [(addr, size)]
  | .eraseAll => [(0, (fal.part i).len)]
  | .blkErase geometry startAddr endAddr =>
    if startAddr > endAddr then []
    else [(startAddr * geometry.bytesPerSector,
      ((if endAddr = startAddr then endAddr + 1 else endAddr) - startAddr) * geometry.bytesPerSector)]
  | .blkRead geometry pos size => [(pos.toUInt32 * geometry.blockSize, size * geometry.blockSize)]
  | .blkWrite geometry pos size =>
    [(pos.toUInt32 * geometry.bytesPerSector, size * geometry.bytesPerSector)]
  | .mtdRead offset length | .mtdWrite offset length | .mtdErase offset length =>
    [(offset.toUInt32, length)]
  | .charRead pos size | .charFread pos size | .charFwrite pos size =>
    [(pos.toUInt32, clip fal i pos size)]
  | .charWrite pos size =>
    if pos = 0 then [(0, (fal.part i).len), (0, size)] else [(pos.toUInt32, clip fal i pos size)]
  | .charFopen .wronly | .charFopen .rdwr => [(0, (fal.part i).len)]
  | .charFopen .rdonly | .charFopen .other => []

end devices

section board

def mcuOnchipFlash (nvmc : Nvmc) (memory : UInt32 → UInt8) : FalFlashDev where
  name := "mcu_onchip_flash".toList
  len := mcuFlashSize
  blkSize := mcuFlashPageSize
  ops
    | .read, offset, size => (mcuFlashRead memory (mcuFlashStartAddress + offset.toUInt32) size).status
    | .write, offset, size => (mcuFlashWrite (mcuFlashStartAddress + offset.toUInt32) [] size).status
    | .erase, offset, size => (mcuFlashErase nvmc (mcuFlashStartAddress + offset.toUInt32) size).status

def falPartTable : List FalPartition :=
  [⟨"filesystem".toList, "mcu_onchip_flash".toList, 224 * 1024, 120 * 1024⟩]

end board

end RtThread.Flash
