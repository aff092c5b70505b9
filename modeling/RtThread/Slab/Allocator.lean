import RtThread.Slab.Pages
import Mathlib.Data.UInt

/-! The slab allocator (`slab.c`). A pointer to a page or a zone is the number of its page, other pointers are
addresses, and RT_NULL is `none`. The lists that the allocator links through free pages, zone headers and free chunks
are lists here. An operation is `none` where an RT_ASSERT of it fails or where it follows RT_NULL. -/

set_option autoImplicit false
namespace RtThread.Slab
open Lib

def zallocSlabMagic : UInt32 := 0x51ab51ab
def zallocZoneLimit : Nat := 16 * 1024
def zallocMinZoneSize : Nat := 32 * 1024
def zallocMaxZoneSize : Nat := 128 * 1024
def zoneReleaseThresh : Nat := 2
def rtSlabNzones : Nat := 72

/-- `sizeof(struct rt_slab_zone)` -/
def sizeofZone : Nat := 36

/-- `sizeof(struct rt_slab)` -/
def sizeofSlab : Nat := 364

/-- `sizeof(struct rt_slab_memusage)` -/
def sizeofMemusage : Nat := 4

inductive PageType where
  | free
  | small
  | large
  deriving DecidableEq, Repr

/-- `struct rt_slab_memusage` -/
structure Memusage where
  type : PageType
  size : Nat
  deriving DecidableEq, Repr

/-- `struct rt_slab_zone`, but for `z_next`. -/
structure Zone where
  magic : UInt32
  nfree : Nat
  nmax : Nat
  baseptr : Nat
  uindex : Nat
  chunksize : Nat
  zoneindex : Nat
  freechunk : List Nat
  deriving DecidableEq, Repr

/-- `struct rt_slab`, with what its memusage array and its zones hold. -/
structure RtSlab where
  heapStart : Nat
  heapEnd : Nat
  memusage : Option Nat
  usage : Nat → Memusage
  zoneArray : Nat → List Nat
  zoneFree : List Nat
  zoneFreeCnt : Nat
  zoneSize : Nat
  zoneLimit : Nat
  zonePageCnt : Nat
  pageList : List Extent
  zone : Nat → Zone
  used : UInt32
  max : UInt32

namespace RtSlab

/-- The index of the descriptor that `btokup` gives for an address. -/
def btokup (slab : RtSlab) (addr : Nat) : Nat := (addr - slab.heapStart) / 4096

def addUsed (slab : RtSlab) (size : Nat) : RtSlab :=
  let used := slab.used + UInt32.ofNat size
  { slab with used := used, max := if used > slab.max then used else slab.max }

def rtSlabPageAlloc (slab : RtSlab) (npages : Nat) : RtSlab × Option Nat :=
  if npages = 0 then (slab, none)
  else
    match pageAlloc npages slab.pageList with
    | none => (slab, none)
    | some (page, list) => ({ slab with pageList := list }, some page)

def rtSlabPageFree (slab : RtSlab) (addr npages : Nat) : Option RtSlab :=
  if addr = 0 ∨ addr % 4096 ≠ 0 ∨ npages = 0 then none
  else (pageFree (addr / 4096) npages slab.pageList).map fun list => { slab with pageList := list }

def fitZoneSize (limsize zoneSize : Nat) : Nat :=
  if 0 < zoneSize ∧ zoneSize < zallocMaxZoneSize ∧ zoneSize <<< 1 < limsize / 1024 then
    fitZoneSize limsize (zoneSize <<< 1)
  else zoneSize
termination_by zallocMaxZoneSize - zoneSize
decreasing_by
  simp only [Nat.shiftLeft_eq]
  omega

/-- `rt_slab_init` for a region that ends below the last page of the address space; `usage` and `zone` are what the
memory holds before. -/
def rtSlabInit (beginAddr size : Nat) (usage : Nat → Memusage) (zone : Nat → Zone) : Option RtSlab :=
  let slab := (beginAddr + 7) / 8 * 8
  let startAddr := slab + sizeofSlab
  let beginAlign := (startAddr + 4095) / 4096 * 4096
  let endAlign := (beginAddr + size) / 4096 * 4096
  if beginAlign ≥ endAlign then none
  else
    let limsize := endAlign - beginAlign
    let npages := limsize / 4096
    let zoneSize := fitZoneSize limsize zallocMinZoneSize
    let zoneLimit := if zoneSize / 4 > zallocZoneLimit then zallocZoneLimit else zoneSize / 4
    let slab : RtSlab :=
      { heapStart := beginAlign, heapEnd := endAlign, memusage := none, usage := usage, zoneArray := fun _ => [],
        zoneFree := [], zoneFreeCnt := 0, zoneSize := zoneSize, zoneLimit := zoneLimit,
        zonePageCnt := zoneSize / 4096, pageList := [], zone := zone, used := 0, max := 0 }
    (slab.rtSlabPageFree beginAlign npages).map fun slab =>
      let limsize := (npages * sizeofMemusage + 4095) / 4096 * 4096
      let (slab, memusage) := slab.rtSlabPageAlloc (limsize / 4096)
      { slab with memusage := memusage }

end RtSlab

/-- `zoneindex` for a size that is not zero: the index, and the size rounded up to the chunk size. -/
def zoneindex (n : Nat) : Nat × Nat :=
  if n < 128 then ((n + 7) / 8 * 8 / 8 - 1, (n + 7) / 8 * 8)
  else if n < 256 then ((n + 15) / 16 * 16 / 16 + 7, (n + 15) / 16 * 16)
  else if n < 8192 then
    if n < 512 then ((n + 31) / 32 * 32 / 32 + 15, (n + 31) / 32 * 32)
    else if n < 1024 then ((n + 63) / 64 * 64 / 64 + 23, (n + 63) / 64 * 64)
    else if n < 2048 then ((n + 127) / 128 * 128 / 128 + 31, (n + 127) / 128 * 128)
    else if n < 4096 then ((n + 255) / 256 * 256 / 256 + 39, (n + 255) / 256 * 256)
    else ((n + 511) / 512 * 512 / 512 + 47, (n + 511) / 512 * 512)
  else if n < 16384 then ((n + 1023) / 1024 * 1024 / 1024 + 55, (n + 1023) / 1024 * 1024)
  else (0, n)

def chunkOffset (size : Nat) : Nat :=
  -- a size with this property is a power of two, and the mask of `size - 1` rounds up to a multiple of it
  if (size ||| (size - 1)) + 1 = size <<< 1 then (sizeofZone + size - 1) / size * size
  else (sizeofZone + 7) / 8 * 8

namespace RtSlab

def allocLarge (slab : RtSlab) (size : UInt32) : RtSlab × Option Nat :=
  let size := (size + 4095) &&& ~~~4095
  match slab.rtSlabPageAlloc (size.toNat >>> 12) with
  | (slab, none) => (slab, none)
  | (slab, some page) =>
    let kup := slab.btokup (page * 4096)
    let slab := { slab with usage := Function.update slab.usage kup ⟨.large, size.toNat >>> 12⟩ }
    (slab.addUsed size.toNat, some (page * 4096))

/-- An allocation from `z`, the first zone of its array, with `next` behind it. -/
def allocChunk (slab : RtSlab) (zi size z : Nat) (next : List Nat) : Option (RtSlab × Option Nat) :=
  let zone := slab.zone z
  if ¬zone.nfree > 0 then none
  else
    let nfree := zone.nfree - 1
    let zoneArray := if nfree = 0 then Function.update slab.zoneArray zi next else slab.zoneArray
    if zone.uindex + 1 ≠ zone.nmax then
      let uindex := zone.uindex + 1
      let slab := { slab with
        zoneArray := zoneArray
        zone := Function.update slab.zone z { zone with nfree := nfree, uindex := uindex } }
      some (slab.addUsed zone.chunksize, some (zone.baseptr + uindex * size))
    else
      match zone.freechunk with
      | [] => none
      | chunk :: freechunk =>
        let slab := { slab with
          zoneArray := zoneArray
          zone := Function.update slab.zone z { zone with nfree := nfree, freechunk := freechunk } }
        some (slab.addUsed zone.chunksize, some chunk)

def setUsage (usage : Nat → Memusage) (first : Nat) (kup : Nat → Memusage) : Nat → Nat → Memusage
  | 0 => usage
  | off + 1 => Function.update (setUsage usage first kup off) (first + off) (kup off)

def takeZone (slab : RtSlab) : RtSlab × Option Nat :=
  match slab.zoneFree with
  | z :: zoneFree => ({ slab with zoneFree := zoneFree, zoneFreeCnt := slab.zoneFreeCnt - 1 }, some z)
  | [] =>
    match slab.rtSlabPageAlloc (slab.zoneSize / 4096) with
    | (slab, none) => (slab, none)
    | (slab, some z) =>
      ({ slab with
        usage := setUsage slab.usage (slab.btokup (z * 4096)) (fun off => ⟨.small, off⟩) slab.zonePageCnt }, some z)

def openZone (slab : RtSlab) (zi size z : Nat) : RtSlab × Option Nat :=
  let off := chunkOffset size
  let nmax := (slab.zoneSize - off) / size
  let zone : Zone :=
    { magic := zallocSlabMagic, zoneindex := zi, nmax := nmax, nfree := nmax - 1, baseptr := z * 4096 + off,
      uindex := 0, chunksize := size, freechunk := [] }
  let slab := { slab with
    zone := Function.update slab.zone z zone
    zoneArray := Function.update slab.zoneArray zi (z :: slab.zoneArray zi) }
  (slab.addUsed size, some (zone.baseptr + 0 * size))

def rtSlabAlloc (slab : RtSlab) (size : UInt32) : Option (RtSlab × Option Nat) :=
  if size = 0 then some (slab, none)
  else if size.toNat ≥ slab.zoneLimit then some (slab.allocLarge size)
  else
    let (zi, size) := zoneindex size.toNat
    if ¬zi < rtSlabNzones then none
    else
      match slab.zoneArray zi with
      | z :: next => slab.allocChunk zi size z next
      | [] =>
        match slab.takeZone with
        | (slab, none) => some (slab, none)
        | (slab, some z) => some (slab.openZone zi size z)

end RtSlab

/-- `z_next` of a zone on a list. -/
def zNext (z : Nat) : List Nat → Option Nat
  | [] => none
  | y :: rest => if y = z then rest.head? else zNext z rest

def unlinkZone (z : Nat) : List Nat → Option (List Nat)
  | [] => none
  | y :: rest => if y = z then some rest else (unlinkZone z rest).map (y :: ·)

namespace RtSlab

/-- A whole zone goes to the free zones, and one of them to the page allocator if there are too many. -/
def retireZone (slab : RtSlab) (z : Nat) : Option RtSlab :=
  let zi := (slab.zone z).zoneindex
  match unlinkZone z (slab.zoneArray zi) with
  | none => none
  | some list =>
    let slab := { slab with
      zoneArray := Function.update slab.zoneArray zi list
      zone := Function.update slab.zone z { slab.zone z with magic := 0xffffffff }
      zoneFree := z :: slab.zoneFree
      zoneFreeCnt := slab.zoneFreeCnt + 1 }
    if slab.zoneFreeCnt > zoneReleaseThresh then
      match slab.zoneFree with
      | [] => none
      | z :: zoneFree =>
        let slab := { slab with
          zoneFree := zoneFree
          zoneFreeCnt := slab.zoneFreeCnt - 1
          usage := setUsage slab.usage (slab.btokup (z * 4096)) (fun _ => ⟨.free, 0⟩) slab.zonePageCnt }
        slab.rtSlabPageFree (z * 4096) (slab.zoneSize / 4096)
    else some slab

def freeChunk (slab : RtSlab) (z ptr : Nat) : Option RtSlab :=
  let zone := slab.zone z
  if zone.magic ≠ zallocSlabMagic then none
  else
    let slab := { slab with
      zone := Function.update slab.zone z { zone with freechunk := ptr :: zone.freechunk, nfree := zone.nfree + 1 }
      used := slab.used - UInt32.ofNat zone.chunksize
      zoneArray :=
        if zone.nfree = 0 then Function.update slab.zoneArray zone.zoneindex (z :: slab.zoneArray zone.zoneindex)
        else slab.zoneArray }
    let list := slab.zoneArray zone.zoneindex
    if zone.nfree + 1 = zone.nmax ∧ ((zNext z list).isSome ∨ list.head? ≠ some z) then slab.retireZone z
    else some slab

def freeLarge (slab : RtSlab) (kup ptr : Nat) : Option RtSlab :=
  let size := (slab.usage kup).size
  let slab := { slab with
    usage := Function.update slab.usage kup { slab.usage kup with size := 0 }
    used := slab.used - UInt32.ofNat (size * 4096) }
  slab.rtSlabPageFree ptr size

def rtSlabFree (slab : RtSlab) (ptr : Option Nat) : Option RtSlab :=
  match ptr with
  | none => some slab
  | some ptr =>
    let kup := slab.btokup (ptr / 4096 * 4096)
    if (slab.usage kup).type = .large then slab.freeLarge kup ptr
    else slab.freeChunk (ptr / 4096 - (slab.usage kup).size) ptr

/-- `rt_slab_realloc`, without the bytes that it copies. -/
def rtSlabRealloc (slab : RtSlab) (ptr : Option Nat) (size : UInt32) : Option (RtSlab × Option Nat) :=
  match ptr with
  | none => slab.rtSlabAlloc size
  | some ptr =>
    if size = 0 then (slab.rtSlabFree (some ptr)).map fun slab => (slab, none)
    else
      let kup := slab.usage (slab.btokup (ptr / 4096 * 4096))
      -- what both branches do once the new size is known
      let move (size : UInt32) : Option (RtSlab × Option Nat) :=
        match slab.rtSlabAlloc size with
        | none => none
        | some (slab, none) => some (slab, none)
        | some (slab, some nptr) => (slab.rtSlabFree (some ptr)).map fun slab => (slab, some nptr)
      match kup.type with
      | .large => move size
      | .small =>
        let zone := slab.zone (ptr / 4096 - kup.size)
        if zone.magic ≠ zallocSlabMagic then none
        else
          let size := (zoneindex size.toNat).2
          if zone.chunksize = size then some (slab, some ptr) else move (UInt32.ofNat size)
      | .free => some (slab, none)

end RtSlab

end RtThread.Slab
