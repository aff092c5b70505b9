import Mathlib.Data.Nat.Bitwise

/-! The small memory management algorithm (`mem.c`).

Every block starts with a `struct rt_small_mem_item`. Offsets are relative to
`heap_ptr`; a pointer handed to a client is the offset of its data area and
`RT_NULL` is `none`. Items and data bytes are two views of one memory, so
writing an item clobbers the bytes under it and the other way round.
-/

set_option autoImplicit false

namespace RtThread.Mem

/-- What the build fixes: the width of `rt_size_t`, `RT_ALIGN_SIZE` and the
sizes of the structures that live inside the region. -/
structure Config where
  wordBits : Nat
  alignBits : Nat
  /-- `sizeof(struct rt_small_mem_item)` -/
  itemSize : Nat
  /-- `sizeof(struct rt_small_mem)` -/
  smallMemSize : Nat
  /-- `MIN_SIZE` -/
  minSize : Nat
  align_le : alignBits ≤ wordBits
  item_pos : 0 < itemSize
  item_fits : itemSize + 2 ^ alignBits ≤ 2 ^ wordBits

namespace Config

variable (cfg : Config)

/-- One past the largest `rt_size_t`. -/
def word : Nat := 2 ^ cfg.wordBits

def alignSize : Nat := 2 ^ cfg.alignBits

/-- `RT_ALIGN(size, RT_ALIGN_SIZE)` in `rt_size_t` arithmetic; the mask is `~(RT_ALIGN_SIZE - 1)`. -/
def rtAlign (size : Nat) : Nat := ((size + (cfg.alignSize - 1)) % cfg.word) &&& (cfg.word - cfg.alignSize)

/-- `RT_ALIGN_DOWN(size, RT_ALIGN_SIZE)` -/
def rtAlignDown (size : Nat) : Nat := size &&& (cfg.word - cfg.alignSize)

def sizeofStructMem : Nat := cfg.rtAlign cfg.itemSize

def minSizeAligned : Nat := cfg.rtAlign cfg.minSize

/-- The 32-bit layout of this board, without memory tracing. -/
def board : Config where
  wordBits := 32
  alignBits := 3
  itemSize := 12
  smallMemSize := 56
  minSize := 12
  align_le := by decide
  item_pos := by decide
  item_fits := by decide

end Config

/-- `struct rt_small_mem_item`. `pool_ptr` holds the address of the heap object
with the used mark in its lowest bit; `pool` tells whether the address is there. -/
structure SmallMemItem where
  pool : Bool
  used : Bool
  next : Nat
  prev : Nat
  deriving DecidableEq, Repr

namespace SmallMemItem

def withNext (i : SmallMemItem) (next : Nat) : SmallMemItem := { i with next := next }

def withPrev (i : SmallMemItem) (prev : Nat) : SmallMemItem := { i with prev := prev }

def withPool (i : SmallMemItem) (pool used : Bool) : SmallMemItem := { i with pool := pool, used := used }

end SmallMemItem

/-- `struct rt_small_mem` and the memory it manages. -/
structure SmallMem where
  heapPtr : Nat
  heapEnd : Nat
  lfree : Nat
  memSizeAligned : Nat
  /-- `parent.used` -/
  used : Nat
  /-- `parent.max` -/
  max : Nat
  item : Nat → SmallMemItem
  byte : Nat → UInt8

namespace SmallMem

variable (cfg : Config)

def setItem (h : SmallMem) (offset : Nat) (value : SmallMemItem) : SmallMem :=
  { h with
    item := Function.update h.item offset value
    byte := fun place => if offset ≤ place ∧ place < offset + cfg.sizeofStructMem then 0 else h.byte place }

def setNext (h : SmallMem) (offset next : Nat) : SmallMem :=
  h.setItem cfg offset ((h.item offset).withNext next)

def setPrev (h : SmallMem) (offset prev : Nat) : SmallMem :=
  h.setItem cfg offset ((h.item offset).withPrev prev)

/-- `pool_ptr = MEM_USED()` -/
def markUsed (h : SmallMem) (offset : Nat) : SmallMem :=
  h.setItem cfg offset ((h.item offset).withPool true true)

/-- `pool_ptr = MEM_FREED()` -/
def markFreed (h : SmallMem) (offset : Nat) : SmallMem :=
  h.setItem cfg offset ((h.item offset).withPool true false)

/-- `pool_ptr = 0` -/
def clearPool (h : SmallMem) (offset : Nat) : SmallMem :=
  h.setItem cfg offset ((h.item offset).withPool false false)

/-- Write data bytes at `[start, start + len)`. An item whose place is touched
reads as whatever the new bytes spell, which `spelled` says. -/
def writeBytes (h : SmallMem) (start len : Nat) (data : Nat → UInt8)
    (spelled : Nat → SmallMemItem) : SmallMem :=
  { h with
    byte := fun place => if start ≤ place ∧ place < start + len then data place else h.byte place
    item := fun offset =>
      if offset < start + len ∧ start < offset + cfg.sizeofStructMem then spelled offset else h.item offset }

@[simp] theorem setItem_item (h : SmallMem) (offset : Nat) (value : SmallMemItem) :
    (h.setItem cfg offset value).item = Function.update h.item offset value := rfl

@[simp] theorem setNext_item (h : SmallMem) (offset next : Nat) :
    (h.setNext cfg offset next).item =
      Function.update h.item offset ((h.item offset).withNext next) := rfl

@[simp] theorem setPrev_item (h : SmallMem) (offset prev : Nat) :
    (h.setPrev cfg offset prev).item =
      Function.update h.item offset ((h.item offset).withPrev prev) := rfl

end SmallMem

section
variable (cfg : Config)

open SmallMem

/-- The block at `low` takes over the block at `high` that follows it: the three
writes that both halves of `plug_holes` make. -/
def combine (h : SmallMem) (low high : Nat) : SmallMem :=
  let h := h.clearPool cfg high
  let next := (h.item high).next
  let h := h.setNext cfg low next
  h.setPrev cfg next low

/-- The first half of `plug_holes`: combine `mem` with a free block after it. -/
def plugForward (h : SmallMem) (mem : Nat) : SmallMem :=
  let nmem := (h.item mem).next
  if mem ≠ nmem ∧ (h.item nmem).used = false ∧ nmem ≠ h.heapEnd then
    combine cfg (if h.lfree = nmem then { h with lfree := mem } else h) mem nmem
  else h

/-- The second half of `plug_holes`: combine `mem` with a free block before it. -/
def plugBackward (h : SmallMem) (mem : Nat) : SmallMem :=
  let pmem := (h.item mem).prev
  if pmem ≠ mem ∧ (h.item pmem).used = false then
    combine cfg (if h.lfree = mem then { h with lfree := pmem } else h) pmem mem
  else h

def plugHoles (h : SmallMem) (mem : Nat) : SmallMem :=
  plugBackward cfg (plugForward cfg h mem) mem

/-- The region `[beginAddr, beginAddr + size)` becomes a heap of one free block. -/
def rtSmemInit (beginAddr size : Nat) : Option SmallMem :=
  let smallMem := cfg.rtAlign beginAddr
  let startAddr := (smallMem + cfg.smallMemSize) % cfg.word
  let beginAlign := cfg.rtAlign startAddr
  let endAlign := cfg.rtAlignDown ((beginAddr + size) % cfg.word)
  if 2 * cfg.sizeofStructMem < endAlign ∧ startAddr ≤ endAlign - 2 * cfg.sizeofStructMem then
    let memSize := endAlign - beginAlign - 2 * cfg.sizeofStructMem
    let last := memSize + cfg.sizeofStructMem
    some
      { heapPtr := beginAlign
        heapEnd := last
        lfree := 0
        memSizeAligned := memSize
        used := 0
        max := 0
        item := Function.update (Function.update (fun _ => ⟨false, false, 0, 0⟩) 0 ⟨true, false, last, 0⟩)
          last ⟨true, true, last, last⟩
        byte := fun _ => 0 }
  else none

/-- The search loop of `rt_smem_alloc` from `ptr` on: `some (some ptr)` is the
first block that fits, `some none` the end of the loop, `none` an unfinished loop. -/
def allocSearch (h : SmallMem) (size : Nat) : Nat → Nat → Option (Option Nat)
  | 0, _ => none
  | fuel + 1, ptr =>
    if ptr ≤ h.memSizeAligned - size then
      if (h.item ptr).used = false ∧ size ≤ (h.item ptr).next - (ptr + cfg.sizeofStructMem) then
        some (some ptr)
      else allocSearch h size fuel (h.item ptr).next
    else some none

/-- `while (MEM_ISUSED(lfree) && lfree != heap_end) lfree = lfree->next` -/
def nextFree (h : SmallMem) : Nat → Nat → Option Nat
  | 0, _ => none
  | fuel + 1, lfree =>
    if (h.item lfree).used = true ∧ lfree ≠ h.heapEnd then nextFree h fuel (h.item lfree).next
    else some lfree

/-- Cut the block at `ptr` after `size` data bytes; the rest becomes a free block. -/
def splitBlock (h : SmallMem) (ptr size : Nat) : SmallMem :=
  let ptr2 := ptr + cfg.sizeofStructMem + size
  let next := (h.item ptr).next
  let h := h.setItem cfg ptr2 ⟨true, false, next, ptr⟩
  let h := h.setNext cfg ptr ptr2
  if next ≠ h.memSizeAligned + cfg.sizeofStructMem then h.setPrev cfg next ptr2 else h

def SmallMem.addUsed (h : SmallMem) (amount : Nat) : SmallMem :=
  let used := h.used + amount
  { h with used := used, max := if h.max < used then used else h.max }

def SmallMem.subUsed (h : SmallMem) (amount : Nat) : SmallMem := { h with used := h.used - amount }

/-- `if (mem < lfree) lfree = mem` -/
def SmallMem.lowerFree (h : SmallMem) (mem : Nat) : SmallMem :=
  { h with lfree := if mem < h.lfree then mem else h.lfree }

def allocTake (h : SmallMem) (ptr size : Nat) : SmallMem :=
  let h :=
    if size + cfg.sizeofStructMem + cfg.minSizeAligned ≤ (h.item ptr).next - (ptr + cfg.sizeofStructMem) then
      (splitBlock cfg h ptr size).addUsed (size + cfg.sizeofStructMem)
    else h.addUsed ((h.item ptr).next - ptr)
  h.markUsed cfg ptr

/-- Both loops of an allocation visit a block at most once, and two blocks
never start at the same byte, so this many iterations always suffice. -/
def SmallMem.loopFuel (h : SmallMem) : Nat := h.heapEnd + 2

/-- What the search loop does with the block it settles on: take it and, when it
was the lowest free one, look for the next. -/
def allocAt (h : SmallMem) (ptr size : Nat) : Option SmallMem :=
  let taken := allocTake cfg h ptr size
  if ptr = taken.lfree then
    (nextFree taken taken.loopFuel taken.lfree).map fun lfree => { taken with lfree := lfree }
  else some taken

/-- The size a request is served with: aligned, and at least `MIN_SIZE_ALIGNED`. -/
def requestSize (size : Nat) : Nat :=
  if cfg.rtAlign size < cfg.minSizeAligned then cfg.minSizeAligned else cfg.rtAlign size

def rtSmemAlloc (h : SmallMem) (size : Nat) : Option (SmallMem × Option Nat) :=
  if size = 0 then some (h, none)
  else if h.memSizeAligned < requestSize cfg size then some (h, none)
  else
    match allocSearch cfg h (requestSize cfg size) h.loopFuel h.lfree with
    | none => none
    | some none => some (h, none)
    | some (some ptr) =>
      (allocAt cfg h ptr (requestSize cfg size)).map fun h => (h, some (ptr + cfg.sizeofStructMem))

/-- `rt_smem_free` of a pointer into this heap. -/
def rtSmemFree (h : SmallMem) (rmem : Option Nat) : SmallMem :=
  match rmem with
  | none => h
  | some rmem =>
    let mem := rmem - cfg.sizeofStructMem
    let h := (h.markFreed cfg mem).lowerFree mem
    plugHoles cfg (h.subUsed ((h.item mem).next - mem)) mem

/-- `rt_memcpy` inside the heap. -/
def rtMemcpy (h : SmallMem) (dst src count : Nat) : SmallMem :=
  h.writeBytes cfg dst count (fun place => h.byte (src + (place - dst))) (fun _ => ⟨false, false, 0, 0⟩)

def rtSmemRealloc (h : SmallMem) (rmem : Option Nat) (newsize : Nat) : Option (SmallMem × Option Nat) :=
  let newsize := cfg.rtAlign newsize
  if h.memSizeAligned < newsize then some (h, none)
  else if newsize = 0 then some (rtSmemFree cfg h rmem, none)
  else
    match rmem with
    | none => rtSmemAlloc cfg h newsize
    | some rmem =>
      let ptr := rmem - cfg.sizeofStructMem
      let size := (h.item ptr).next - ptr - cfg.sizeofStructMem
      if size = newsize then some (h, some rmem)
      else if newsize + cfg.sizeofStructMem + cfg.minSize < size then
        let mem2 := ptr + cfg.sizeofStructMem + newsize
        let h := (splitBlock cfg (h.subUsed (size - newsize)) ptr newsize).lowerFree mem2
        some (plugHoles cfg h mem2, some rmem)
      else
        match rtSmemAlloc cfg h newsize with
        | none => none
        | some (h, none) => some (h, none)
        | some (h, some nmem) =>
          let h := rtMemcpy cfg h nmem rmem (if size < newsize then size else newsize)
          some (rtSmemFree cfg h (some rmem), some nmem)

end

end RtThread.Mem
