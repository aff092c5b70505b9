import RtThread.Mem.SmallMem

/-! The memheap algorithm (`memheap.c`). All blocks lie on one circular list in address order, the free
ones on another, and both are linked both ways through the headers.

Memory is words of four bytes, and every address the code forms is a multiple of four. Addresses and sizes
are unsigned 32-bit values; `RT_ALIGN` is that of the board. -/

set_option autoImplicit false
namespace RtThread.Memheap
open Mem

def add32 (a b : Nat) : Nat := (a + b) % 2 ^ 32

def sub32 (a b : Nat) : Nat := (a + (2 ^ 32 - b)) % 2 ^ 32

def rtMemheapMagic : Nat := 0x1ea01ea0
def rtMemheapMask : Nat := 0xFFFFFFFE
def rtMemheapUsed : Nat := 0x01
def rtMemheapFreed : Nat := 0x00
def rtMemheapMinialloc : Nat := Config.board.rtAlign 12

/-- `struct rt_memheap_item` is six words. -/
def rtMemheapSize : Nat := Config.board.rtAlign 24

inductive Field where
  | magic
  | poolPtr
  | next
  | prev
  | nextFree
  | prevFree
  deriving DecidableEq

def Field.offset : Field → Nat
  | magic => 0
  | poolPtr => 4
  | next => 8
  | prev => 12
  | nextFree => 16
  | prevFree => 20

/-- `struct rt_memheap` at `addr`, and memory. `freeList` is the address of its `free_header`. -/
structure Heap where
  addr : Nat
  startAddr : Nat
  poolSize : Nat
  availableSize : Nat
  maxUsedSize : Nat
  blockList : Nat
  freeList : Nat
  mem : Nat → Nat
  /-- What `pool_size - available_size` was at the end of `rt_memheap_init` and each time the lock was
  released since. -/
  levels : List Nat

namespace Heap

def get (h : Heap) (p : Nat) (f : Field) : Nat := h.mem (p + f.offset)

def store (h : Heap) (place value : Nat) : Heap :=
  { h with mem := fun a => if a = place then value else h.mem a }

def set (h : Heap) (p : Nat) (f : Field) (value : Nat) : Heap := h.store (p + f.offset) value

/-- `RT_MEMHEAP_IS_USED(i)` -/
def isUsed (h : Heap) (p : Nat) : Bool := h.get p .magic &&& rtMemheapUsed ≠ 0

/-- `MEMITEM_SIZE(item)` -/
def memitemSize (h : Heap) (p : Nat) : Nat := sub32 (sub32 (h.get p .next) p) rtMemheapSize

/-- `rt_sem_release(&(heap->lock))` -/
def release (h : Heap) : Heap := { h with levels := h.levels ++ [sub32 h.poolSize h.availableSize] }

def consume (h : Heap) (available : Nat) : Heap :=
  { h with
    availableSize := available
    maxUsedSize := if sub32 h.poolSize available > h.maxUsedSize then sub32 h.poolSize available
      else h.maxUsedSize }

/-- `heap->available_size += amount` -/
def refund (h : Heap) (amount : Nat) : Heap := { h with availableSize := add32 h.availableSize amount }

def setItem (h : Heap) (p magic next prev nextFree prevFree : Nat) : Heap :=
  let h := h.set p .magic magic
  let h := h.set p .poolPtr h.addr
  let h := h.set p .next next
  let h := h.set p .prev prev
  let h := h.set p .nextFree nextFree
  h.set p .prevFree prevFree

def insertFree (h : Heap) (p : Nat) : Heap :=
  let h := h.set p .nextFree (h.get h.freeList .nextFree)
  let h := h.set p .prevFree h.freeList
  let h := h.set (h.get h.freeList .nextFree) .prevFree p
  h.set h.freeList .nextFree p

def removeFree (h : Heap) (p : Nat) : Heap :=
  let h := h.set (h.get p .nextFree) .prevFree (h.get p .prevFree)
  h.set (h.get p .prevFree) .nextFree (h.get p .nextFree)

def markFreed (h : Heap) (new : Nat) : Heap :=
  let h := h.set new .magic (rtMemheapMagic ||| rtMemheapFreed)
  h.set new .poolPtr h.addr

/-- Break down the block list behind `p` for a new block. -/
def insertBlock (h : Heap) (p new : Nat) : Heap :=
  let h := h.set new .prev p
  let h := h.set new .next (h.get p .next)
  let h := h.set (h.get p .next) .prev new
  h.set p .next new

def splitBlock (h : Heap) (p new : Nat) : Heap := (h.markFreed new).insertBlock p new

/-- Merge the block at `p` with its next neighbour `new`, which is not a block any more. -/
def mergeBlock (h : Heap) (p new : Nat) : Heap :=
  let h := h.set (h.get new .next) .prev p
  h.set p .next (h.get new .next)

/-- The block at `p` takes in the free block that follows it. -/
def absorbNext (h : Heap) (p : Nat) : Heap :=
  let new := h.get p .next
  (h.mergeBlock p new).removeFree new

def loopFuel (h : Heap) : Nat := h.poolSize + 2

end Heap

open Heap

def Heap.firstItems (h : Heap) : Heap :=
  let h := h.setItem h.freeList (rtMemheapMagic ||| rtMemheapFreed) 0 0 h.freeList h.freeList
  let item := h.startAddr
  let h := h.setItem item (rtMemheapMagic ||| rtMemheapFreed) 0 0 item item
  let h := h.set item .next (add32 (add32 item h.availableSize) rtMemheapSize)
  let h := h.set item .prev (h.get item .next)
  let h := h.insertFree item
  h.setItem (h.get item .next) (rtMemheapMagic ||| rtMemheapUsed) item item 0 0

def rtMemheapInit (addr freeHeader startAddr size : Nat) (mem : Nat → Nat) : Heap :=
  let poolSize := Config.board.rtAlignDown size
  let availableSize := sub32 poolSize (2 * rtMemheapSize)
  let maxUsedSize := sub32 poolSize availableSize
  firstItems
    { addr, startAddr, poolSize, availableSize, maxUsedSize, blockList := startAddr, freeList := freeHeader, mem
      levels := [sub32 poolSize availableSize] }

/-- The aligned size of a request, and at least `RT_MEMHEAP_MINIALLOC`. -/
def requestSize (size : Nat) : Nat :=
  if Config.board.rtAlign size < rtMemheapMinialloc then rtMemheapMinialloc else Config.board.rtAlign size

/-- The search of `rt_memheap_alloc` along the free list: header_ptr and free_size where it ends. -/
def search (h : Heap) (size : Nat) : Nat → Nat → Nat → Option (Nat × Nat)
  | 0, _, _ => none
  | fuel + 1, header, freeSize =>
    if header ≠ h.freeList ∧ freeSize < size then
      let freeSize := h.memitemSize header
      if freeSize < size then search h size fuel (h.get header .nextFree) freeSize
      else search h size fuel header freeSize
    else some (header, freeSize)

/-- What `rt_memheap_alloc` does with the block it has found. -/
def allocTake (h : Heap) (header freeSize size : Nat) : Heap :=
  let h :=
    if freeSize ≥ add32 (add32 size rtMemheapSize) rtMemheapMinialloc then
      let new := add32 (add32 header size) rtMemheapSize
      let h := h.splitBlock header new
      let h := h.removeFree header
      let h := h.set header .nextFree 0
      let h := h.set header .prevFree 0
      let h := h.insertFree new
      h.consume (sub32 (sub32 h.availableSize size) rtMemheapSize)
    else
      let h := h.consume (sub32 h.availableSize freeSize)
      let h := h.removeFree header
      let h := h.set header .nextFree 0
      h.set header .prevFree 0
  h.set header .magic (rtMemheapMagic ||| rtMemheapUsed)

/-- `none` when the search does not end. -/
def rtMemheapAlloc (h : Heap) (size : Nat) : Option (Heap × Option Nat) :=
  let size := requestSize size
  if size < h.availableSize then
    match search h size h.loopFuel (h.get h.freeList .nextFree) 0 with
    | none => none
    | some (header, freeSize) =>
      if freeSize ≥ size then
        some ((allocTake h header freeSize size).release, some (add32 header rtMemheapSize))
      else some (h.release, none)
  else some (h, none)

def unlinkBlock (h : Heap) (header : Nat) : Heap :=
  let h := h.set (h.get header .prev) .next (h.get header .next)
  h.set (h.get header .next) .prev (h.get header .prev)

/-- A block that is freed joins its free neighbour on the left: header_ptr and insert_header then. -/
def mergeLeft (h : Heap) (header : Nat) : Heap × Nat × Bool :=
  let prev := h.get header .prev
  if h.isUsed prev = false then
    let h := unlinkBlock (h.refund rtMemheapSize) header
    (h, h.get header .prev, false)
  else (h, header, true)

def mergeRight (h : Heap) (header : Nat) : Heap :=
  if h.isUsed (h.get header .next) = false then
    (h.refund rtMemheapSize).absorbNext header
  else h

/-- The loop of `RT_MEMHEAP_BEST_MODE` to the place of a block of `blkSize` bytes in the free list. -/
def bestPlace (h : Heap) (blkSize : Nat) : Nat → Nat → Option Nat
  | 0, _ => none
  | fuel + 1, n =>
    if n ≠ h.freeList then
      if blkSize ≤ h.memitemSize n then some n else bestPlace h blkSize fuel (h.get n .nextFree)
    else some n

/-- Put a block in front of `n` in the free list. -/
def insertBefore (h : Heap) (header n : Nat) : Heap :=
  let h := h.set header .nextFree n
  let h := h.set header .prevFree (h.get n .prevFree)
  let h := h.set (h.get n .prevFree) .nextFree header
  h.set n .prevFree header

section
-- RT_MEMHEAP_BEST_MODE
variable (bestMode : Bool)

def freePlace (h : Heap) (header : Nat) : Option Nat :=
  let n := h.get h.freeList .nextFree
  if bestMode then bestPlace h (h.memitemSize header) h.loopFuel n else some n

/-- What `rt_memheap_free` does once it holds the lock. -/
def freeBlock (h : Heap) (header : Nat) : Option Heap :=
  let h := h.set header .magic (rtMemheapMagic ||| rtMemheapFreed)
  let h := h.refund (h.memitemSize header)
  let (h, header, insertHeader) := mergeLeft h header
  let h := mergeRight h header
  if insertHeader then (freePlace bestMode h header).map fun n => (insertBefore h header n).release
  else some h.release

/-- `none` when an assertion fails, the block is another heap's, or the loop does not end. -/
def rtMemheapFree (h : Heap) (ptr : Option Nat) : Option Heap :=
  match ptr with
  | none => some h
  | some ptr =>
    let header := sub32 ptr rtMemheapSize
    if h.get header .magic ≠ rtMemheapMagic ||| rtMemheapUsed ∨
        h.get (h.get header .next) .magic &&& rtMemheapMask ≠ rtMemheapMagic then none
    else if h.get header .poolPtr ≠ h.addr then none
    else freeBlock bestMode h header

def removeNextPtr (h : Heap) (nextPtr : Nat) : Heap :=
  let h := h.removeFree nextPtr
  let h := h.set (h.get nextPtr .next) .prev (h.get nextPtr .prev)
  h.set (h.get nextPtr .prev) .next (h.get nextPtr .next)

/-- The block at `header` grows into the free block behind it. -/
def growInPlace (h : Heap) (header ptr oldsize newsize : Nat) : Heap :=
  let h := h.consume (sub32 h.availableSize (sub32 newsize oldsize))
  let h := removeNextPtr h (h.get header .next)
  let new := add32 ptr newsize
  (h.splitBlock header new).insertFree new

/-- The block at `header` gives back what is behind `newsize` bytes. -/
def shrinkInPlace (h : Heap) (header newsize : Nat) : Heap :=
  let new := add32 (add32 header newsize) rtMemheapSize
  let h := h.splitBlock header new
  let h :=
    if h.isUsed (h.get new .next) = false then
      let free := h.get new .next
      ({ h with availableSize := sub32 h.availableSize (h.memitemSize free) } : Heap).absorbNext new
    else h
  let h := h.insertFree new
  h.refund (h.memitemSize new)

/-- `rt_memcpy` inside the pool. -/
def rtMemcpy (h : Heap) (dst src count : Nat) : Heap :=
  { h with mem := fun a => if dst ≤ a ∧ a < dst + count then h.mem (src + (a - dst)) else h.mem a }

/-- A new block for what is at `ptr`. -/
def moveBlock (h : Heap) (ptr oldsize newsize : Nat) : Option (Heap × Option Nat) :=
  match rtMemheapAlloc h newsize with
  | none => none
  | some (h, none) => some (h, none)
  | some (h, some new) =>
    let h := rtMemcpy h new ptr (if oldsize < newsize then oldsize else newsize)
    (rtMemheapFree bestMode h (some ptr)).map fun h => (h, some new)

/-- nextsize is an rt_int32_t, which is converted back to unsigned in the comparison. -/
def rtMemheapRealloc (h : Heap) (ptr : Option Nat) (newsize : Nat) : Option (Heap × Option Nat) :=
  if newsize = 0 then (rtMemheapFree bestMode h ptr).map fun h => (h, none)
  else
    let newsize := requestSize newsize
    match ptr with
    | none => rtMemheapAlloc h newsize
    | some ptr =>
      let header := sub32 ptr rtMemheapSize
      let oldsize := h.memitemSize header
      if newsize > oldsize then
        let next := h.get header .next
        if next > header then
          if h.isUsed next = false ∧ add32 (h.memitemSize next) oldsize > add32 newsize rtMemheapMinialloc then
            some ((growInPlace h header ptr oldsize newsize).release, some ptr)
          else moveBlock bestMode h.release ptr oldsize newsize
        else none
      else if add32 (add32 newsize rtMemheapSize) rtMemheapMinialloc ≥ oldsize then some (h, some ptr)
      else some ((shrinkInPlace h header newsize).release, some ptr)

end

end RtThread.Memheap
