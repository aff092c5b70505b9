import Mathlib.Order.Basic

/-! The ring block buffer (`ringblk_buf.c`): blocks of a buffer that is given out round and round. -/

set_option autoImplicit false
namespace RtThread.Drivers

inductive RbbStatus where
  | unused
  | inited
  | put
  | get
  deriving DecidableEq

/-- The `rt_slist_t`: two heads in `struct rt_rbb`, and one in each block of the set. -/
inductive SNode where
  | blkList
  | freeList
  | blk (i : Nat)
  deriving DecidableEq

/-- `struct rt_rbb_blk` without its list node. -/
structure RbbBlk where
  status : RbbStatus
  size : UInt32
  buf : UInt32

/-- `struct rt_rbb`, its block set, and the `next` of all list nodes. -/
structure Rbb where
  buf : UInt32
  bufSize : UInt32
  blkMaxNum : Nat
  blkSet : Nat → RbbBlk
  next : SNode → Option SNode
  tail : SNode

/-- A value stored to a field of 24 bits. -/
def field24 (value : UInt32) : UInt32 := value % 0x1000000

namespace Rbb

variable (rbb : Rbb)

def setNext (n : SNode) (next : Option SNode) : Rbb := { rbb with next := Function.update rbb.next n next }

def setBlk (i : Nat) (block : RbbBlk) : Rbb := { rbb with blkSet := Function.update rbb.blkSet i block }

def setStatus (i : Nat) (status : RbbStatus) : Rbb := rbb.setBlk i { rbb.blkSet i with status }

def loopFuel : Nat := rbb.blkMaxNum + 1

/-- `while (node->next && node->next != n) node = node->next;` -/
def walk (n : SNode) : Nat → SNode → Option SNode
  | 0, _ => none
  | fuel + 1, node =>
    match rbb.next node with
    | none => some node
    | some m => if m = n then some node else walk n fuel m

def slistInsert (l n : SNode) : Rbb := (rbb.setNext n (rbb.next l)).setNext l (some n)

end Rbb

open Rbb

variable (rbb : Rbb)

def rtSlistRemove (l n : SNode) : Option Rbb :=
  (rbb.walk n rbb.loopFuel l).map fun node =>
    match rbb.next node with
    | none => rbb
    | some m => rbb.setNext node (rbb.next m)

/-- The loop of `rt_rbb_init` from block `i` on. -/
def initBlocks (rbb : Rbb) : Nat → Nat → Rbb
  | 0, _ => rbb
  | count + 1, i =>
    let rbb := rbb.setStatus i .unused
    let rbb := rbb.setNext (.blk i) none
    initBlocks (rbb.slistInsert .freeList (.blk i)) count (i + 1)

def rtRbbInit (buf bufSize : UInt32) (blkSet : Nat → RbbBlk) (next : SNode → Option SNode) (blkMaxNum : Nat) : Rbb :=
  let rbb : Rbb := { buf, bufSize, blkMaxNum, blkSet, next, tail := .blkList }
  initBlocks ((rbb.setNext .blkList none).setNext .freeList none) blkMaxNum 0

def SNode.entry : SNode → Option Nat
  | .blk i => some i
  | _ => none

/-- A block of the free list is taken off it. The outer `none` is a failed assertion. -/
def findEmptyBlkInSet : Option (Rbb × Option Nat) :=
  match rbb.next .freeList with
  | none => some (rbb, none)
  | some node =>
    match node.entry with
    | none => none
    | some i =>
      match rtSlistRemove rbb .freeList node with
      | none => none
      | some rbb => if (rbb.blkSet i).status = .unused then some (rbb, some i) else none

def listAppend (n : SNode) : Rbb :=
  let rbb := rbb.setNext rbb.tail (some n)
  let rbb := rbb.setNext n none
  { rbb with tail := n }

def listRemove (n : SNode) : Option Rbb :=
  (rbb.walk n rbb.loopFuel .blkList).map fun node =>
    match rbb.next node with
    | none => rbb
    | some m =>
      let rbb := rbb.setNext node (rbb.next m)
      let rbb := rbb.setNext n none
      if rbb.tail = n then { rbb with tail := node } else rbb

/-- The new block becomes the last one, with `size` bytes at `buf`. -/
def place (i : Nat) (buf size : UInt32) : Rbb :=
  (listAppend rbb (.blk i)).setBlk i { status := .inited, buf, size := field24 size }

/-- Where a block of `blkSize` bytes goes behind `tail`, when `head` is the oldest block. -/
def fits (head tail : RbbBlk) (blkSize : UInt32) : Option UInt32 :=
  if head.buf ≤ tail.buf then
    let empty1 := (rbb.buf + rbb.bufSize) - (tail.buf + tail.size)
    let empty2 := head.buf - rbb.buf
    if empty1 ≥ blkSize then some (tail.buf + tail.size)
    else if empty2 ≥ blkSize then some rbb.buf
    else none
  else
    let empty1 := head.buf - (tail.buf + tail.size)
    if empty1 ≥ blkSize then some (tail.buf + tail.size) else none

/-- The outer `none` is a failed assertion, or a tail that is no block. -/
def rtRbbBlkAlloc (blkSize : UInt32) : Option (Rbb × Option Nat) :=
  if blkSize < 0x1000000 then
    match findEmptyBlkInSet rbb with
    | none => none
    | some (rbb, none) => some (rbb, none)
    | some (rbb, some i) =>
      match rbb.next .blkList with
      | none => some (place rbb i rbb.buf blkSize, some i)
      | some node =>
        match node.entry, rbb.tail.entry with
        | some head, some tail =>
          match fits rbb (rbb.blkSet head) (rbb.blkSet tail) blkSize with
          | some buf => some (place rbb i buf blkSize, some i)
          | none => some (rbb, none)
        | _, _ => none
  else none

def rtRbbBlkPut (i : Nat) : Option Rbb :=
  if (rbb.blkSet i).status = .inited then some (rbb.setStatus i .put) else none

/-- The loop of `rt_rbb_blk_get` from `node` on. -/
def findPut : Nat → Option SNode → Option (Option Nat)
  | _, none => some none
  | 0, some _ => none
  | fuel + 1, some node =>
    match node.entry with
    | none => none
    | some i => if (rbb.blkSet i).status = .put then some (some i) else findPut fuel (rbb.next node)

def rtRbbBlkGet : Option (Rbb × Option Nat) :=
  (findPut rbb rbb.loopFuel (rbb.next .blkList)).map fun found =>
    match found with
    | some i => (rbb.setStatus i .get, some i)
    | none => (rbb, none)

def rtRbbBlkFree (i : Nat) : Option Rbb :=
  if (rbb.blkSet i).status ≠ .unused then
    (listRemove rbb (.blk i)).map fun rbb => (rbb.setStatus i .unused).slistInsert .freeList (.blk i)
  else none

end RtThread.Drivers
