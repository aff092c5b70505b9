import RtThread.Lib.Window

/-! A ring of the virtual bus (`vbus.c`): `_bus_out_entry` at the one end, `_bus_in_entry` at the other, and the
interrupts between them. -/

set_option autoImplicit false
namespace RtThread.Vbus
open Lib

def channelNr : Nat := 32

/-- `sizeof(struct rt_vbus_blk)` -/
def blkSz : Nat := 64

def blkHeadSz : Nat := 4

def maxPktSz : Nat := 252

def len2bnr (len : Nat) : Nat := (len + blkHeadSz + blkSz - 1) / blkSz

/-- `struct rt_vbus_pkg`, as `rt_vbus_post` makes it -/
structure VbusPkg where
  id : UInt8
  prio : UInt8
  data : List UInt8
  chnr : id.toNat < channelNr
  nonempty : 0 < data.length
  fits : data.length ≤ maxPktSz

def VbusPkg.bnr (pkg : VbusPkg) : Nat := len2bnr pkg.data.length

def VbusPkg.content (pkg : VbusPkg) : UInt8 × List UInt8 := (pkg.id, pkg.data)

structure VbusConfig where
  /-- RT_VMM_RB_BLK_NR -/
  blkNr : Nat
  blocks : 0 < blkNr
  /-- `_chn_connected`, at both ends -/
  chnConnected : UInt8 → Bool

/-- `struct rt_vbus_ring`; `blks` are its blocks, byte by byte. -/
structure VbusRing where
  putIdx : Nat
  getIdx : Nat
  blocked : Bool
  blks : Nat → UInt8

/-- Where `_bus_out_entry` is with a packet -/
inductive OutStage where
  /-- At `_bus_ring_space_nr`, and the test of the loop -/
  | space
  /-- `rt_hw_interrupt_disable`, and `blocked = 1` -/
  | block
  | tick
  | suspend
  | suspended
  /-- Resumed, at `blocked = 0` -/
  | woken
  /-- The head of the first block -/
  | head
  | copyTail
  | copyRest
  /-- The write of `put_idx` -/
  | publish
  /-- The last `rt_vbus_tick` -/
  | notify
  deriving DecidableEq

/-- Where `_bus_in_entry` is -/
inductive InPc where
  /-- `rt_sem_take` -/
  | wait
  /-- The test of the inner loop -/
  | test
  | read
  /-- `_ring_add_get_bnr` of a packet that goes to no channel thread -/
  | skip (size : Nat)
  | copyTail (id : UInt8) (size : Nat)
  | copyRest (id : UInt8) (size : Nat) (data : List UInt8)
  /-- The write of `get_idx` -/
  | advance (id : UInt8) (size : Nat) (data : List UInt8)
  /-- `rt_vbus_data_push` -/
  | push (id : UInt8) (data : List UInt8)
  /-- The test of `blocked` -/
  | unblock
  deriving DecidableEq

structure OutJob where
  pkg : VbusPkg
  stage : OutStage

/-- Both ends of the ring, the interrupts that are pending, and beside them what has been sent and taken, and whether a
block that was not free has been written. -/
structure VbusLink where
  ring : VbusRing
  /-- The packet of the out thread, or none at `rt_prio_queue_pop` -/
  out : Option OutJob
  outIrq : Bool
  inn : InPc
  /-- `_bus_in_sem` -/
  inSem : Nat
  inIrq : Bool
  sent : List (UInt8 × List UInt8)
  taken : List (UInt8 × List UInt8)
  wild : Bool

inductive VbusAction where
  | pop (pkg : VbusPkg)
  /-- The out thread goes on. -/
  | goOut
  /-- The in thread goes on; whether `rt_malloc` fails, if it is called. -/
  | goIn (mallocFails : Bool)
  /-- An interrupt for the other ring of the two ends -/
  | otherOut
  | otherIn
  /-- `rt_vbus_isr` -/
  | isrOut
  | isrIn

section ring
variable (c : VbusConfig) (ring : VbusRing)

def busRingSpaceNr : Int :=
  let delta : Int := ring.getIdx - ring.putIdx
  if delta > 0 then delta - 1 else c.blkNr + delta - 1

def nextIdx (idx bnr : Nat) : Nat := if idx + bnr ≥ c.blkNr then idx + bnr - c.blkNr else idx + bnr

def tailSz (idx len : Nat) : Nat :=
  if idx + len2bnr len ≥ c.blkNr then
    let tailsz := (c.blkNr - idx) * blkSz - blkHeadSz
    if tailsz > len then len else tailsz
  else len

def VbusRing.free (i : Nat) : Bool :=
  i < c.blkNr && !(if ring.getIdx ≤ ring.putIdx then ring.getIdx ≤ i && i < ring.putIdx else ring.getIdx ≤ i || i < ring.putIdx)

/-- All bytes from `start` on are in free blocks. -/
def VbusRing.writable (start count : Nat) : Bool := (List.range count).all fun j => ring.free c ((start + j) / blkSz)

end ring

namespace VbusLink
variable (c : VbusConfig) (s : VbusLink)

/-- `rt_memcpy` into the blocks -/
def write (start : Nat) (data : List UInt8) : VbusLink :=
  { s with
    ring := { s.ring with blks := setCells s.ring.blks start data }
    wild := s.wild || !s.ring.writable c start data.length }

def jump (pkg : VbusPkg) (stage : OutStage) : VbusLink := { s with out := some ⟨pkg, stage⟩ }

/-- A step of `_bus_out_entry` with its packet -/
def busOut (pkg : VbusPkg) : OutStage → Option VbusLink
  | .space => some (s.jump pkg (if busRingSpaceNr c s.ring < pkg.bnr then .block else .head))
  | .block => some ({ s with ring := { s.ring with blocked := true } }.jump pkg .tick)
  | .tick => some ({ s with inIrq := true }.jump pkg .suspend)
  | .suspend => some (s.jump pkg .suspended)
  | .suspended => none
  | .woken => some ({ s with ring := { s.ring with blocked := false } }.jump pkg .space)
  | .head =>
    some ((s.write c (s.ring.putIdx * blkSz) [pkg.id, pkg.prio, UInt8.ofNat pkg.data.length]).jump pkg .copyTail)
  | .copyTail =>
    let tailsz := tailSz c s.ring.putIdx pkg.data.length
    some ((s.write c (s.ring.putIdx * blkSz + blkHeadSz) (pkg.data.take tailsz)).jump pkg .copyRest)
  | .copyRest =>
    some ((s.write c 0 (pkg.data.drop (tailSz c s.ring.putIdx pkg.data.length))).jump pkg .publish)
  | .publish => some ({ s with ring := { s.ring with putIdx := nextIdx c s.ring.putIdx pkg.bnr } }.jump pkg .notify)
  | .notify => some { s with inIrq := true, out := none }

/-- The fields of the block at `get_idx` -/
def inId : UInt8 := s.ring.blks (s.ring.getIdx * blkSz)

def inSize : Nat := (s.ring.blks (s.ring.getIdx * blkSz + 2)).toNat

def consume (size : Nat) : VbusRing := { s.ring with getIdx := nextIdx c s.ring.getIdx (len2bnr size) }

/-- A step of `_bus_in_entry` -/
def busIn (mallocFails : Bool) : Option VbusLink :=
  match s.inn with
  | .wait => if s.inSem = 0 then none else some { s with inSem := s.inSem - 1, inn := .test }
  | .test => some { s with inn := if s.ring.getIdx ≠ s.ring.putIdx then .read else .wait }
  | .read =>
    if s.inId.toNat > channelNr ∨ ¬c.chnConnected s.inId then some { s with inn := .skip s.inSize }
    else if s.inId = 0 then
      if s.inSize > 60 then some { s with inn := .skip s.inSize }
      else
        -- `_chn0_actor` gets the data where they are.
        some
          { s with
            inn := .skip s.inSize
            taken := s.taken ++ [(0, cells s.ring.blks (s.ring.getIdx * blkSz + blkHeadSz) s.inSize)] }
    else if mallocFails then some { s with inn := .skip s.inSize }
    else some { s with inn := .copyTail s.inId s.inSize }
  | .skip size => some { s with ring := s.consume c size, inn := .test }
  | .copyTail id size =>
    some
      { s with
        inn := .copyRest id size (cells s.ring.blks (s.ring.getIdx * blkSz + blkHeadSz) (tailSz c s.ring.getIdx size)) }
  | .copyRest id size data =>
    some { s with inn := .advance id size (data ++ cells s.ring.blks 0 (size - tailSz c s.ring.getIdx size)) }
  | .advance id size data => some { s with ring := s.consume c size, inn := .push id data }
  | .push id data => some { s with taken := s.taken ++ [(id, data)], inn := .unblock }
  | .unblock => some { s with outIrq := s.outIrq || s.ring.blocked, inn := .test }

def OutStage.masked : OutStage → Bool
  | .tick => true
  | .suspend => true
  | _ => false

/-- `rt_vbus_isr` at the end of the out thread -/
def isrOut : Option VbusLink :=
  match s.out with
  | some ⟨pkg, stage⟩ =>
    if OutStage.masked stage then none
    else
      some
        { s with outIrq := false, out := some ⟨pkg, if s.ring.blocked ∧ stage = .suspended then .woken else stage⟩ }
  | none => some { s with outIrq := false }

def act : VbusAction → Option VbusLink
  | .pop pkg =>
    match s.out with
    | some _ => none
    | none =>
      if c.chnConnected pkg.id then some { s with out := some ⟨pkg, .space⟩, sent := s.sent ++ [pkg.content] } else some s
  | .goOut =>
    match s.out with
    | some job => s.busOut c job.pkg job.stage
    | none => none
  | .goIn mallocFails => s.busIn c mallocFails
  | .otherOut => some { s with outIrq := true }
  | .otherIn => some { s with inIrq := true }
  | .isrOut => if s.outIrq then s.isrOut else none
  | .isrIn => if s.inIrq then some { s with inIrq := false, inSem := s.inSem + 1 } else none

/-- The ring after `rt_vbus_init` -/
def init : VbusLink where
  ring := { putIdx := 0, getIdx := 0, blocked := false, blks := fun _ => 0 }
  out := none
  outIrq := false
  inn := .wait
  inSem := 0
  inIrq := false
  sent := []
  taken := []
  wild := false

end VbusLink

end RtThread.Vbus
