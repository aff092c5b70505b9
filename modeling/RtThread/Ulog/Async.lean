import RtThread.Drivers.RingBlkList
import RtThread.Drivers.RingBufferCalls

/-! The asynchronous output of `ulog.c`: `do_output` of log calls from threads and interrupts, and the thread that hands the
logs to the backends. `async_enabled` and `init_ok` hold, and the calls are not kept apart by a lock. -/

set_option autoImplicit false
namespace RtThread.Ulog
open Drivers

/-- `ULOG_ASYNC_OUTPUT_BUF_SIZE` -/
structure UlogConfig where
  bufSize : Nat
  /-- `RT_ASSERT(ULOG_ASYNC_OUTPUT_STORE_LINES >= 2)` -/
  lines : 2 ≤ bufSize * 3 / 2 / 80
  /-- The size of a ring buffer is an `rt_int32_t`. -/
  most : bufSize < 2 ^ 31

def UlogConfig.storeLines (c : UlogConfig) : Nat := c.bufSize * 3 / 2 / 80

def ulogFrameMagic : Nat := 0x10

def sizeofUlogFrame : UInt32 := 16

structure UlogFrame where
  magic : Nat
  isRaw : Bool
  /-- A field of 23 bits -/
  logLen : UInt32
  level : UInt32
  log : List UInt8
  tag : List UInt8
  /-- The frames that had been stored before this one; for the statements only. -/
  number : Nat

/-- Which call of `ulog_async_output` the thread is in. -/
inductive Round where
  | first
  | inner
  | flush
  deriving DecidableEq

inductive AsyncPc where
  /-- `rt_rbb_blk_get` is next. -/
  | look (round : Round)
  | output (round : Round) (i : Nat)
  | free (round : Round) (i : Nat)
  /-- `rt_ringbuffer_data_len` and `rt_malloc` are next. -/
  | rawLen (round : Round)
  /-- `rt_ringbuffer_get` is next; `total` bytes had been stored when the length was asked for. -/
  | rawGet (round : Round) (logLen : UInt32) (total : Nat)
  | rawOutput (round : Round) (log : List UInt8)
  /-- `ulog_async_waiting_log`, for RT_WAITING_FOREVER or for two seconds. -/
  | reset (forever : Bool)
  | take (forever : Bool)
  | blocked (forever : Bool)

def AsyncPc.hand : AsyncPc → Option Nat
  | .output _ i => some i
  | _ => none

/-- Where the thread goes behind `ulog_async_output`. -/
def Round.next : Round → AsyncPc
  | .inner => .reset false
  | .first | .flush => .reset true

/-- A call that is in `do_output`. -/
inductive LogPc where
  /-- It has got a block. -/
  | stores (i : Nat) (logLen : UInt32)
  /-- `rt_sem_release` is next. -/
  | notifies

structure UlogAsync where
  rbb : Rbb
  rb : Option Ringbuffer
  /-- `async_notice.value` -/
  notice : Nat
  /-- The frames in the blocks of `async_rbb` -/
  frame : Nat → UlogFrame
  call : Nat → Option LogPc
  thread : AsyncPc
  /-- What has been handed to the backends. -/
  handed : List UlogFrame
  handedRaw : List UInt8
  /-- What has been stored. -/
  stored : List UlogFrame
  storedRaw : List UInt8
  /-- The numbers of frames and bytes that had been stored when the thread last looked for some. -/
  seen : Nat × Nat
  /-- These numbers when it last blocked. -/
  since : Nat × Nat

inductive UlogAction where
  /-- `rt_rbb_blk_alloc` for a log of `log_len` bytes. -/
  | alloc (k : Nat) (logLen : UInt32)
  /-- The frame is packaged, and `rt_rbb_blk_put`. -/
  | put (k : Nat) (level : UInt32) (tag log : List UInt8)
  /-- `ulog_raw` makes `async_rb`. -/
  | create (pool : Nat → UInt8)
  /-- `rt_ringbuffer_put` of a raw log -/
  | putRaw (k : Nat) (log : Nat → UInt8) (logLen : UInt32)
  | notify (k : Nat)
  /-- The next thing that the thread does; whether memory is left. -/
  | async (memory : Bool)
  /-- Two seconds are over. -/
  | timeout

namespace UlogAsync

def semValueMax : Nat := 65535

def setCall (s : UlogAsync) (k : Nat) (pc : Option LogPc) : UlogAsync := { s with call := Function.update s.call k pc }

/-- The bytes that a frame with its log takes up in `async_rbb`. -/
def frameSize (logLen : UInt32) : UInt32 :=
  UInt32.ofNat (Mem.Config.board.rtAlign (sizeofUlogFrame + (logLen + 1)).toNat)

/-- `rt_sem_release(&ulog.async_notice)`: nobody but the thread waits for it. -/
def release (s : UlogAsync) : UlogAsync :=
  match s.thread with
  | .blocked _ => { s with thread := .look .inner }
  | _ => if s.notice < semValueMax then { s with notice := s.notice + 1 } else s

/-- One step of `async_output_thread_entry` -/
def go (s : UlogAsync) (memory : Bool) : Option UlogAsync :=
  match s.thread with
  | .look round =>
    match rtRbbBlkGet s.rbb with
    | none => none
    | some (rbb, some i) => some { s with rbb, thread := .output round i }
    | some (rbb, none) => some { s with rbb, thread := .rawLen round, seen := (s.stored.length, s.seen.2) }
  | .output round i =>
    let handed := if (s.frame i).magic = ulogFrameMagic then s.handed ++ [s.frame i] else s.handed
    some { s with handed, thread := .free round i }
  | .free round i => (rtRbbBlkFree s.rbb i).map fun rbb => { s with rbb, thread := .look round }
  | .rawLen round =>
    match s.rb with
    | none => some { s with thread := round.next }
    | some rb =>
      if memory then some { s with thread := .rawGet round (rtRingbufferDataLen rb) s.storedRaw.length }
      else some { s with thread := round.next }
  | .rawGet round logLen total =>
    match s.rb with
    | none => none
    | some rb =>
      -- the length is an `rt_uint16_t`
      let (rb, log, len) := rtRingbufferGet rb (fun _ => 0) logLen.toUInt16.toUInt32
      let seen := if logLen < 65536 then (s.seen.1, total) else s.seen
      some { s with rb := some rb, seen, thread := .rawOutput round (bytesAt log len.toNat) }
  | .rawOutput round log => some { s with handedRaw := s.handedRaw ++ log, thread := round.next }
  | .reset forever => some { s with notice := 0, thread := .take forever }
  | .take forever =>
    if 0 < s.notice then some { s with notice := s.notice - 1, thread := .look .inner }
    else some { s with thread := .blocked forever, since := (s.stored.length, s.storedRaw.length) }
  | .blocked _ => none

def act (c : UlogConfig) (s : UlogAsync) : UlogAction → Option UlogAsync
  | .alloc k logLen =>
    match s.call k, rtRbbBlkAlloc s.rbb (frameSize logLen) with
    | none, some (rbb, none) => some { s with rbb }
    | none, some (rbb, some i) => some ({ s with rbb }.setCall k (some (.stores i logLen)))
    | _, _ => none
  | .put k level tag log =>
    match s.call k with
    | some (.stores i logLen) =>
      (rtRbbBlkPut s.rbb i).map fun rbb =>
        let frame : UlogFrame :=
          { magic := ulogFrameMagic, isRaw := false, logLen := logLen % 0x800000, level, log, tag, number := s.stored.length }
        { s with rbb, frame := Function.update s.frame i frame, stored := s.stored ++ [frame] }.setCall k (some .notifies)
    | _ => none
  | .create pool =>
    if s.rb.isNone then some { s with rb := some (rtRingbufferInit pool (UInt32.ofNat c.bufSize)) } else none
  | .putRaw k log logLen =>
    match s.call k, s.rb with
    | none, some rb =>
      let (rb, len) := rtRingbufferPut rb log (logLen + 1).toUInt16.toUInt32
      some ({ s with rb := some rb, storedRaw := s.storedRaw ++ bytesAt log len.toNat }.setCall k (some .notifies))
    | _, _ => none
  | .notify k =>
    match s.call k with
    | some .notifies => some (s.release.setCall k none)
    | _ => none
  | .async memory => s.go memory
  | .timeout =>
    match s.thread with
    | .blocked false => some { s with thread := .look .flush }
    | _ => none

/-- `ulog_init`, and the thread has been started. The memory of `async_rbb` is at `buf`. -/
def init (c : UlogConfig) (buf : UInt32) (blkSet : Nat → RbbBlk) (next : SNode → Option SNode) (frame : Nat → UlogFrame) :
    UlogAsync where
  rbb := rtRbbInit buf (UInt32.ofNat (Mem.Config.board.rtAlign c.bufSize)) blkSet next c.storeLines
  rb := none
  notice := 0
  frame
  call _ := none
  thread := .look .first
  handed := []
  handedRaw := []
  stored := []
  storedRaw := []
  seen := (0, 0)
  since := (0, 0)

/-- The frames that have been stored and not handed on, in the order of `async_rbb`. -/
def waiting (s : UlogAsync) : List UlogFrame :=
  (s.rbb.blocks.filter fun i => (s.rbb.blkSet i).status = .put).map s.frame

def inHand (s : UlogAsync) : List UlogFrame := (s.thread.hand.map s.frame).toList

/-- What is to hold in every state: while the thread is blocked for ever, no frame and no byte waits that was stored before;
and the frames that have been handed on, with those that wait, are the ones that have been stored, in their order. -/
structure Sound (s : UlogAsync) : Prop where
  frames : s.thread = .blocked true → ∀ frame ∈ s.waiting, s.since.1 ≤ frame.number
  bytes : s.thread = .blocked true → ∀ rb, s.rb = some rb →
    (rtRingbufferDataLen rb).toNat ≤ s.storedRaw.length - s.since.2
  order : s.handed ++ s.inHand ++ s.waiting = s.stored

/-- The steps that keep that: a call puts its block while no block behind it has been put; and where the thread blocks for
ever nothing has been stored since it last looked. -/
def Allowed (s : UlogAsync) : UlogAction → Prop
  | .put k _ _ _ => ∀ i logLen, s.call k = some (.stores i logLen) → ∀ j ∈ s.rbb.behind i, (s.rbb.blkSet j).status ≠ .put
  | .async _ => s.thread = .take true → s.notice = 0 → s.seen = (s.stored.length, s.storedRaw.length)
  | _ => True

end UlogAsync

end RtThread.Ulog
