import RtThread.Lib.Transition
import Mathlib.Algebra.Group.Nat.Defs
import Mathlib.Data.List.Basic

/-! The receive FIFO of `serial.c`, filled by the interrupts of one of its two modes and emptied by any number of
reading threads. -/

set_option autoImplicit false
namespace RtThread.Serial

/-- `struct rt_serial_rx_fifo`, with the place that the DMA channel, which goes round in `buffer`, writes to next. -/
structure RxFifo where
  buffer : Nat → UInt8
  putIndex : UInt16
  getIndex : UInt16
  isFull : Bool
  dmaIndex : Nat

namespace RxFifo

/-- `rt_serial_open` -/
def opened : RxFifo where
  buffer _ := 0
  putIndex := 0
  getIndex := 0
  isFull := false
  dmaIndex := 0

section calls
variable (bufsz : UInt16) (f : RxFifo)

def advance (index : UInt16) : UInt16 := if bufsz ≤ index + 1 then 0 else index + 1

/-- One character in RX_IND of `rt_hw_serial_isr`. -/
def rxInd (ch : UInt8) : RxFifo :=
  let f := { f with buffer := Function.update f.buffer f.putIndex.toNat ch, putIndex := advance bufsz f.putIndex }
  if f.putIndex = f.getIndex then { f with getIndex := advance bufsz f.getIndex, isFull := true } else f

/-- One turn of the loop in `_serial_int_rx`. -/
def intRx : Option (UInt8 × RxFifo) :=
  if f.getIndex = f.putIndex ∧ f.isFull = false then none
  else some (f.buffer f.getIndex.toNat, { f with getIndex := advance bufsz f.getIndex, isFull := false })

def calcRecvedLen : Nat :=
  if f.putIndex = f.getIndex then
    if f.isFull then bufsz.toNat else 0
  else if f.getIndex < f.putIndex then f.putIndex.toNat - f.getIndex.toNat
  else bufsz.toNat - (f.getIndex.toNat - f.putIndex.toNat)

/-- `rt_dma_recv_update_get_index`; its assertion stands in `dmaRx`. -/
def dmaRecvUpdateGetIndex (len : UInt16) : RxFifo :=
  let get := f.getIndex + len
  { f with
    isFull := f.isFull && len = 0
    getIndex := if bufsz ≤ get then get % bufsz else get }

def dmaRecvUpdatePutIndex (len : UInt16) : RxFifo :=
  let put := f.putIndex + len
  let moved :=
    if f.getIndex ≤ f.putIndex then
      if bufsz ≤ put then { f with putIndex := put % bufsz, isFull := f.isFull || f.getIndex ≤ put % bufsz }
      else { f with putIndex := put }
    else if f.getIndex ≤ put then
      { f with putIndex := if bufsz ≤ put then put % bufsz else put, isFull := true }
    else { f with putIndex := put }
  if moved.isFull then { moved with getIndex := moved.putIndex } else moved

def dmaByte (ch : UInt8) : RxFifo :=
  { f with buffer := Function.update f.buffer f.dmaIndex ch, dmaIndex := (f.dmaIndex + 1) % bufsz.toNat }

/-- RX_DMADONE of `rt_hw_serial_isr`, for the data that the channel has written. -/
def rxDmadone (data : List UInt8) : RxFifo :=
  (data.foldl (dmaByte bufsz) f).dmaRecvUpdatePutIndex bufsz (UInt16.ofNat data.length)

/-- What `rt_memcpy` reads from the buffer. -/
def copied (start count : Nat) : List UInt8 := (List.range count).map fun i => f.buffer (start + i)

/-- `_serial_dma_rx`; a length that is negative as an `int` fails RT_ASSERT in `rt_dma_recv_update_get_index`. -/
def dmaRx (length : UInt32) : Option (List UInt8 × RxFifo) :=
  if 2147483648 ≤ length.toNat then none
  else
    let recvLen := min length.toNat (f.calcRecvedLen bufsz)
    let get := f.getIndex.toNat
    some (if get + recvLen < bufsz.toNat then f.copied get recvLen
      else f.copied get (bufsz.toNat - get) ++ f.copied 0 (recvLen + get - bufsz.toNat),
      f.dmaRecvUpdateGetIndex bufsz (UInt16.ofNat recvLen))

/-- TCIFLUSH in `_tc_flush` -/
def tcFlush : RxFifo := { f with getIndex := f.putIndex, isFull := false }

end calls

end RxFifo

/-- An opened port: its FIFO and, for each thread, how much `_serial_int_rx` still has to read for it. -/
structure RxPort (T : Type) where
  fifo : RxFifo
  length : T → UInt32

inductive RxAction (T : Type) where
  /-- the receive interrupt of the interrupt mode -/
  | rxInd (data : List UInt8)
  | rxDmadone (data : List UInt8)
  /-- `rt_serial_read` -/
  | read (t : T) (size : UInt32)
  /-- a turn of the loop that it runs in interrupt mode -/
  | turn (t : T)
  | flush

namespace RxPort
variable {T : Type}

def opened : RxPort T where
  fifo := .opened
  length _ := 0

/-- One step on a port that is opened with DMA or without it, and the bytes that it hands to a reader. -/
def act [DecidableEq T] (dma : Bool) (bufsz : UInt16) (s : RxPort T) : RxAction T → Option (RxPort T × List UInt8)
  | .rxInd data => if dma then none else some ({ s with fifo := data.foldl (RxFifo.rxInd bufsz) s.fifo }, [])
  | .rxDmadone data =>
    if dma ∧ data.length ≤ bufsz.toNat then some ({ s with fifo := s.fifo.rxDmadone bufsz data }, []) else none
  | .read t size =>
    if s.length t ≠ 0 then none
    else if size = 0 then some (s, [])
    else if dma then (s.fifo.dmaRx bufsz size).map fun result => ({ s with fifo := result.2 }, result.1)
    else some ({ s with length := Function.update s.length t size }, [])
  | .turn t =>
    if s.length t = 0 then none
    else
      match s.fifo.intRx bufsz with
      | none => some ({ s with length := Function.update s.length t 0 }, [])
      | some taken => some (⟨taken.2, Function.update s.length t (s.length t - 1)⟩, [taken.1])
  | .flush => some ({ s with fifo := s.fifo.tcFlush }, [])

end RxPort

/-! ## What the FIFO is for -/

def rxCapacity (dma : Bool) (bufsz : UInt16) : Nat :=
  if dma ∨ bufsz = 1 then bufsz.toNat else bufsz.toNat - 1

/-- The unread bytes with more behind them; the oldest go where there are more than the FIFO keeps. -/
def received (capacity : Nat) (unread data : List UInt8) : List UInt8 :=
  (unread ++ data).drop ((unread ++ data).length - capacity)

/-- What a step leaves unread, if the bytes that it hands out are the oldest that are unread, as many as it should. -/
def RxAction.serve {T : Type} (dma : Bool) (bufsz : UInt16) (unread : List UInt8) (a : RxAction T) (out : List UInt8) :
    Option (List UInt8) :=
  match a with
  | .rxInd data => if out = [] then some (received (rxCapacity dma bufsz) unread data) else none
  | .rxDmadone data => if out = [] then some (received (rxCapacity dma bufsz) unread data) else none
  | .read _ size =>
    if out = (if dma then unread.take size.toNat else []) then some (unread.drop out.length) else none
  | .turn _ => if out = unread.take 1 then some (unread.drop 1) else none
  | .flush => if out = [] then some [] else none

end RtThread.Serial
