import RtThread.Mem.SmallMem

/-! The byte ring buffer (`ringbuffer.c`). -/

set_option autoImplicit false
namespace RtThread.Drivers

/-- `struct rt_ringbuffer`; `bufferPtr` is the memory of the pool. -/
structure Ringbuffer where
  bufferPtr : Nat → UInt8
  readMirror : Bool
  readIndex : UInt32
  writeMirror : Bool
  writeIndex : UInt32
  bufferSize : UInt32

/-- A value stored to a field of 31 bits. -/
def field31 (value : UInt32) : UInt32 := value % 0x80000000

/-- `rt_memcpy` to `dst[start]`. -/
def rtMemcpy (dst : Nat → UInt8) (start : Nat) (src : Nat → UInt8) (count : UInt32) : Nat → UInt8 :=
  fun a => if start ≤ a ∧ a < start + count.toNat then src (a - start) else dst a

/-- `&ptr[start]` -/
def behind (ptr : Nat → UInt8) (start : UInt32) : Nat → UInt8 := fun i => ptr (start.toNat + i)

inductive RingbufferState where
  | empty
  | full
  | halffull
  deriving DecidableEq

variable (rb : Ringbuffer)

def rtRingbufferStatus : RingbufferState :=
  if rb.readIndex = rb.writeIndex then
    if rb.readMirror = rb.writeMirror then .empty else .full
  else .halffull

def rtRingbufferInit (pool : Nat → UInt8) (size : UInt32) : Ringbuffer where
  bufferPtr := pool
  readMirror := false
  readIndex := 0
  writeMirror := false
  writeIndex := 0
  bufferSize := UInt32.ofNat (Mem.Config.board.rtAlignDown size.toNat)

def rtRingbufferDataLen : UInt32 :=
  match rtRingbufferStatus rb with
  | .empty => 0
  | .full => rb.bufferSize
  | .halffull =>
    if rb.writeIndex > rb.readIndex then rb.writeIndex - rb.readIndex
    else rb.bufferSize - (rb.readIndex - rb.writeIndex)

def rtRingbufferSpaceLen : UInt32 := rb.bufferSize - rtRingbufferDataLen rb

/-- The part of `put` and `put_force` that copies across the end of the buffer. -/
def writeRound (ptr : Nat → UInt8) (length : UInt32) : Ringbuffer :=
  let buffer := rtMemcpy rb.bufferPtr rb.writeIndex.toNat ptr (rb.bufferSize - rb.writeIndex)
  let buffer := rtMemcpy buffer 0 (behind ptr (rb.bufferSize - rb.writeIndex))
    (length - (rb.bufferSize - rb.writeIndex))
  { rb with
    bufferPtr := buffer
    writeMirror := !rb.writeMirror
    writeIndex := field31 (length - (rb.bufferSize - rb.writeIndex)) }

/-- The part of `put` and `put_force` that stays in front of the end of the buffer. -/
def writeFlat (ptr : Nat → UInt8) (length : UInt32) : Ringbuffer :=
  { rb with
    bufferPtr := rtMemcpy rb.bufferPtr rb.writeIndex.toNat ptr length
    writeIndex := field31 (rb.writeIndex + length) }

def rtRingbufferPut (ptr : Nat → UInt8) (length : UInt32) : Ringbuffer × UInt32 :=
  let size := rtRingbufferSpaceLen rb
  if size = 0 then (rb, 0)
  else
    let length := if size < length then size else length
    if rb.bufferSize - rb.writeIndex > length then (writeFlat rb ptr length, length)
    else (writeRound rb ptr length, length)

def rtRingbufferPutForce (ptr : Nat → UInt8) (length : UInt32) : Ringbuffer × UInt32 :=
  let spaceLength := rtRingbufferSpaceLen rb
  let (ptr, length) :=
    if length > rb.bufferSize then (behind ptr (length - rb.bufferSize), rb.bufferSize) else (ptr, length)
  if rb.bufferSize - rb.writeIndex > length then
    let rb := writeFlat rb ptr length
    if length > spaceLength then ({ rb with readIndex := rb.writeIndex }, length) else (rb, length)
  else
    let rb := writeRound rb ptr length
    if length > spaceLength then
      let rb := if rb.writeIndex ≤ rb.readIndex then { rb with readMirror := !rb.readMirror } else rb
      ({ rb with readIndex := rb.writeIndex }, length)
    else (rb, length)

/-- The memory at `ptr` is part of the result. -/
def rtRingbufferGet (ptr : Nat → UInt8) (length : UInt32) : Ringbuffer × (Nat → UInt8) × UInt32 :=
  let size := rtRingbufferDataLen rb
  if size = 0 then (rb, ptr, 0)
  else
    let length := if size < length then size else length
    if rb.bufferSize - rb.readIndex > length then
      ({ rb with readIndex := field31 (rb.readIndex + length) },
        rtMemcpy ptr 0 (behind rb.bufferPtr rb.readIndex) length, length)
    else
      let ptr := rtMemcpy ptr 0 (behind rb.bufferPtr rb.readIndex) (rb.bufferSize - rb.readIndex)
      let ptr := rtMemcpy ptr (rb.bufferSize - rb.readIndex).toNat rb.bufferPtr
        (length - (rb.bufferSize - rb.readIndex))
      ({ rb with
          readMirror := !rb.readMirror
          readIndex := field31 (length - (rb.bufferSize - rb.readIndex)) }, ptr, length)

def rtRingbufferPeek : Ringbuffer × Option UInt32 × UInt32 :=
  let size := rtRingbufferDataLen rb
  if size = 0 then (rb, none, 0)
  else
    let ptr := some rb.readIndex
    if rb.bufferSize - rb.readIndex > size then
      ({ rb with readIndex := field31 (rb.readIndex + size) }, ptr, size)
    else
      let size := rb.bufferSize - rb.readIndex
      ({ rb with readMirror := !rb.readMirror, readIndex := 0 }, ptr, size)

/-- `rb->buffer_ptr[rb->write_index] = ch` -/
def storeChar (ch : UInt8) : Ringbuffer :=
  { rb with bufferPtr := fun a => if a = rb.writeIndex.toNat then ch else rb.bufferPtr a }

def rtRingbufferPutchar (ch : UInt8) : Ringbuffer × UInt32 :=
  if rtRingbufferSpaceLen rb = 0 then (rb, 0)
  else
    let rb := storeChar rb ch
    if rb.writeIndex = rb.bufferSize - 1 then
      ({ rb with writeMirror := !rb.writeMirror, writeIndex := 0 }, 1)
    else ({ rb with writeIndex := field31 (rb.writeIndex + 1) }, 1)

def rtRingbufferPutcharForce (ch : UInt8) : Ringbuffer × UInt32 :=
  let oldState := rtRingbufferStatus rb
  let rb := storeChar rb ch
  if rb.writeIndex = rb.bufferSize - 1 then
    let rb := { rb with writeMirror := !rb.writeMirror, writeIndex := 0 }
    if oldState = .full then ({ rb with readMirror := !rb.readMirror, readIndex := rb.writeIndex }, 1)
    else (rb, 1)
  else
    let rb := { rb with writeIndex := field31 (rb.writeIndex + 1) }
    if oldState = .full then ({ rb with readIndex := rb.writeIndex }, 1) else (rb, 1)

/-- The byte at `ch` is part of the result. -/
def rtRingbufferGetchar (ch : UInt8) : Ringbuffer × UInt8 × UInt32 :=
  if rtRingbufferDataLen rb = 0 then (rb, ch, 0)
  else
    let ch := rb.bufferPtr rb.readIndex.toNat
    if rb.readIndex = rb.bufferSize - 1 then
      ({ rb with readMirror := !rb.readMirror, readIndex := 0 }, ch, 1)
    else ({ rb with readIndex := field31 (rb.readIndex + 1) }, ch, 1)

def rtRingbufferReset : Ringbuffer :=
  { rb with readMirror := false, readIndex := 0, writeMirror := false, writeIndex := 0 }

end RtThread.Drivers
