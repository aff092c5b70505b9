import RtThread.Ymodem.Receiver
import Mathlib.Data.Nat.Digits.Defs

/-! `rym_send_on_device`: the sender of `ymodem.c`, for any callbacks, and `ry_sy.c`: the callbacks that send a file and
receive one. Every call of the file system succeeds. -/

set_option autoImplicit false
namespace RtThread.Ymodem

inductive SendPc where
  /-- in turn `i` of the loop of `_rym_do_send_handshake` -/
  | code (i : Nat)
  | ackBegin
  | cBegin
  | ackData
  | nakEot
  | ackEot
  | cEot
  /-- `_rym_do_send` has returned -/
  | ended (result : Int)
  deriving DecidableEq

/-- What a callback of the sender leaves: its state, the bytes that it has put into the buffer, its code, and whether it
has set the stage to RYM_STAGE_FINISHING. -/
structure SendReturn (S : Type) where
  client : S
  bytes : List UInt8
  code : UInt8
  finishing : Bool

structure SendCallbacks (S : Type) where
  onBegin : Option (S → SendReturn S)
  onData : Option (S → SendReturn S)
  onEnd : Option (S → SendReturn S)

/-- `struct rym_ctx` of a sender, with the payload in `ctx->buf` and the locals of the functions that are under way. -/
structure Sender (S : Type) where
  stage : Stage
  payload : List UInt8
  index : UInt32
  pc : SendPc
  client : S

namespace Sender
variable {S : Type}

def ends (w : Sender S) (result : Int) : Sender S := { w with pc := .ended result }

def returned (w : Sender S) (r : SendReturn S) : Sender S :=
  { w with
    client := r.client, payload := r.bytes ++ w.payload.drop r.bytes.length
    stage := if r.finishing then .finishing else w.stage }

/-- `on_begin` or `on_end` is called, if there is one; it should return the code SOH. -/
def calls (w : Sender S) (callback : Option (S → SendReturn S)) : Sender S × Bool :=
  match callback with
  | some call => (w.returned (call w.client), (call w.client).code = codeSoh)
  | none => (w, true)

def sendPacket (w : Sender S) (code index : UInt8) : List UInt8 :=
  match dataSize code with
  | some n => code :: packetBytes index (w.payload.take n)
  | none => []

variable (callbacks : SendCallbacks S)

/-- A turn of the loop of `_rym_do_send_trans`. -/
def sendTurn (w : Sender S) : Sender S × List UInt8 :=
  match callbacks.onData with
  | none => (w.ends (-errCode), [])
  | some onData =>
    let r := onData w.client
    let w := w.returned r
    ({ w with index := w.index + 1, pc := .ackData }, w.sendPacket r.code w.index.toUInt8)

/-- A read meets a byte, or a silence. `_rym_getchar` waits until there is a byte. -/
def step (tmSec : Nat) (w : Sender S) (item : Option UInt8) : Option (Sender S × List UInt8) :=
  match w.pc, item with
  | .code i, item =>
    if item = some codeC then
      let begun := w.calls callbacks.onBegin
      if begun.2 then some ({ begun.1 with pc := .ackBegin }, begun.1.sendPacket codeSoh 0)
      else some (begun.1.ends (-errCode), [])
    else if i + 1 < tmSec then some ({ w with pc := .code (i + 1) }, [])
    else some (w.ends (-errTmo), [])
  | .ackBegin, some b => if b = codeAck then some ({ w with pc := .cBegin }, []) else some (w.ends (-errAck), [])
  | .cBegin, some b =>
    if b = codeC then some (sendTurn callbacks { w with stage := .transmitting, index := 1 })
    else some (w.ends (-errAck), [])
  | .ackData, some b =>
    if b = codeAck then
      if w.stage = .finishing then some ({ w with pc := .nakEot }, [codeEot]) else some (w.sendTurn callbacks)
    else some (w.ends (-errAck), [])
  | .nakEot, some b => if b = codeNak then some ({ w with pc := .ackEot }, [codeEot]) else some (w.ends (-errAck), [])
  | .ackEot, some b => if b = codeAck then some ({ w with pc := .cEot }, []) else some (w.ends (-errAck), [])
  | .cEot, some b =>
    if b = codeC then
      let ended := w.calls callbacks.onEnd
      if ended.2 then some ({ ended.1.ends 0 with stage := .finished }, ended.1.sendPacket codeSoh 0)
      else some (ended.1.ends (-errCode), [])
    else some (w.ends (-errAck), [])
  | _, _ => none

/-- `rym_send_on_device`: `rt_device_open` returns `opened`, and `rt_malloc` finds the buffer or not. -/
def sendOnDevice (tmSec : Nat) (opened : Int) (buffer : Option (List UInt8)) (client : S) : Sender S :=
  let w : Sender S := ⟨.none, [], 0, .ended opened, client⟩
  if opened ≠ 0 then w
  else match buffer with
    | none => w.ends (-errNomem)
    | some payload =>
      { w with stage := .establishing, payload := payload, pc := if tmSec = 0 then .ended (-errTmo) else .code 0 }

end Sender

/-! ## Files -/

/-! ## The length of a file in its header -/

/-- A number as `%d` prints it. -/
def decimal (n : Nat) : List UInt8 :=
  if n = 0 then [0x30] else (Nat.digits 10 n).reverse.map fun d => UInt8.ofNat (0x30 + d)

def isDigit (b : UInt8) : Bool := 0x30 ≤ b ∧ b ≤ 0x39

def isSpace (b : UInt8) : Bool := b = 0x20 ∨ 0x09 ≤ b ∧ b ≤ 0x0D

def digitsValue (bytes : List UInt8) : Nat :=
  (bytes.takeWhile isDigit).foldl (fun value b => 10 * value + (b.toNat - 0x30)) 0

def atoi (bytes : List UInt8) : Int :=
  match bytes.dropWhile isSpace with
  | 0x2D :: digits => -digitsValue digits
  | 0x2B :: digits => digitsValue digits
  | digits => digitsValue digits

section decimal
variable {n d : Nat}

end decimal

/-! ## `ry` -/

/-- `struct custom_ctx` of the receiver, with the file that it has opened. -/
structure Ry where
  fpath : List UInt8
  file : Option (List UInt8 × List UInt8)
  isOpen : Bool
  flen : Int
  deriving DecidableEq

namespace Ry

/-- `_rym_recv_begin`: the path of the file is the path so far, a slash and the name in the header. -/
def recvBegin (s : Ry) (buf : List UInt8) : Ry × UInt8 :=
  let name := (buf.take (buf.length - 1)).takeWhile (· ≠ 0)
  let fpath := s.fpath ++ 0x2F :: name
  let flen := atoi (buf.drop (1 + name.length))
  ({ fpath := fpath, file := some (fpath, []), isOpen := true, flen := if flen = 0 then -1 else flen }, codeAck)

/-- `write` on the open file -/
def write (s : Ry) (bytes : List UInt8) : Ry :=
  { s with file := s.file.map fun file => (file.1, file.2 ++ bytes) }

/-- `_rym_recv_data`: the length is compared as an unsigned number. -/
def recvData (s : Ry) (buf : List UInt8) : Ry × UInt8 :=
  if s.flen = -1 then (s.write buf, codeAck)
  else
    let wlen := if 0 ≤ s.flen ∧ s.flen < buf.length then s.flen.toNat else buf.length
    ({ s.write (buf.take wlen) with flen := s.flen - wlen }, codeAck)

def recvEnd (s : Ry) (_buf : List UInt8) : Ry × UInt8 := ({ s with isOpen := false }, codeAck)

end Ry

def ry : Callbacks Ry := ⟨some Ry.recvBegin, some Ry.recvData, some Ry.recvEnd⟩

/-! ## `sy` -/

/-- `struct custom_ctx` of the sender: the name that it puts into the header, the file, and what `read` still finds. -/
structure Sy where
  name : List UInt8
  content : List UInt8
  rest : List UInt8

namespace Sy

def sendBegin (s : Sy) : SendReturn Sy :=
  let text := s.name ++ 0 :: decimal s.content.length ++ [0]
  ⟨s, text ++ List.replicate (128 - text.length) 0, codeSoh, false⟩

/-- `_rym_send_data`: what `read` finds of the file, and 0x1A behind it. -/
def sendData (s : Sy) : SendReturn Sy :=
  let block := s.rest.take 1024
  ⟨{ s with rest := s.rest.drop 1024 }, block ++ List.replicate (1024 - block.length) 0x1A,
    if block.length > 128 then codeStx else codeSoh, block.length < 1024⟩

def sendEnd (s : Sy) : SendReturn Sy := ⟨s, List.replicate 128 0, codeSoh, false⟩

end Sy

def sy : SendCallbacks Sy := ⟨some Sy.sendBegin, some Sy.sendData, some Sy.sendEnd⟩

end RtThread.Ymodem
