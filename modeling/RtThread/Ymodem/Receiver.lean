import RtThread.Lib.Transition
import RtThread.Ymodem.Packet
import Mathlib.Data.List.Induction

/-! `rym_recv_on_device`: the receiver of `ymodem.c`, for any callbacks and any stream. A stream is what its reads find:
bytes, and silences after which a read gives up. -/

set_option autoImplicit false
namespace RtThread.Ymodem
open Lib

/-- `enum rym_stage` -/
inductive Stage where
  | none
  | establishing
  | established
  | transmitting
  | finishing
  | finished
  deriving DecidableEq

inductive RecvPc where
  /-- in turn `i` of the loop of `_rym_do_handshake` -/
  | handshakeCode (i : Nat)
  | handshakeData (dataSz : Nat)
  | transCode
  | transData (dataSz : Nat)
  | finEot
  | finHeader
  | finData (dataSz : Nat)
  /-- `_rym_do_recv` has returned -/
  | ended (result : Int)
  deriving DecidableEq

/-- `rym_callback`s on the state of a client. They get the payload and return a code. -/
structure Callbacks (S : Type) where
  onBegin : Option (S → List UInt8 → S × UInt8)
  onData : Option (S → List UInt8 → S × UInt8)
  onEnd : Option (S → List UInt8 → S × UInt8)

/-- What has happened: the packets handed to `on_data` for the files before and for this one, the results of
`_rym_do_trans`, and the header that closed the session. -/
structure Log where
  earlier : List (List Packet)
  handed : List Packet
  phases : List Int
  closing : Option Packet

/-- `struct rym_ctx`, with the locals of the functions that are under way. -/
structure Receiver (S : Type) where
  stage : Stage
  buf : Nat → UInt8
  readlen : Nat
  errors : Nat
  pc : RecvPc
  client : S
  log : Log

def maxErrors : Nat := 5

def endSessionSendCanNum : Nat := 7

/-- `RT_ENOMEM` -/
def errNomem : Int := 5

def dataSize (code : UInt8) : Option Nat :=
  if code = codeSoh then some 128 else if code = codeStx then some 1024 else none

namespace Receiver
variable {S : Type}

/-- `_rym_read_data` of `n` bytes meets a byte or a silence. It returns how many it has read. -/
def readData (w : Receiver S) (n : Nat) : Option UInt8 → Receiver S × Option Nat
  | some b =>
    let w := { w with buf := Function.update w.buf (1 + w.readlen) b, readlen := w.readlen + 1 }
    (w, if w.readlen ≥ n then some w.readlen else none)
  | none => (w, some w.readlen)

/-- `_rym_read_code` returns. -/
def readCode (w : Receiver S) : Option UInt8 → Receiver S × UInt8
  | some b => ({ w with buf := Function.update w.buf 0 b }, b)
  | none => (w, codeNone)

def waitData (w : Receiver S) (pc : RecvPc) : Receiver S := { w with pc := pc, readlen := 0 }

def ends (w : Receiver S) (result : Int) : Receiver S := { w with pc := .ended result }

section calls
variable (callbacks : Callbacks S)

/-- `_rym_do_trans` is called. -/
def doTrans (w : Receiver S) : Receiver S × List UInt8 :=
  ({ w with
      stage := .established, errors := 0, pc := .transCode
      log := { w.log with earlier := w.log.earlier ++ [w.log.handed], handed := [] } },
    [codeAck, codeC])

/-- `_rym_do_trans` returns `result`, and `_rym_do_fin` is called. -/
def doFin (w : Receiver S) (result : Int) : Receiver S × List UInt8 :=
  let client := match callbacks.onEnd with
    | some onEnd => (onEnd w.client (slice w.buf 3 128)).1
    | none => w.client
  ({ w with
      stage := .finishing, client := client, pc := .finEot, log := { w.log with phases := w.log.phases ++ [result] } },
    [codeNak])

/-- `on_begin` gets the header, if there is one. -/
def begins (w : Receiver S) (payload : List UInt8) : Receiver S × Bool :=
  match callbacks.onBegin with
  | some onBegin =>
    let done := onBegin w.client payload
    ({ w with client := done.1 }, done.2 = codeAck)
  | none => (w, true)

/-- `_rym_do_handshake` with `i` bytes of the header. -/
def handshakeData (w : Receiver S) (dataSz i : Nat) : Receiver S × List UInt8 :=
  let p := packetIn w.buf dataSz
  if i ≠ dataSz + 4 then (w.ends (-errDsz), [])
  else if p.number ≠ 0 ∨ p.inverse ≠ 0xFF then (w.ends (-errSeq), [])
  else if p.crc ≠ crc16 p.payload then (w.ends (-errCrc), [])
  else
    let begun := w.begins callbacks p.payload
    if begun.2 then begun.1.doTrans else (begun.1.ends (-errCan), [])

/-- `_rym_trans_data` with `i` bytes of the packet. -/
def transData (w : Receiver S) (dataSz i : Nat) : Receiver S × Except Int UInt8 :=
  let p := packetIn w.buf dataSz
  if i ≠ dataSz + 4 then (w, .error (-errDsz))
  else if p.number.toNat + p.inverse.toNat ≠ 0xFF then (w, .error (-errSeq))
  -- the header again
  else if w.stage = .established ∧ p.number = 0 then (w, .ok codeNone)
  else
    let w := { w with stage := .transmitting }
    if p.crc ≠ crc16 p.payload then (w, .error (-errCrc))
    else match callbacks.onData with
      | some onData =>
        let done := onData w.client p.payload
        ({ w with client := done.1, log := { w.log with handed := w.log.handed ++ [p] } }, .ok done.2)
      | none => (w, .ok codeAck)

/-- An error in the loop of `_rym_do_trans`. -/
def transError (w : Receiver S) (err : Int) : Receiver S × List UInt8 :=
  let w := { w with errors := w.errors + 1 }
  if w.errors > maxErrors then w.doFin callbacks err else ({ w with pc := .transCode }, [codeNak])

/-- The rest of a turn of the loop of `_rym_do_trans`. -/
def transTurn (w : Receiver S) : Except Int UInt8 → Receiver S × List UInt8
  | .error err => w.transError callbacks err
  | .ok code =>
    let w := { w with errors := 0 }
    if code = codeCan then
      let done := w.doFin callbacks (-errCan)
      (done.1, List.replicate endSessionSendCanNum codeCan ++ done.2)
    else ({ w with pc := .transCode }, if code = codeAck then [codeAck] else [])

/-- `_rym_do_fin` with `i` bytes of the header. -/
def finData (w : Receiver S) (dataSz i : Nat) : Receiver S × List UInt8 :=
  let p := packetIn w.buf 128
  if i ≠ 132 then (w.ends (-errDsz), [])
  else if p.number ≠ 0 ∨ p.inverse ≠ 0xFF then (w.ends (-errSeq), [])
  else if p.crc ≠ crc16 p.payload then (w.ends (-errCrc), [])
  else if w.buf 3 ≠ 0 then
    let begun := w.begins callbacks (slice w.buf 3 dataSz)
    if begun.2 then begun.1.doTrans else (begun.1.ends (-errCan), [])
  else ({ w.ends 0 with stage := .finished, log := { w.log with closing := some p } }, [codeAck])

def step (tmSec : Nat) (w : Receiver S) (item : Option UInt8) : Option (Receiver S × List UInt8) :=
  match w.pc with
  | .handshakeCode i =>
    let read := w.readCode item
    match dataSize read.2 with
    | some dataSz => some (read.1.waitData (.handshakeData dataSz), [])
    | none =>
      if i + 1 < tmSec then some ({ read.1 with pc := .handshakeCode (i + 1) }, [codeC])
      else some (read.1.ends (-errTmo), [])
  | .handshakeData dataSz =>
    let read := w.readData (dataSz + 4) item
    match read.2 with
    | some i => some (read.1.handshakeData callbacks dataSz i)
    | none => some (read.1, [])
  | .transCode =>
    let read := w.readCode item
    match dataSize read.2 with
    | some dataSz => some (read.1.waitData (.transData dataSz), [])
    | none =>
      if read.2 = codeEot then some (read.1.doFin callbacks 0) else some (read.1.transError callbacks (-errCode))
  | .transData dataSz =>
    let read := w.readData (dataSz + 4) item
    match read.2 with
    | some i =>
      let got := read.1.transData callbacks dataSz i
      some (got.1.transTurn callbacks got.2)
    | none => some (read.1, [])
  | .finEot =>
    let read := w.readCode item
    if read.2 = codeEot then some ({ read.1 with pc := .finHeader }, [codeAck, codeC])
    else some (read.1.ends (-errCode), [])
  | .finHeader =>
    let read := w.readCode item
    match dataSize read.2 with
    | some dataSz => some (read.1.waitData (.finData dataSz), [])
    | none => some (read.1.ends (-errCode), [])
  | .finData dataSz =>
    let read := w.readData 132 item
    match read.2 with
    | some i => some (read.1.finData callbacks dataSz i)
    | none => some (read.1, [])
  | .ended _ => none

end calls

/-- `rym_recv_on_device`: `rt_device_open` returns `opened`, and `rt_malloc` finds the buffer or not. -/
def recvOnDevice (tmSec : Nat) (opened : Int) (buffer : Option (Nat → UInt8)) (client : S) :
    Receiver S × List UInt8 :=
  let w : Receiver S := ⟨.none, fun _ => 0, 0, 0, .ended opened, client, ⟨[], [], [], none⟩⟩
  if opened ≠ 0 then (w, [])
  else match buffer with
    | none => (w.ends (-errNomem), [])
    | some buf =>
      let w := { w with buf := buf, stage := .establishing }
      if tmSec = 0 then (w.ends (-errTmo), []) else ({ w with pc := .handshakeCode 0 }, [codeC])

/-! ## Reading a packet -/

/-- How many bytes `_rym_read_data` waits for. -/
def dataLen : RecvPc → Option Nat
  | .handshakeData dataSz => some (dataSz + 4)
  | .transData dataSz => some (dataSz + 4)
  | .finData _ => some 132
  | _ => none

def dataDone (callbacks : Callbacks S) (w : Receiver S) (i : Nat) : Receiver S × List UInt8 :=
  match w.pc with
  | .handshakeData dataSz => w.handshakeData callbacks dataSz i
  | .transData dataSz =>
    let got := w.transData callbacks dataSz i
    got.1.transTurn callbacks got.2
  | .finData dataSz => w.finData callbacks dataSz i
  | _ => (w, [])

section reading
variable {callbacks : Callbacks S} {tmSec n : Nat} {w : Receiver S}

theorem step_data (waits : dataLen w.pc = some n) (b : UInt8) :
    step callbacks tmSec w (some b) =
      if w.readlen + 1 ≥ n then
        some (dataDone callbacks { w with buf := Function.update w.buf (1 + w.readlen) b, readlen := w.readlen + 1 }
          (w.readlen + 1))
      else some ({ w with buf := Function.update w.buf (1 + w.readlen) b, readlen := w.readlen + 1 }, []) := by
  by_cases full : w.readlen + 1 ≥ n
  · cases here : w.pc <;> rw [here] at waits <;> cases waits <;> simp only [step, here, readData, dataDone, if_pos full]
  · cases here : w.pc <;> rw [here] at waits <;> cases waits <;> simp only [step, here, readData, if_neg full]

def reading (w : Receiver S) (bytes : List UInt8) : Receiver S :=
  { w with buf := place w.buf 1 bytes, readlen := bytes.length }

theorem reading_nil (w : Receiver S) (fresh : w.readlen = 0) : w.reading [] = w := by
  simp only [reading, place_nil, List.length_nil, ← fresh]

theorem reading_snoc (w : Receiver S) (bytes : List UInt8) (b : UInt8) :
    { w.reading bytes with
      buf := Function.update (w.reading bytes).buf (1 + (w.reading bytes).readlen) b
      readlen := (w.reading bytes).readlen + 1 } = w.reading (bytes ++ [b]) := by
  simp only [reading, place_snoc, List.length_append, List.length_singleton]

theorem step_more (callbacks : Callbacks S) (tmSec : Nat) (waits : dataLen w.pc = some n) {bytes : List UInt8}
    (more : bytes.length + 1 < n) (b : UInt8) :
    step callbacks tmSec (w.reading bytes) (some b) = some (w.reading (bytes ++ [b]), []) := by
  rw [step_data (w := w.reading bytes) waits, reading_snoc, if_neg]
  exact Nat.not_le_of_lt more

theorem step_last (callbacks : Callbacks S) (tmSec : Nat) (waits : dataLen w.pc = some n) {bytes : List UInt8}
    (last : bytes.length + 1 = n) (b : UInt8) :
    step callbacks tmSec (w.reading bytes) (some b) = some (dataDone callbacks (w.reading (bytes ++ [b])) n) := by
  rw [step_data (w := w.reading bytes) waits, reading_snoc, if_pos]
  · exact congrArg (fun i => some (dataDone callbacks (w.reading (bytes ++ [b])) i)) last
  · exact Nat.le_of_eq last.symm

theorem run_reading (callbacks : Callbacks S) (tmSec : Nat) (waits : dataLen w.pc = some n) (fresh : w.readlen = 0)
    {bytes : List UInt8} (long : bytes.length = n) (any : bytes ≠ []) :
    ∃ labels, labels.map Prod.fst = bytes.map some ∧
      Run (Performs (step callbacks tmSec)) w labels (dataDone callbacks (w.reading bytes) n).1 := by
  have begins (front : List UInt8) (short : front.length < n) : ∃ labels, labels.map Prod.fst = front.map some ∧
      Run (Performs (step callbacks tmSec)) w labels (w.reading front) := by
    induction front using List.reverseRecOn with
    | nil => exact ⟨[], rfl, (reading_nil w fresh).symm ▸ .nil _⟩
    | append_singleton front b ih =>
      rw [List.length_append, List.length_singleton] at short
      obtain ⟨labels, same, run⟩ := ih (by omega)
      exact ⟨labels ++ [(some b, [])], by simp [same], .snoc run (step_more callbacks tmSec waits short b)⟩
  obtain ⟨front, last, rfl⟩ := (List.eq_nil_or_concat bytes).resolve_left any
  rw [List.concat_eq_append, List.length_append, List.length_singleton] at long
  obtain ⟨labels, same, run⟩ := begins front (by omega)
  rw [List.concat_eq_append]
  exact ⟨labels ++ [(some last, _)], by simp [same], .snoc run (step_last callbacks tmSec waits long last)⟩

theorem handshakeData_sent {payload : List UInt8} (packet : packetIn w.buf n = sentPacket 0 payload)
    (takes : (w.begins callbacks payload).2 = true) :
    w.handshakeData callbacks n (n + 4) = (w.begins callbacks payload).1.doTrans := by
  have number : ¬((sentPacket 0 payload).number ≠ 0 ∨ (sentPacket 0 payload).inverse ≠ 0xFF) := by
    simp only [sentPacket]
    decide
  have crc : ¬(sentPacket 0 payload).crc ≠ crc16 (sentPacket 0 payload).payload := fun wrong => wrong rfl
  simp only [handshakeData, packet, ne_eq, not_true_eq_false, if_false, if_neg number, if_neg crc]
  exact if_pos takes

theorem transData_sent {payload : List UInt8} {index : UInt8} (packet : packetIn w.buf n = sentPacket index payload)
    (fresh : ¬(w.stage = .established ∧ index = 0)) {onData : S → List UInt8 → S × UInt8}
    (given : callbacks.onData = some onData) :
    w.transData callbacks n (n + 4) =
      ({ w with
          stage := .transmitting, client := (onData w.client payload).1
          log := { w.log with handed := w.log.handed ++ [sentPacket index payload] } },
        .ok (onData w.client payload).2) := by
  have intact := sent_intact index payload
  have fresh : ¬(w.stage = .established ∧ (sentPacket index payload).number = 0) := fresh
  simp only [transData, packet, ne_eq, not_true_eq_false, if_false, intact.1, if_neg fresh, intact.2, given]
  rfl

theorem transTurn_ack (w : Receiver S) :
    w.transTurn callbacks (.ok codeAck) = ({ w with errors := 0, pc := .transCode }, [codeAck]) := rfl

theorem dataDone_packet {payload : List UInt8} {index : UInt8} (here : w.pc = .transData n) (long : payload.length = n)
    (fresh : ¬(w.stage = .established ∧ index = 0)) {onData : S → List UInt8 → S × UInt8}
    (given : callbacks.onData = some onData) (acks : (onData w.client payload).2 = codeAck) :
    dataDone callbacks (w.reading (packetBytes index payload)) (n + 4) =
      ({ w.reading (packetBytes index payload) with
          stage := .transmitting, errors := 0, pc := .transCode, client := (onData w.client payload).1
          log := { w.log with handed := w.log.handed ++ [sentPacket index payload] } }, [codeAck]) := by
  have there : (w.reading (packetBytes index payload)).pc = .transData n := here
  have acks : (onData (w.reading (packetBytes index payload)).client payload).2 = codeAck := acks
  simp only [dataDone, there]
  rw [transData_sent (w := w.reading (packetBytes index payload)) (packetIn_packetBytes w.buf index long) fresh given,
    acks, transTurn_ack]
  rfl

theorem dataDone_header {payload : List UInt8} (here : w.pc = .handshakeData n) (long : payload.length = n)
    (takes : (w.begins callbacks payload).2 = true) :
    dataDone callbacks (w.reading (packetBytes 0 payload)) (n + 4) =
      ((w.reading (packetBytes 0 payload)).begins callbacks payload).1.doTrans := by
  have there : (w.reading (packetBytes 0 payload)).pc = .handshakeData n := here
  have same : ((w.reading (packetBytes 0 payload)).begins callbacks payload).2 = (w.begins callbacks payload).2 := by
    unfold begins
    split <;> rfl
  simp only [dataDone, there]
  exact handshakeData_sent (w := w.reading (packetBytes 0 payload)) (packetIn_packetBytes w.buf 0 long)
    (same.trans takes)

theorem run_packet (tmSec : Nat) (code index : UInt8) {payload : List UInt8} (here : w.pc = .transCode)
    (size : dataSize code = some n) (long : payload.length = n) (fresh : ¬(w.stage = .established ∧ index = 0))
    {onData : S → List UInt8 → S × UInt8} (given : callbacks.onData = some onData)
    (acks : (onData w.client payload).2 = codeAck) :
    ∃ labels w', labels.map Prod.fst = (code :: packetBytes index payload).map some ∧
      Run (Performs (step callbacks tmSec)) w labels w' ∧ w'.pc = .transCode ∧ w'.stage = .transmitting ∧
      w'.client = (onData w.client payload).1 ∧
      w'.log = { w.log with handed := w.log.handed ++ [sentPacket index payload] } := by
  have first : Performs (step callbacks tmSec) w (some code, [])
      ((w.readCode (some code)).1.waitData (.transData n)) := by
    simp only [Performs, step, here, readCode, size]
  have bytes := (packetBytes_length index payload).trans (congrArg (· + 4) long)
  have waits : dataLen ((w.readCode (some code)).1.waitData (.transData n)).pc = some (n + 4) := rfl
  obtain ⟨labels, same, run⟩ := run_reading callbacks tmSec waits rfl bytes (by simp [packetBytes])
  rw [dataDone_packet (w := (w.readCode (some code)).1.waitData (.transData n)) rfl long fresh given acks] at run
  exact ⟨_, _, by simp [same], Run.trans (.snoc (.nil _) first) run, rfl, rfl, rfl, rfl⟩

theorem run_header (callbacks : Callbacks S) (tmSec : Nat) (code : UInt8) {i : Nat} {payload : List UInt8}
    (here : w.pc = .handshakeCode i) (size : dataSize code = some n) (long : payload.length = n)
    (takes : (w.begins callbacks payload).2 = true) :
    ∃ labels w', labels.map Prod.fst = (code :: packetBytes 0 payload).map some ∧
      Run (Performs (step callbacks tmSec)) w labels w' ∧ w'.pc = .transCode ∧ w'.stage = .established ∧
      w'.client = (w.begins callbacks payload).1.client ∧
      w'.log = { w.log with earlier := w.log.earlier ++ [w.log.handed], handed := [] } := by
  have first : Performs (step callbacks tmSec) w (some code, [])
      ((w.readCode (some code)).1.waitData (.handshakeData n)) := by
    simp only [Performs, step, here, readCode, size]
  have bytes := (packetBytes_length 0 payload).trans (congrArg (· + 4) long)
  have waits : dataLen ((w.readCode (some code)).1.waitData (.handshakeData n)).pc = some (n + 4) := rfl
  obtain ⟨labels, same, run⟩ := run_reading callbacks tmSec waits rfl bytes (by simp [packetBytes])
  have takes : (((w.readCode (some code)).1.waitData (.handshakeData n)).begins callbacks payload).2 = true := by
    rw [← takes]
    unfold begins
    split <;> rfl
  rw [dataDone_header (w := (w.readCode (some code)).1.waitData (.handshakeData n)) rfl long takes] at run
  refine ⟨_, _, by simp [same], Run.trans (.snoc (.nil _) first) run, rfl, rfl, ?_, ?_⟩
  all_goals
    simp only [doTrans]
    unfold begins
    split <;> rfl

end reading
end Receiver
end RtThread.Ymodem
