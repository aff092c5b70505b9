import RtThread.Link.Receive
import Mathlib.Data.UInt

/-! `rt_link_send`: the frames into which a buffer is split, and what an allocation that fails leaves of them. -/

set_option autoImplicit false
namespace RtThread.Link
open Lib

/-- `RT_LINK_MAX_DATA_LENGTH`, with the four bytes of the CRC -/
def maxDataLength : Nat := maxFrameLength - headLength - extendLength - 4

/-- `rt_link_frame_attr_e`, of which the frames of data have three -/
inductive FrameAttr where
  | longData
  | shortData
  | reserve
  deriving DecidableEq

/-- `rt_link_err_e`, as far as `rt_link_send` sets it -/
inductive LinkErr where
  | eok
  | err
  | etimeout
  | enomem
  deriving DecidableEq

/-- `struct rt_link_frame_head` -/
structure FrameHead where
  magicid : Nat
  extend : Bool
  crc : Bool
  ack : Bool
  sequence : UInt8
  service : Nat
  length : Nat
  deriving DecidableEq

/-- `struct rt_link_extend` -/
structure FrameExtend where
  attr : FrameAttr
  parameter : UInt16
  deriving DecidableEq

/-- `struct rt_link_frame`, with `real_data` as a place in the buffer that is sent. -/
structure Frame where
  head : FrameHead
  ext : Option FrameExtend
  realData : Option Nat
  crc : UInt32
  dataLen : UInt16
  attr : FrameAttr
  issent : Bool
  index : UInt8
  total : UInt8
  deriving DecidableEq

/-- What `rt_link_send` reads of a service. -/
structure Service where
  waits : Bool
  flag : UInt8
  service : Nat
  deriving DecidableEq

def flagAck : UInt8 := 0x01
def flagCrc : UInt8 := 0x02

def frameInit (config : UInt8) : Frame :=
  { head :=
      { magicid := 0x15, extend := false, crc := config &&& flagCrc ≠ 0, ack := config &&& flagAck ≠ 0, sequence := 0,
        service := 0, length := 0 }
    ext := none
    realData := none
    crc := 0
    dataLen := 0
    attr := .reserve
    issent := false
    index := 0
    total := 0 }

def frameExtendConfig (frame : Frame) (attr : FrameAttr) (parameter : UInt16) : Frame :=
  { frame with head := { frame.head with extend := true }, ext := some ⟨attr, parameter⟩ }

/-- The sequence number and the list of `rt_link_scb`. -/
structure Scb where
  txSeq : UInt8
  txDataSlist : List Frame

structure Sending where
  scb : Scb
  index : UInt8
  offset : Nat
  sendLen : Nat

def sendFrame (service : Service) (size : Nat) (total : UInt8) (s : Sending) : Sending :=
  let txSeq := s.scb.txSeq + 1
  let frame := frameInit service.flag
  let frame := { frame with
    head := { frame.head with sequence := txSeq, service := service.service }
    realData := some s.offset
    index := s.index
    total }
  let (frame, offset) :=
    if total > 1 then
      let (dataLen, offset) :=
        if s.offset + maxDataLength > size then (UInt16.ofNat (size - s.offset), s.offset)
        else (UInt16.ofNat maxDataLength, s.offset + maxDataLength)
      (frameExtendConfig { frame with attr := .longData, dataLen } .longData (UInt16.ofNat size), offset)
    else ({ frame with attr := .shortData, dataLen := UInt16.ofNat size }, s.offset)
  { scb := { txSeq, txDataSlist := s.scb.txDataSlist ++ [frame] }
    index := s.index + 1
    offset
    sendLen := s.sendLen + frame.dataLen.toNat }

/-- The loop; `malloc` says which of the allocations succeed. -/
def sendLoop (service : Service) (size : Nat) (total : UInt8) (malloc : Nat → Bool) : Nat → Sending → LinkErr × Sending
  | 0, s => (.eok, s)
  | fuel + 1, s =>
    if malloc s.index.toNat then
      let s := sendFrame service size total s
      if total > s.index then sendLoop service size total malloc fuel s else (.eok, s)
    else (.enomem, s)

structure SendResult where
  returned : Nat
  err : LinkErr
  scb : Scb

/-- `rt_link_send`; `late` says whether the wait for the result would run out of time. The check of `total` leaves no more
than three turns. -/
def rtLinkSend (service : Service) (malloc : Nat → Bool) (late : Bool) (scb : Scb) (data : Option (Nat → UInt8))
    (size : Nat) : SendResult :=
  if size = 0 ∨ data.isNone then ⟨0, .err, scb⟩
  else
    let total := UInt8.ofNat (if size % maxDataLength = 0 then size / maxDataLength else size / maxDataLength + 1)
    if total.toNat > framesMax then ⟨0, .enomem, scb⟩
    else
      let (failed, s) := sendLoop service size total malloc framesMax ⟨scb, 0, 0, 0⟩
      if failed = .enomem then ⟨s.sendLen, .enomem, s.scb⟩
      else if service.waits && late then ⟨0, .etimeout, s.scb⟩
      else ⟨s.sendLen, .eok, s.scb⟩

def Frame.bytes (data : Nat → UInt8) (f : Frame) : List UInt8 :=
  match f.realData with
  | none => []
  | some offset => cells data offset f.dataLen.toNat

def Refused (scb : Scb) (result : SendResult) : Prop :=
  result.err ≠ .eok ∧ result.returned = 0 ∧ result.scb.txDataSlist = scb.txDataSlist

structure Appends (scb : Scb) (data : Nat → UInt8) (size : Nat) (result : SendResult) (frames : List Frame) : Prop where
  list : result.scb.txDataSlist = scb.txDataSlist ++ frames
  nonempty : 1 ≤ frames.length
  few : frames.length ≤ framesMax
  sequence : ∀ i (inside : i < frames.length), frames[i].head.sequence = scb.txSeq + 1 + UInt8.ofNat i
  index : ∀ i (inside : i < frames.length), frames[i].index.toNat = i
  total : ∀ f ∈ frames, f.total.toNat = frames.length
  bytes : frames.flatMap (Frame.bytes data) = cells data 0 size
  parameter : 1 < frames.length → ∀ f ∈ frames, f.ext.map (·.parameter.toNat) = some size

def Framed (scb : Scb) (data : Option (Nat → UInt8)) (size : Nat) (result : SendResult) : Prop :=
  Refused scb result ∨ ∃ buffer frames, data = some buffer ∧ Appends scb buffer size result frames

/-- The frames that `size` bytes take. -/
def frameCount (size : Nat) : Nat := if size % maxDataLength = 0 then size / maxDataLength else size / maxDataLength + 1

/-- There is nothing to send, the number of frames is too large in its low byte too, the first allocation fails, or there
are no more than three frames and they are all allocated. -/
def SendsWhole (malloc : Nat → Bool) (data : Option (Nat → UInt8)) (size : Nat) : Prop :=
  size = 0 ∨ data = none ∨ framesMax < frameCount size % 256 ∨ malloc 0 = false ∨
    frameCount size ≤ framesMax ∧ ∀ i < frameCount size, malloc i = true

section
variable {service : Service} {malloc : Nat → Bool} {late : Bool} {scb : Scb} {data : Nat → UInt8} {size n : Nat}
  {total : UInt8}

/-! ## The turns of the loop -/

def offsetAt (total : UInt8) (size i : Nat) : Nat := if total > 1 then min i (size / maxDataLength) * maxDataLength else 0

def dataLenAt (total : UInt8) (size i : Nat) : UInt16 :=
  if total > 1 then
    if size / maxDataLength ≤ i then UInt16.ofNat (size - offsetAt total size i) else UInt16.ofNat maxDataLength
  else UInt16.ofNat size

/-- The frame of turn `i`. -/
def frameAt (service : Service) (size : Nat) (total : UInt8) (scb : Scb) (i : Nat) : Frame :=
  { head := { (frameInit service.flag).head with
      sequence := scb.txSeq + UInt8.ofNat i + 1, service := service.service, extend := total > 1 }
    ext := if total > 1 then some ⟨.longData, UInt16.ofNat size⟩ else none
    realData := some (offsetAt total size i)
    crc := 0
    dataLen := dataLenAt total size i
    attr := if total > 1 then .longData else .shortData
    issent := false
    index := UInt8.ofNat i
    total }

def sentLen (total : UInt8) (size : Nat) : Nat → Nat
  | 0 => 0
  | i + 1 => sentLen total size i + (dataLenAt total size i).toNat

/-- What `n` turns leave. -/
def sent (service : Service) (size : Nat) (total : UInt8) (scb : Scb) (n : Nat) : Sending :=
  { scb :=
      { txSeq := scb.txSeq + UInt8.ofNat n
        txDataSlist := scb.txDataSlist ++ (List.range n).map (frameAt service size total scb) }
    index := UInt8.ofNat n
    offset := offsetAt total size n
    sendLen := sentLen total size n }

theorem offset_full (long : total > 1) (n : Nat) :
    offsetAt total size n + maxDataLength > size ↔ size / maxDataLength ≤ n := by
  have value : maxDataLength = 1012 := rfl
  rw [offsetAt, if_pos long, value]
  constructor <;> intro <;> omega

theorem offset_next (long : total > 1) (n : Nat) : offsetAt total size (n + 1) =
    if offsetAt total size n + maxDataLength > size then offsetAt total size n else offsetAt total size n + maxDataLength := by
  simp only [offset_full long]
  simp only [offsetAt, if_pos long]
  split
  · rw [Nat.min_eq_right (by omega), Nat.min_eq_right (by omega)]
  · rw [Nat.min_eq_left (by omega), Nat.min_eq_left (by omega), Nat.succ_mul]

theorem ofNat_succ (n : Nat) : UInt8.ofNat (n + 1) = UInt8.ofNat n + 1 := UInt8.ofNat_add n 1

theorem sendFrame_sent (n : Nat) :
    sendFrame service size total (sent service size total scb n) = sent service size total scb (n + 1) := by
  have frames : (List.range (n + 1)).map (frameAt service size total scb) =
      (List.range n).map (frameAt service size total scb) ++ [frameAt service size total scb n] := by
    rw [List.range_succ, List.map_append, List.map_singleton]
  have seq : scb.txSeq + (UInt8.ofNat n + 1) = scb.txSeq + UInt8.ofNat n + 1 := (UInt8.add_assoc _ _ _).symm
  simp only [sent, frames, sentLen, ofNat_succ, seq, ← List.append_assoc]
  by_cases long : total > 1
  · have yes : decide (total > 1) = true := decide_eq_true long
    simp only [offset_next long, sendFrame, frameAt, dataLenAt, if_pos long, ← offset_full long, frameExtendConfig, yes]
    split
    · rfl
    · rfl
  · have start (i : Nat) : offsetAt total size i = 0 := if_neg long
    have no : decide (total > 1) = false := decide_eq_false long
    simp only [sendFrame, frameAt, dataLenAt, if_neg long, start, no]
    rfl

def turns (total : UInt8) : Nat := max 1 total.toNat

structure Ended (malloc : Nat → Bool) (service : Service) (size : Nat) (total : UInt8) (scb : Scb) (n : Nat)
    (result : LinkErr × Sending) : Prop where
  le : n ≤ turns total
  state : result = (if n = turns total then .eok else .enomem, sent service size total scb n)
  allocated : ∀ i < n, malloc i = true
  failed : n < turns total → malloc n = false

theorem turns_le (total : UInt8) : turns total < 256 := by
  have := total.toNat_lt
  rw [turns]
  omega

theorem more_iff {n : Nat} (less : n < turns total) : total > UInt8.ofNat (n + 1) ↔ n + 1 < turns total := by
  have := turns_le total
  have small := total.toNat_lt
  unfold turns at *
  rw [gt_iff_lt, UInt8.lt_iff_toNat_lt, UInt8.toNat_ofNat']
  by_cases last : n = 255
  · omega
  · rw [Nat.mod_eq_of_lt (by omega)]
    omega

theorem sendLoop_ended (fuel n : Nat) (less : n < turns total) (enough : turns total ≤ n + fuel)
    (before : ∀ i < n, malloc i = true) :
    ∃ m, Ended malloc service size total scb m (sendLoop service size total malloc fuel (sent service size total scb n)) := by
  induction fuel generalizing n with
  | zero => omega
  | succ fuel ih =>
    have index : (sent service size total scb n).index.toNat = n := by
      have := turns_le total
      rw [sent, UInt8.toNat_ofNat', Nat.mod_eq_of_lt (by omega)]
    rw [sendLoop, index, sendFrame_sent]
    by_cases got : malloc n = true
    · have all : ∀ i < n + 1, malloc i = true := fun i inside => by
        rcases Nat.lt_succ_iff_lt_or_eq.mp inside with less | rfl
        · exact before i less
        · exact got
      have index' : (sent service size total scb (n + 1)).index = UInt8.ofNat (n + 1) := rfl
      simp only [if_pos got, index', more_iff less]
      split
      case isTrue more => exact ih (n + 1) more (by omega) all
      case isFalse last =>
        have stop : n + 1 = turns total := by omega
        exact ⟨n + 1, Nat.le_of_eq stop, by rw [if_pos stop], all, fun short => absurd short last⟩
    · rw [if_neg got]
      refine ⟨n, Nat.le_of_lt less, ?_, before, fun _ => Bool.eq_false_iff.mpr got⟩
      rw [if_neg (Nat.ne_of_lt less)]

theorem sent_zero : sent service size total scb 0 = ⟨scb, 0, 0, 0⟩ := by
  have start : offsetAt total size 0 = 0 := by
    unfold offsetAt
    split <;> simp
  have seq : scb.txSeq + UInt8.ofNat 0 = scb.txSeq := UInt8.add_zero _
  simp only [sent, start, seq, List.range_zero, List.map_nil, List.append_nil]
  rfl

/-! ## The bytes of the frames -/

def framesOf (service : Service) (size : Nat) (total : UInt8) (scb : Scb) (n : Nat) : List Frame :=
  (List.range n).map (frameAt service size total scb)

theorem framesOf_succ (n : Nat) : framesOf service size total scb (n + 1) =
    framesOf service size total scb n ++ [frameAt service size total scb n] := by
  rw [framesOf, List.range_succ, List.map_append, List.map_singleton, ← framesOf]

theorem framesOf_length (n : Nat) : (framesOf service size total scb n).length = n := by
  rw [framesOf, List.length_map, List.length_range]

theorem framesOf_bytes_length (data : Nat → UInt8) (n : Nat) :
    ((framesOf service size total scb n).flatMap (Frame.bytes data)).length = sentLen total size n := by
  induction n with
  | zero => rfl
  | succ n ih =>
    have last : ((frameAt service size total scb n).bytes data).length = (dataLenAt total size n).toNat := by
      simp [Frame.bytes, frameAt, cells]
    rw [framesOf_succ, List.flatMap_append, List.length_append, ih, List.flatMap_singleton, last, sentLen]

theorem cells_append (data : Nat → UInt8) (m n : Nat) : cells data 0 (m + n) = cells data 0 m ++ cells data m n := by
  simp only [cells, List.range_add, List.map_append, List.map_map, Function.comp_def, Nat.zero_add]

theorem framesOf_bytes (data : Nat → UInt8) (n : Nat) (joined : ∀ i < n, offsetAt total size i = sentLen total size i) :
    (framesOf service size total scb n).flatMap (Frame.bytes data) = cells data 0 (sentLen total size n) := by
  induction n with
  | zero => rfl
  | succ n ih =>
    have last : (frameAt service size total scb n).bytes data = cells data (sentLen total size n) (dataLenAt total size n).toNat := by
      rw [← joined n (Nat.lt_succ_self n)]
      rfl
    rw [framesOf_succ, List.flatMap_append, ih fun i less => joined i (Nat.lt_succ_of_lt less), List.flatMap_singleton, last,
      sentLen, cells_append]

theorem sentLen_full (long : total > 1) {n : Nat} (le : n ≤ size / maxDataLength) :
    sentLen total size n = n * maxDataLength := by
  induction n with
  | zero => rw [sentLen, Nat.zero_mul]
  | succ n ih =>
    have full : (UInt16.ofNat maxDataLength).toNat = maxDataLength := rfl
    rw [sentLen, ih (by omega), dataLenAt, if_pos long, if_neg (by omega), full, Nat.succ_mul]

theorem sentLen_short (short : ¬total > 1) : sentLen total size 1 = size % 65536 := by
  rw [sentLen, sentLen, dataLenAt, if_neg short, UInt16.toNat_ofNat', Nat.zero_add]

theorem frameCount_pos (positive : 0 < size) : 0 < frameCount size := by
  have value : maxDataLength = 1012 := rfl
  rw [frameCount, value]
  split <;> omega

theorem sentLen_whole (positive : 0 < size) (few : frameCount size ≤ framesMax) :
    (∀ i < frameCount size, offsetAt (UInt8.ofNat (frameCount size)) size i = sentLen (UInt8.ofNat (frameCount size)) size i) ∧
      sentLen (UInt8.ofNat (frameCount size)) size (frameCount size) = size := by
  have three : framesMax = 3 := rfl
  have value : maxDataLength = 1012 := rfl
  have some_ := frameCount_pos positive
  have count : frameCount size = if size % maxDataLength = 0 then size / maxDataLength else size / maxDataLength + 1 := rfl
  have small : (UInt8.ofNat (frameCount size)).toNat = frameCount size := by
    rw [UInt8.toNat_ofNat', Nat.mod_eq_of_lt (by omega)]
  by_cases long : UInt8.ofNat (frameCount size) > 1
  · have full (i : Nat) (less : i < frameCount size) : i ≤ size / maxDataLength := by
      split at count <;> omega
    refine ⟨fun i less => ?_, ?_⟩
    · rw [sentLen_full long (full i less), offsetAt, if_pos long, Nat.min_eq_left (full i less)]
    · split at count
      case isTrue whole =>
        rw [sentLen_full long (Nat.le_of_eq count), count, value]
        rw [value] at whole
        omega
      case isFalse rest =>
        have last : size - size / maxDataLength * maxDataLength < 65536 := by
          rw [value]
          omega
        rw [count] at long ⊢
        rw [sentLen, sentLen_full long (Nat.le_refl _), dataLenAt, if_pos long, if_pos (Nat.le_refl _), offsetAt, if_pos long,
          Nat.min_self, UInt16.toNat_ofNat', Nat.mod_eq_of_lt last]
        have := Nat.div_mul_le_self size maxDataLength
        omega
  · have one : frameCount size = 1 := by
      rw [gt_iff_lt, UInt8.lt_iff_toNat_lt, small] at long
      have value : (1 : UInt8).toNat = 1 := rfl
      omega
    rw [one] at long ⊢
    refine ⟨fun i less => ?_, ?_⟩
    · have zero : i = 0 := by omega
      rw [zero, sentLen, offsetAt, if_neg long]
    · rw [sentLen_short long]
      split at count <;> rw [value] at * <;> omega

theorem sentLen_part {n : Nat} (positive : 0 < size) (low : frameCount size % 256 ≤ framesMax)
    (le : n ≤ turns (UInt8.ofNat (frameCount size))) (part : ¬(frameCount size ≤ framesMax ∧ n = frameCount size)) :
    sentLen (UInt8.ofNat (frameCount size)) size n ≠ size := by
  have three : framesMax = 3 := rfl
  have value : maxDataLength = 1012 := rfl
  have some_ := frameCount_pos positive
  have count : frameCount size = if size % maxDataLength = 0 then size / maxDataLength else size / maxDataLength + 1 := rfl
  have cut : (UInt8.ofNat (frameCount size)).toNat = frameCount size % 256 := UInt8.toNat_ofNat'
  rw [turns, cut] at le
  by_cases long : UInt8.ofNat (frameCount size) > 1
  · have full : n ≤ size / maxDataLength := by
      split at count <;> omega
    rw [sentLen_full long full, value]
    rw [value] at count
    intro whole
    split at count <;> omega
  · have one : frameCount size % 256 ≤ 1 := by
      rw [gt_iff_lt, UInt8.lt_iff_toNat_lt, cut] at long
      exact Nat.not_lt.mp long
    have few : n = 0 ∨ n = 1 := by omega
    rcases few with rfl | rfl
    · rw [sentLen]
      omega
    · rw [sentLen_short long]
      rw [value] at count
      intro whole
      split at count <;> omega

/-! ## The call -/

theorem appends_framesOf (data : Nat → UInt8) {result : SendResult} (positive : 0 < size) (low : frameCount size % 256 ≤ framesMax)
    (le : n ≤ turns (UInt8.ofNat (frameCount size)))
    (list : result.scb.txDataSlist = scb.txDataSlist ++ framesOf service size (UInt8.ofNat (frameCount size)) scb n) :
    (∃ frames, Appends scb data size result frames) ↔ frameCount size ≤ framesMax ∧ n = frameCount size := by
  constructor
  · rintro ⟨frames, appends⟩
    by_contra part
    have same : frames = framesOf service size (UInt8.ofNat (frameCount size)) scb n :=
      List.append_cancel_left (appends.list.symm.trans list)
    have bytes := congrArg List.length appends.bytes
    rw [same, framesOf_bytes_length] at bytes
    apply sentLen_part positive low le part
    rw [bytes]
    simp [cells]
  · rintro ⟨few, rfl⟩
    obtain ⟨joined, whole⟩ := sentLen_whole positive few
    have three : framesMax = 3 := rfl
    have small : (UInt8.ofNat (frameCount size)).toNat = frameCount size := by
      rw [UInt8.toNat_ofNat', Nat.mod_eq_of_lt (by omega)]
    refine ⟨_, list, ?_, ?_, ?_, ?_, ?_, ?_, ?_⟩
    · rw [framesOf_length]
      exact frameCount_pos positive
    · rw [framesOf_length]
      exact few
    · intro i inside
      simp only [framesOf, List.getElem_map, List.getElem_range, frameAt]
      rw [UInt8.add_assoc, UInt8.add_comm (UInt8.ofNat i), ← UInt8.add_assoc]
    · intro i inside
      rw [framesOf_length] at inside
      simp only [framesOf, List.getElem_map, List.getElem_range, frameAt, UInt8.toNat_ofNat']
      omega
    · intro f member
      obtain ⟨i, -, rfl⟩ := List.mem_map.mp member
      rw [framesOf_length]
      exact small
    · rw [framesOf_bytes data _ joined, whole]
    · intro more f member
      obtain ⟨i, -, rfl⟩ := List.mem_map.mp member
      rw [framesOf_length] at more
      have long : UInt8.ofNat (frameCount size) > 1 := by
        rw [gt_iff_lt, UInt8.lt_iff_toNat_lt, small]
        exact more
      have fits : size < 65536 := by
        have value : maxDataLength = 1012 := rfl
        have count : frameCount size = if size % maxDataLength = 0 then size / maxDataLength else size / maxDataLength + 1 := rfl
        rw [value] at count
        split at count <;> omega
      simp only [frameAt, if_pos long, Option.map_some, UInt16.toNat_ofNat', Nat.mod_eq_of_lt fits]

theorem refused_framesOf {result : SendResult}
    (list : result.scb.txDataSlist = scb.txDataSlist ++ framesOf service size total scb n) (some_ : 0 < n) :
    ¬Refused scb result := by
  rintro ⟨-, -, same⟩
  rw [list] at same
  have none_ := congrArg List.length (List.append_right_eq_self.mp same)
  rw [framesOf_length] at none_
  exact absurd none_ (by simp; omega)

def sendEnd (service : Service) (late : Bool) (ended : LinkErr × Sending) : SendResult :=
  if ended.1 = .enomem then ⟨ended.2.sendLen, .enomem, ended.2.scb⟩
  else if service.waits && late then ⟨0, .etimeout, ended.2.scb⟩
  else ⟨ended.2.sendLen, .eok, ended.2.scb⟩

theorem sendEnd_scb (ended : LinkErr × Sending) : (sendEnd service late ended).scb = ended.2.scb := by
  unfold sendEnd
  split
  · rfl
  · split <;> rfl

theorem rtLinkSend_eq (positive : ¬size = 0) : rtLinkSend service malloc late scb (some data) size =
    if (UInt8.ofNat (frameCount size)).toNat > framesMax then ⟨0, .enomem, scb⟩
    else sendEnd service late (sendLoop service size (UInt8.ofNat (frameCount size)) malloc framesMax ⟨scb, 0, 0, 0⟩) := by
  have checked : ¬(size = 0 ∨ (some data).isNone = true) := by simp [positive]
  rw [rtLinkSend, if_neg checked]
  rfl

theorem rtLinkSend_loop (service : Service) (malloc : Nat → Bool) (late : Bool) (scb : Scb) (data : Nat → UInt8)
    (positive : ¬size = 0) (low : frameCount size % 256 ≤ framesMax) : ∃ n,
    n ≤ turns (UInt8.ofNat (frameCount size)) ∧ (∀ i < n, malloc i = true) ∧
      (n < turns (UInt8.ofNat (frameCount size)) → malloc n = false) ∧
      (rtLinkSend service malloc late scb (some data) size).scb.txDataSlist =
        scb.txDataSlist ++ framesOf service size (UInt8.ofNat (frameCount size)) scb n ∧
      (n = 0 → Refused scb (rtLinkSend service malloc late scb (some data) size)) := by
  have cut : (UInt8.ofNat (frameCount size)).toNat = frameCount size % 256 := UInt8.toNat_ofNat'
  have one : 0 < turns (UInt8.ofNat (frameCount size)) := by
    rw [turns]
    omega
  have three : turns (UInt8.ofNat (frameCount size)) ≤ 0 + framesMax := by
    have value : framesMax = 3 := rfl
    rw [turns, cut]
    omega
  have loop : ∃ m, Ended malloc service size (UInt8.ofNat (frameCount size)) scb m (sendLoop service size
      (UInt8.ofNat (frameCount size)) malloc framesMax (sent service size (UInt8.ofNat (frameCount size)) scb 0)) :=
    sendLoop_ended framesMax 0 one three fun i less => absurd less (Nat.not_lt_zero i)
  obtain ⟨n, le, state, allocated, failed⟩ := loop
  have fits : ¬(UInt8.ofNat (frameCount size)).toNat > framesMax := by omega
  rw [rtLinkSend_eq positive, if_neg fits, ← sent_zero, state]
  refine ⟨n, le, allocated, failed, ?_, ?_⟩
  · rw [sendEnd_scb]
    rfl
  · rintro rfl
    rw [if_neg (Nat.ne_of_lt one), sendEnd, if_pos rfl, sent_zero]
    exact ⟨LinkErr.noConfusion, rfl, rfl⟩

theorem rtLinkSend_framed (data : Option (Nat → UInt8)) :
    Framed scb data size (rtLinkSend service malloc late scb data size) ↔ SendsWhole malloc data size := by
  by_cases nothing : size = 0 ∨ data = none
  · have early : rtLinkSend service malloc late scb data size = ⟨0, .err, scb⟩ := by
      rw [rtLinkSend, if_pos (by rwa [Option.isNone_iff_eq_none])]
    refine iff_of_true (.inl ?_) ?_
    · rw [early]
      exact ⟨LinkErr.noConfusion, rfl, rfl⟩
    · rcases nothing with zero | null
      · exact .inl zero
      · exact .inr (.inl null)
  obtain ⟨positive, given⟩ := not_or.mp nothing
  obtain ⟨buffer, rfl⟩ := Option.ne_none_iff_exists'.mp given
  have cut : (UInt8.ofNat (frameCount size)).toNat = frameCount size % 256 := UInt8.toNat_ofNat'
  by_cases low : frameCount size % 256 ≤ framesMax
  · obtain ⟨n, le, allocated, failed, list, refused⟩ := rtLinkSend_loop service malloc late scb buffer positive low
    have appends := appends_framesOf buffer (Nat.pos_of_ne_zero positive) low le list
    have none_ : n = 0 ↔ malloc 0 = false := by
      constructor
      · rintro rfl
        exact failed (Nat.lt_of_lt_of_le Nat.zero_lt_one (Nat.le_max_left _ _))
      · intro fails
        by_contra some_
        rw [allocated 0 (Nat.pos_of_ne_zero some_)] at fails
        cases fails
    have whole (few : frameCount size ≤ framesMax) : n = frameCount size ↔ ∀ i < frameCount size, malloc i = true := by
      have value : framesMax = 3 := rfl
      have first := frameCount_pos (Nat.pos_of_ne_zero positive)
      have all : turns (UInt8.ofNat (frameCount size)) = frameCount size := by
        rw [turns, cut]
        omega
      rw [all] at le failed
      constructor
      · rintro rfl
        exact allocated
      · intro each
        by_contra other
        have less : n < frameCount size := by omega
        rw [each n less] at failed
        cases failed less
    have refused_ : Refused scb (rtLinkSend service malloc late scb (some buffer) size) ↔ n = 0 :=
      ⟨fun refused' => by
        by_contra some_
        exact refused_framesOf list (Nat.pos_of_ne_zero some_) refused', refused⟩
    have one : (∃ data frames, some buffer = some data ∧
        Appends scb data size (rtLinkSend service malloc late scb (some buffer) size) frames) ↔
          ∃ frames, Appends scb buffer size (rtLinkSend service malloc late scb (some buffer) size) frames :=
      ⟨fun ⟨_, frames, same, appends⟩ => ⟨frames, Option.some.inj same ▸ appends⟩, fun ⟨frames, appends⟩ =>
        ⟨buffer, frames, rfl, appends⟩⟩
    have not_many : ¬framesMax < frameCount size % 256 := Nat.not_lt.mpr low
    rw [Framed, one, refused_, appends, none_, SendsWhole]
    simp only [positive, reduceCtorEq, not_many, false_or]
    exact or_congr Iff.rfl (and_congr_right whole)
  · have many : rtLinkSend service malloc late scb (some buffer) size = ⟨0, .enomem, scb⟩ := by
      rw [rtLinkSend_eq positive, if_pos (by rw [cut]; exact Nat.not_le.mp low)]
    refine iff_of_true (.inl ?_) (.inr (.inr (.inl (Nat.not_le.mp low))))
    rw [many]
    exact ⟨LinkErr.noConfusion, rfl, rfl⟩

end

theorem link_send_framed (service : Service) (malloc : Nat → Bool) (late : Bool) (scb : Scb) (data : Option (Nat → UInt8))
    (size : Nat) : Framed scb data size (rtLinkSend service malloc late scb data size) ↔ SendsWhole malloc data size :=
  rtLinkSend_framed data

def dataService : Service := ⟨false, 0, 1⟩

/-- Of two frames the second is not allocated: the first one stays in the list. -/
theorem link_send_torn : ¬Framed ⟨0, []⟩ (some fun _ => 0) 2000
    (rtLinkSend dataService (fun i => i = 0) false ⟨0, []⟩ (some fun _ => 0) 2000) := by
  rw [rtLinkSend_framed]
  rintro (zero | null | many | first | ⟨few, all⟩)
  · exact absurd zero (by decide)
  · cases null
  · exact absurd many (by decide)
  · cases first
  · exact absurd (all 1 (by decide)) (by decide)

end RtThread.Link
