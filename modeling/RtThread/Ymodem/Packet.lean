import Mathlib.Algebra.Group.Nat.Defs
import RtThread.Lib.Crc

/-! The packets of `ymodem.c`: a code, the number and its complement, 128 or 1024 bytes of payload and their CRC. Then
`CRC16` with its table, and the bursts that the CRC of a packet tells apart. -/

set_option autoImplicit false
namespace RtThread.Ymodem
open Lib

/-! ## `enum rym_code` -/

def codeNone : UInt8 := 0x00
def codeSoh : UInt8 := 0x01
def codeStx : UInt8 := 0x02
def codeEot : UInt8 := 0x04
def codeAck : UInt8 := 0x06
def codeNak : UInt8 := 0x15
def codeCan : UInt8 := 0x18
def codeC : UInt8 := 0x43

def errTmo : Int := 0x70
def errCode : Int := 0x71
def errSeq : Int := 0x72
def errCrc : Int := 0x73
def errDsz : Int := 0x74
def errCan : Int := 0x75
def errAck : Int := 0x76

/-! ## `CRC16` -/

def crcBit (crc : UInt16) : UInt16 := if crc &&& 0x8000 ≠ 0 then crc <<< 1 ^^^ 0x1021 else crc <<< 1

def crcByte (crc : UInt16) (q : UInt8) : UInt16 := Nat.repeat crcBit 8 (crc ^^^ q.toUInt16 <<< 8)

def crc16 (bytes : List UInt8) : UInt16 := bytes.foldl crcByte 0

def crcOf (high low : UInt8) : UInt16 := high.toUInt16 <<< 8 ||| low.toUInt16

theorem crcOf_bytes (crc : UInt16) : crcOf (crc >>> 8).toUInt8 crc.toUInt8 = crc := by
  have small := crc.toNat_lt
  have high : crc.toNat >>> 8 % 256 = crc.toNat / 256 := by
    rw [Nat.shiftRight_eq_div_pow]
    omega
  have fits : (crc.toNat / 256) <<< 8 % 65536 = (crc.toNat / 256) <<< 8 := by
    rw [Nat.shiftLeft_eq]
    omega
  apply UInt16.toNat.inj
  simp only [crcOf, UInt16.toNat_or, UInt16.toNat_shiftLeft, UInt8.toNat_toUInt16, UInt16.toNat_toUInt8,
    UInt16.toNat_shiftRight, UInt16.reduceToNat, Nat.reduceMod, Nat.reducePow, high]
  rw [fits, ← Nat.shiftLeft_add_eq_or_of_lt (by omega), Nat.shiftLeft_eq]
  omega

/-! ## The buffer -/

def slice (buf : Nat → UInt8) (start n : Nat) : List UInt8 := (List.range n).map fun k => buf (start + k)

/-- A packet as it stands in `ctx->buf` behind the code. -/
structure Packet where
  number : UInt8
  inverse : UInt8
  payload : List UInt8
  crc : UInt16
  deriving DecidableEq

/-- The packet in the buffer with `n` bytes of payload. -/
def packetIn (buf : Nat → UInt8) (n : Nat) : Packet :=
  ⟨buf 1, buf 2, slice buf 3 n, crcOf (buf (n + 3)) (buf (n + 4))⟩

def Packet.Intact (p : Packet) : Prop := p.number.toNat + p.inverse.toNat = 0xFF ∧ p.crc = crc16 p.payload

instance (p : Packet) : Decidable p.Intact := inferInstanceAs (Decidable (_ ∧ _))

/-- `_rym_send_packet`: what goes over the device behind the code. -/
def packetBytes (index : UInt8) (payload : List UInt8) : List UInt8 :=
  index :: ~~~index :: payload ++ [(crc16 payload >>> 8).toUInt8, (crc16 payload).toUInt8]

def sentPacket (index : UInt8) (payload : List UInt8) : Packet := ⟨index, ~~~index, payload, crc16 payload⟩

theorem sent_intact (index : UInt8) (payload : List UInt8) : (sentPacket index payload).Intact := by
  refine ⟨?_, rfl⟩
  have small := index.toNat_lt
  show index.toNat + (~~~index).toNat = 0xFF
  rw [UInt8.toNat_not, UInt8.size]
  omega

def place (buf : Nat → UInt8) (start : Nat) (bytes : List UInt8) : Nat → UInt8 :=
  fun k => if k < start then buf k else (bytes[k - start]?).getD (buf k)

theorem place_nil (buf : Nat → UInt8) (start : Nat) : place buf start [] = buf := by
  funext k
  simp [place]

theorem place_snoc (buf : Nat → UInt8) (start : Nat) (bytes : List UInt8) (b : UInt8) :
    Function.update (place buf start bytes) (start + bytes.length) b = place buf start (bytes ++ [b]) := by
  funext k
  rw [Function.update_apply]
  simp only [place, List.getElem?_append]
  split
  next same =>
    subst same
    simp [Nat.not_lt_of_ge (Nat.le_add_right start bytes.length)]
  next other =>
    split
    next => rfl
    next behind =>
      split
      next => rfl
      next out =>
        have beyond : bytes.length < k - start := by omega
        rw [List.getElem?_eq_none (by omega), List.getElem?_eq_none (by rw [List.length_singleton]; omega)]

theorem place_get {buf : Nat → UInt8} {start k : Nat} {bytes : List UInt8} {b : UInt8} (found : bytes[k]? = some b) :
    place buf start bytes (start + k) = b := by
  simp [place, found, Nat.not_lt_of_ge (Nat.le_add_right start k)]

theorem slice_place {buf : Nat → UInt8} {start k n : Nat} {bytes part : List UInt8} (long : part.length = n)
    (found : ∀ i < n, bytes[k + i]? = part[i]?) : slice (place buf start bytes) (start + k) n = part := by
  refine List.ext_getElem? fun i => ?_
  by_cases inside : i < n
  · have here : part[i]? = some part[i] := List.getElem?_eq_getElem (long ▸ inside)
    rw [slice, List.getElem?_map, List.getElem?_range inside, Option.map_some, here, Nat.add_assoc,
      place_get ((found i inside).trans here)]
  · rw [List.getElem?_eq_none (by simpa [slice] using inside), List.getElem?_eq_none (by omega)]

theorem packetIn_packetBytes (buf : Nat → UInt8) (index : UInt8) {payload : List UInt8} {n : Nat}
    (long : payload.length = n) :
    packetIn (place buf 1 (packetBytes index payload)) n = sentPacket index payload := by
  have number : place buf 1 (packetBytes index payload) 1 = index := place_get (k := 0) rfl
  have inverse : place buf 1 (packetBytes index payload) 2 = ~~~index := place_get (k := 1) rfl
  have body : slice (place buf 1 (packetBytes index payload)) 3 n = payload := by
    refine slice_place (k := 2) long fun i inside => ?_
    rw [packetBytes, Nat.add_comm 2 i]
    simp [List.getElem?_append_left (long ▸ inside : i < payload.length)]
  have high : place buf 1 (packetBytes index payload) (n + 3) = (crc16 payload >>> 8).toUInt8 := by
    rw [Nat.add_comm n 3, show 3 + n = 1 + (n + 2) by omega]
    exact place_get (by simp [packetBytes, long])
  have low : place buf 1 (packetBytes index payload) (n + 4) = (crc16 payload).toUInt8 := by
    rw [show n + 4 = 1 + (n + 3) by omega]
    exact place_get (by simp [packetBytes, long])
  rw [packetIn, number, inverse, body, high, low, crcOf_bytes, sentPacket]

theorem packetBytes_length (index : UInt8) (payload : List UInt8) :
    (packetBytes index payload).length = payload.length + 4 := by
  simp [packetBytes]

/-! ## CRC -/

def ccittTable : List UInt16 := [
    0x0000, 0x1021, 0x2042, 0x3063, 0x4084, 0x50A5, 0x60C6, 0x70E7, 0x8108, 0x9129, 0xA14A, 0xB16B,
    0xC18C, 0xD1AD, 0xE1CE, 0xF1EF, 0x1231, 0x0210, 0x3273, 0x2252, 0x52B5, 0x4294, 0x72F7, 0x62D6,
    0x9339, 0x8318, 0xB37B, 0xA35A, 0xD3BD, 0xC39C, 0xF3FF, 0xE3DE, 0x2462, 0x3443, 0x0420, 0x1401,
    0x64E6, 0x74C7, 0x44A4, 0x5485, 0xA56A, 0xB54B, 0x8528, 0x9509, 0xE5EE, 0xF5CF, 0xC5AC, 0xD58D,
    0x3653, 0x2672, 0x1611, 0x0630, 0x76D7, 0x66F6, 0x5695, 0x46B4, 0xB75B, 0xA77A, 0x9719, 0x8738,
    0xF7DF, 0xE7FE, 0xD79D, 0xC7BC, 0x48C4, 0x58E5, 0x6886, 0x78A7, 0x0840, 0x1861, 0x2802, 0x3823,
    0xC9CC, 0xD9ED, 0xE98E, 0xF9AF, 0x8948, 0x9969, 0xA90A, 0xB92B, 0x5AF5, 0x4AD4, 0x7AB7, 0x6A96,
    0x1A71, 0x0A50, 0x3A33, 0x2A12, 0xDBFD, 0xCBDC, 0xFBBF, 0xEB9E, 0x9B79, 0x8B58, 0xBB3B, 0xAB1A,
    0x6CA6, 0x7C87, 0x4CE4, 0x5CC5, 0x2C22, 0x3C03, 0x0C60, 0x1C41, 0xEDAE, 0xFD8F, 0xCDEC, 0xDDCD,
    0xAD2A, 0xBD0B, 0x8D68, 0x9D49, 0x7E97, 0x6EB6, 0x5ED5, 0x4EF4, 0x3E13, 0x2E32, 0x1E51, 0x0E70,
    0xFF9F, 0xEFBE, 0xDFDD, 0xCFFC, 0xBF1B, 0xAF3A, 0x9F59, 0x8F78, 0x9188, 0x81A9, 0xB1CA, 0xA1EB,
    0xD10C, 0xC12D, 0xF14E, 0xE16F, 0x1080, 0x00A1, 0x30C2, 0x20E3, 0x5004, 0x4025, 0x7046, 0x6067,
    0x83B9, 0x9398, 0xA3FB, 0xB3DA, 0xC33D, 0xD31C, 0xE37F, 0xF35E, 0x02B1, 0x1290, 0x22F3, 0x32D2,
    0x4235, 0x5214, 0x6277, 0x7256, 0xB5EA, 0xA5CB, 0x95A8, 0x8589, 0xF56E, 0xE54F, 0xD52C, 0xC50D,
    0x34E2, 0x24C3, 0x14A0, 0x0481, 0x7466, 0x6447, 0x5424, 0x4405, 0xA7DB, 0xB7FA, 0x8799, 0x97B8,
    0xE75F, 0xF77E, 0xC71D, 0xD73C, 0x26D3, 0x36F2, 0x0691, 0x16B0, 0x6657, 0x7676, 0x4615, 0x5634,
    0xD94C, 0xC96D, 0xF90E, 0xE92F, 0x99C8, 0x89E9, 0xB98A, 0xA9AB, 0x5844, 0x4865, 0x7806, 0x6827,
    0x18C0, 0x08E1, 0x3882, 0x28A3, 0xCB7D, 0xDB5C, 0xEB3F, 0xFB1E, 0x8BF9, 0x9BD8, 0xABBB, 0xBB9A,
    0x4A75, 0x5A54, 0x6A37, 0x7A16, 0x0AF1, 0x1AD0, 0x2AB3, 0x3A92, 0xFD2E, 0xED0F, 0xDD6C, 0xCD4D,
    0xBDAA, 0xAD8B, 0x9DE8, 0x8DC9, 0x7C26, 0x6C07, 0x5C64, 0x4C45, 0x3CA2, 0x2C83, 0x1CE0, 0x0CC1,
    0xEF1F, 0xFF3E, 0xCF5D, 0xDF7C, 0xAF9B, 0xBFBA, 0x8FD9, 0x9FF8, 0x6E17, 0x7E36, 0x4E55, 0x5E74,
    0x2E93, 0x3EB2, 0x0ED1, 0x1EF0]

/-- One turn of `CRC16` with YMODEM_USING_CRC_TABLE. -/
def crcTableByte (crc : UInt16) (q : UInt8) : UInt16 :=
  crc <<< 8 ^^^ ccittTable.getD ((crc >>> 8 ^^^ q.toUInt16) &&& 0xff).toNat 0

/-- `CRC16` with YMODEM_USING_CRC_TABLE -/
def crc16Table (bytes : List UInt8) : UInt16 := bytes.foldl crcTableByte 0

def bitsOf (q : UInt8) : List Bool := (List.range 8).map q.toBitVec.getMsbD

def bits (bytes : List UInt8) : List Bool := bytes.flatMap bitsOf

/-! ## Steps as shifts -/

theorem top_bit (crc : UInt16) : crc &&& 0x8000 ≠ 0 ↔ crc.toBitVec.msb = true := by
  have and_ : (crc &&& 0x8000).toBitVec = if crc.toBitVec.getLsbD 15 then BitVec.twoPow 16 15 else 0 :=
    BitVec.and_twoPow crc.toBitVec 15
  have msb : crc.toBitVec.msb = crc.toBitVec.getLsbD 15 := BitVec.msb_eq_getLsbD_last _
  rw [msb, ne_eq, ← UInt16.toBitVec_inj, and_]
  cases crc.toBitVec.getLsbD 15 <;> decide

theorem crcBit_toBitVec (crc : UInt16) : (crcBit crc).toBitVec = Crc.shift 0x1021 crc.toBitVec := by
  unfold crcBit Crc.shift
  simp only [top_bit]
  split <;> rfl

theorem repeat_toBitVec (n : Nat) (crc : UInt16) :
    (Nat.repeat crcBit n crc).toBitVec = (Crc.shift 0x1021)^[n] crc.toBitVec := by
  induction n with
  | zero => rfl
  | succ n ih => rw [Nat.repeat, crcBit_toBitVec, ih, Function.iterate_succ_apply']

theorem table_eq : ∀ i < 256, ccittTable.getD i 0 = Nat.repeat crcBit 8 (UInt16.ofNat i <<< 8) := by decide +kernel

theorem loaded_bitsOf : ∀ i < 256, (Crc.loaded (bitsOf (UInt8.ofNat i)) : BitVec 16) =
    ((UInt8.ofNat i).toUInt16 <<< 8).toBitVec := by decide +kernel

theorem crcByte_toBitVec (crc : UInt16) (q : UInt8) :
    (crcByte crc q).toBitVec = Crc.run 0x1021 crc.toBitVec (bitsOf q) := by
  have loaded : (Crc.loaded (bitsOf q) : BitVec 16) = (q.toUInt16 <<< 8).toBitVec := by
    have all := loaded_bitsOf q.toNat q.toNat_lt
    rwa [UInt8.ofNat_toNat] at all
  have short : (bitsOf q).length ≤ 16 := Nat.le_of_ble_eq_true rfl
  rw [Crc.run_loaded _ short, loaded]
  exact repeat_toBitVec 8 (crc ^^^ q.toUInt16 <<< 8)

theorem foldl_toBitVec (bytes : List UInt8) (crc : UInt16) :
    (bytes.foldl crcByte crc).toBitVec = Crc.run 0x1021 crc.toBitVec (bits bytes) := by
  induction bytes generalizing crc with
  | nil => rfl
  | cons q bytes ih =>
    rw [List.foldl_cons, ih, crcByte_toBitVec, ← Crc.run_append]
    rfl

/-! ## The table -/

theorem repeat_xor (n : Nat) (a b : UInt16) :
    Nat.repeat crcBit n (a ^^^ b) = Nat.repeat crcBit n a ^^^ Nat.repeat crcBit n b := by
  apply UInt16.toBitVec_inj.mp
  rw [UInt16.toBitVec_xor, repeat_toBitVec, repeat_toBitVec, repeat_toBitVec, UInt16.toBitVec_xor, Crc.iterate_xor]

theorem repeat_low : ∀ i < 256, Nat.repeat crcBit 8 (UInt16.ofNat i) = UInt16.ofNat i <<< 8 := by decide +kernel

theorem low_byte (i : Nat) (inside : i < 16) : (UInt16.toBitVec 255).getLsbD i = decide (i < 8) := by
  have value : UInt16.toBitVec 255 = BitVec.ofNat 16 (2 ^ 8 - 1) := rfl
  rw [value, BitVec.getLsbD_ofNat, Nat.testBit_two_pow_sub_one]
  simp [inside]

theorem index_xor (crc : UInt16) (q : UInt8) :
    crc ^^^ q.toUInt16 <<< 8 = ((crc >>> 8 ^^^ q.toUInt16) &&& 0xff) <<< 8 ^^^ (crc &&& 0xff) := by
  apply UInt16.toBitVec_inj.mp
  apply BitVec.eq_of_getLsbD_eq
  intro i inside
  have eight : (8 : UInt16).toBitVec % 16 = 8#16 := by decide
  simp only [UInt16.toBitVec_xor, UInt16.toBitVec_and, UInt16.toBitVec_shiftLeft, UInt16.toBitVec_shiftRight, eight,
    BitVec.getLsbD_xor, BitVec.getLsbD_and, BitVec.shiftLeft_eq', BitVec.ushiftRight_eq', BitVec.getLsbD_shiftLeft,
    BitVec.getLsbD_ushiftRight, BitVec.toNat_ofNat, Nat.reducePow, Nat.reduceMod, low_byte i inside]
  by_cases high : i < 8
  · simp [inside, high]
  · have rest : i - 8 < 8 := by omega
    have place : 8 + (i - 8) = i := by omega
    rw [low_byte _ (by omega)]
    simp [inside, high, rest, place]

theorem shift_low_byte (crc : UInt16) : (crc &&& 0xff) <<< 8 = crc <<< 8 := by
  apply UInt16.toBitVec_inj.mp
  apply BitVec.eq_of_getLsbD_eq
  intro i inside
  have eight : (8 : UInt16).toBitVec % 16 = 8#16 := by decide
  simp only [UInt16.toBitVec_and, UInt16.toBitVec_shiftLeft, eight, BitVec.getLsbD_and, BitVec.shiftLeft_eq',
    BitVec.getLsbD_shiftLeft, BitVec.toNat_ofNat, Nat.reducePow, Nat.reduceMod]
  by_cases high : i < 8
  · simp [high]
  · have rest : i - 8 < 8 := by omega
    rw [low_byte _ (by omega)]
    simp [rest]

theorem low_lt (value : UInt16) : (value &&& 0xff).toNat < 256 := by
  rw [UInt16.toNat_and]
  exact Nat.lt_succ_of_le Nat.and_le_right

theorem crcTableByte_eq (crc : UInt16) (q : UInt8) : crcTableByte crc q = crcByte crc q := by
  have entry := table_eq _ (low_lt (crc >>> 8 ^^^ q.toUInt16))
  have low := repeat_low _ (low_lt crc)
  rw [UInt16.ofNat_toNat] at entry low
  rw [crcByte, index_xor, repeat_xor, ← entry, low, shift_low_byte, UInt16.xor_comm]
  rfl

theorem crc16Table_eq (bytes : List UInt8) : crc16Table bytes = crc16 bytes := by
  have step : crcTableByte = crcByte := funext fun crc => funext (crcTableByte_eq crc)
  rw [crc16Table, step]
  rfl

theorem bits_length (bytes : List UInt8) : (bits bytes).length = bytes.length * 8 := by
  induction bytes with
  | nil => rfl
  | cons q bytes ih =>
    have byte : (bitsOf q).length = 8 := rfl
    rw [bits, List.flatMap_cons, List.length_append, byte, ← bits, ih, List.length_cons]
    omega

theorem crc16_burst {bytes bytes' : List UInt8} (length : bytes.length = bytes'.length)
    (burst : Crc.Burst 16 (bits bytes) (bits bytes')) : crc16 bytes ≠ crc16 bytes' := by
  intro same
  have odd : (0x1021 : BitVec 16).getLsbD 0 = true := by decide
  have lengths : (bits bytes).length = (bits bytes').length := by rw [bits_length, bits_length, length]
  have differ := Crc.run_burst odd 0 lengths burst
  exact differ ((foldl_toBitVec bytes 0).symm.trans ((congrArg UInt16.toBitVec same).trans (foldl_toBitVec bytes' 0)))

/-- With the table and bit by bit the CRC is the same, and it tells apart bytes that differ in a burst of 16 bits. -/
theorem crc16_table_and_burst : (∀ bytes, crc16Table bytes = crc16 bytes) ∧
    ∀ bytes bytes' : List UInt8, bytes.length = bytes'.length → Crc.Burst 16 (bits bytes) (bits bytes') →
      crc16 bytes ≠ crc16 bytes' :=
  ⟨crc16Table_eq, fun _ _ length burst => crc16_burst length burst⟩

theorem crc16_table_and_burst_two : crc16Table [0x12, 0x34] = crc16 [0x12, 0x34] ∧ crc16 [0x12, 0x34] ≠ crc16 [0x11, 0xb4] := by
  refine ⟨crc16_table_and_burst.1 _, crc16_table_and_burst.2 _ _ rfl ⟨by decide, 0, fun i other => ⟨Nat.zero_le i, ?_⟩⟩⟩
  by_contra far
  have length : (bits [0x12, 0x34]).length = 16 := rfl
  have length' : (bits [0x11, 0xb4]).length = 16 := rfl
  have beyond : (bits [0x12, 0x34])[i]? = none := List.getElem?_eq_none (by omega)
  have beyond' : (bits [0x11, 0xb4])[i]? = none := List.getElem?_eq_none (by omega)
  exact other (beyond.trans beyond'.symm)

end RtThread.Ymodem
