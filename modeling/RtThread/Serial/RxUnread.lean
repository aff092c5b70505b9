import RtThread.Serial.RxFifo
import RtThread.Lib.Window
import Mathlib.Data.List.Induction
import Mathlib.Data.Nat.Basic
import Mathlib.Order.Basic

/-! The receive FIFO is a queue that gives up its oldest bytes, as long as no sum of an index and a length leaves its
16 bits. -/

set_option autoImplicit false
namespace RtThread.Serial
open Lib

/-- The FIFO holds `unread`. -/
structure RxFifo.Keeps (dma : Bool) (bufsz : UInt16) (f : RxFifo) (unread : List UInt8) : Prop where
  put : f.putIndex.toNat < bufsz.toNat
  get : f.getIndex.toNat < bufsz.toNat
  channel : dma = true → f.dmaIndex = f.putIndex.toNat
  content : window f.buffer bufsz.toNat f.getIndex.toNat unread.length = unread
  meets : (f.getIndex.toNat + unread.length) % bufsz.toNat = f.putIndex.toNat
  room : unread.length ≤ rxCapacity dma bufsz
  full : f.isFull = true → unread.length = rxCapacity dma bufsz
  told : f.getIndex.toNat = f.putIndex.toNat → unread ≠ [] → f.isFull = true

namespace RxFifo
variable {dma : Bool} {bufsz : UInt16} {f f' : RxFifo} {unread data : List UInt8}

theorem rxCapacity_le (dma : Bool) (bufsz : UInt16) : rxCapacity dma bufsz ≤ bufsz.toNat := by
  unfold rxCapacity
  split <;> omega

theorem rxCapacity_pos (dma : Bool) {bufsz : UInt16} (positive : 0 < bufsz.toNat) : 0 < rxCapacity dma bufsz := by
  unfold rxCapacity
  split
  case isTrue => exact positive
  case isFalse other =>
    have apart : bufsz.toNat ≠ 1 := fun same => other (.inr (UInt16.toNat_inj.mp same))
    omega

theorem ring_meet {size start stop count : Nat} (low : start < size) (high : stop < size) (room : count ≤ size) :
    (start + count) % size = stop ↔ start + count = stop ∨ start + count = stop + size := by
  rcases Nat.lt_or_ge (start + count) size with flat | round
  · rw [Nat.mod_eq_of_lt flat]
    omega
  · rw [Nat.mod_eq_sub_mod round, Nat.mod_eq_of_lt (by omega)]
    omega

theorem Keeps.meet (keeps : Keeps dma bufsz f unread) :
    f.getIndex.toNat + unread.length = f.putIndex.toNat ∨
      f.getIndex.toNat + unread.length = f.putIndex.toNat + bufsz.toNat :=
  (ring_meet keeps.get keeps.put (keeps.room.trans (rxCapacity_le dma bufsz))).mp keeps.meets

theorem Keeps.calcRecvedLen (keeps : Keeps dma bufsz f unread) : f.calcRecvedLen bufsz = unread.length := by
  have get := keeps.get
  have put := keeps.put
  have most := keeps.room.trans (rxCapacity_le dma bufsz)
  have positive : 0 < rxCapacity dma bufsz := rxCapacity_pos dma (by omega)
  have less : f.getIndex < f.putIndex ↔ f.getIndex.toNat < f.putIndex.toNat := UInt16.lt_iff_toNat_lt
  unfold RxFifo.calcRecvedLen
  split
  case isTrue same =>
    have level : f.getIndex.toNat = f.putIndex.toNat := congrArg UInt16.toNat same.symm
    cases full : f.isFull with
    | true =>
      have count := keeps.full full
      rcases keeps.meet with flat | round
      · omega
      · simp only [if_true]
        omega
    | false =>
      have none : unread = [] := by
        by_contra some
        simp [keeps.told level some] at full
      simp [none]
  case isFalse other =>
    have apart : f.getIndex.toNat ≠ f.putIndex.toNat := fun same => other (UInt16.toNat_inj.mp same.symm)
    rcases keeps.meet with flat | round
    · rw [if_pos (less.mpr (by omega))]
      omega
    · rw [if_neg (mt less.mp (by omega))]
      omega

/-! ## Reading -/

theorem Keeps.drop (keeps : Keeps dma bufsz f unread) {count : Nat} (fewer : count ≤ unread.length)
    (buffer : f'.buffer = f.buffer) (put : f'.putIndex = f.putIndex) (channel : f'.dmaIndex = f.dmaIndex)
    (get : f'.getIndex.toNat = (f.getIndex.toNat + count) % bufsz.toNat)
    (isFull : f'.isFull = (f.isFull && count = 0)) : Keeps dma bufsz f' (unread.drop count) := by
  have positive : 0 < bufsz.toNat := Nat.zero_lt_of_lt keeps.put
  have most := keeps.room.trans (rxCapacity_le dma bufsz)
  have further : f.getIndex.toNat + count + (unread.length - count) = f.getIndex.toNat + unread.length := by omega
  refine ⟨put ▸ keeps.put, get ▸ Nat.mod_lt _ positive, fun on => ?_, ?_, ?_, ?_, fun full => ?_, fun level some => ?_⟩
  · rw [channel, put]
    exact keeps.channel on
  · rw [buffer, get, List.length_drop, window_congr (Nat.mod_mod _ _), ← window_drop fewer, keeps.content]
  · rw [get, put, List.length_drop, Nat.mod_add_mod, further]
    exact keeps.meets
  · rw [List.length_drop]
    exact (Nat.sub_le _ _).trans keeps.room
  · simp only [isFull, Bool.and_eq_true, decide_eq_true_iff] at full
    rw [full.2, List.drop_zero]
    exact keeps.full full.1
  · rw [get, put] at level
    have left : 0 < unread.length - count := by
      rw [← List.length_drop]
      exact List.length_pos_iff.mpr some
    have whole : (f.getIndex.toNat + count + (unread.length - count)) % bufsz.toNat =
        (f.getIndex.toNat + count) % bufsz.toNat := by rw [further, keeps.meets, level]
    have round : unread.length - count = bufsz.toNat := by
      by_contra other
      have apart : (f.getIndex.toNat + count) % bufsz.toNat ≠
          (f.getIndex.toNat + count + (unread.length - count)) % bufsz.toNat := ring_apart (by omega) (by omega)
      exact apart whole.symm
    have zero : count = 0 := by omega
    subst zero
    rw [Nat.add_zero, Nat.mod_eq_of_lt keeps.get] at level
    simp only [isFull, keeps.told level (by simpa using some), decide_true, Bool.and_true]

theorem advance_toNat {index : UInt16} (inside : index.toNat < bufsz.toNat) :
    (advance bufsz index).toNat = (index.toNat + 1) % bufsz.toNat := by
  have small : bufsz.toNat < 65536 := bufsz.toNat_lt
  have next : (index + 1).toNat = index.toNat + 1 := by
    rw [UInt16.toNat_add]
    exact Nat.mod_eq_of_lt (Nat.lt_of_le_of_lt inside small)
  unfold advance
  split
  case isTrue beyond =>
    rw [UInt16.le_iff_toNat_le, next] at beyond
    have last : index.toNat + 1 = bufsz.toNat := by omega
    rw [last, Nat.mod_self]
    rfl
  case isFalse before =>
    rw [UInt16.le_iff_toNat_le, next] at before
    rw [next, Nat.mod_eq_of_lt (by omega)]

theorem Keeps.tcFlush (keeps : Keeps dma bufsz f unread) : Keeps dma bufsz f.tcFlush [] := by
  have none := rxCapacity_pos dma (Nat.zero_lt_of_lt keeps.put)
  have rest : (f.isFull && decide (unread.length = 0)) = false := by
    cases full : f.isFull with
    | false => rfl
    | true =>
      have := keeps.full full
      simp only [Bool.true_and, decide_eq_false_iff_not]
      omega
  have all : Keeps dma bufsz f.tcFlush (unread.drop unread.length) :=
    keeps.drop (Nat.le_refl _) rfl rfl rfl keeps.meets.symm rest.symm
  rwa [List.drop_length] at all

theorem copied_window {start count : Nat} (low : start < bufsz.toNat) (most : count ≤ bufsz.toNat) :
    (if start + count < bufsz.toNat then f.copied start count
      else f.copied start (bufsz.toNat - start) ++ f.copied 0 (count + start - bufsz.toNat)) =
      window f.buffer bufsz.toNat start count := by
  have flat : ∀ n, start + n ≤ bufsz.toNat → f.copied start n = window f.buffer bufsz.toNat start n := by
    intro n inside
    apply List.map_congr_left
    intro i listed
    rw [Nat.mod_eq_of_lt (Nat.lt_of_lt_of_le (Nat.add_lt_add_left (List.mem_range.mp listed) start) inside)]
  split
  case isTrue before => exact flat count before.le
  case isFalse beyond =>
    have parts : count = (bufsz.toNat - start) + (count + start - bufsz.toNat) := by omega
    have turn : start + (bufsz.toNat - start) = bufsz.toNat := by omega
    have wrapped : f.copied 0 (count + start - bufsz.toNat) =
        window f.buffer bufsz.toNat bufsz.toNat (count + start - bufsz.toNat) := by
      apply List.map_congr_left
      intro i listed
      have short := List.mem_range.mp listed
      rw [Nat.add_mod_left, Nat.mod_eq_of_lt (by omega), Nat.zero_add]
    rw [flat _ turn.le, wrapped]
    conv_rhs => rw [parts, window_add, turn]

theorem Keeps.dmaRx (keeps : Keeps dma bufsz f unread) {length : UInt32} (short : length.toNat < 2147483648)
    (fits : f.getIndex.toNat + min length.toNat (f.calcRecvedLen bufsz) < 65536) :
    ∃ f', f.dmaRx bufsz length = some (unread.take length.toNat, f') ∧
      Keeps dma bufsz f' (unread.drop (unread.take length.toNat).length) := by
  have small : bufsz.toNat < 65536 := bufsz.toNat_lt
  have most := keeps.room.trans (rxCapacity_le dma bufsz)
  rw [keeps.calcRecvedLen] at fits
  generalize count : min length.toNat unread.length = n at fits
  have fewer : n ≤ unread.length := count ▸ Nat.min_le_right _ _
  have taken : window f.buffer bufsz.toNat f.getIndex.toNat n = unread.take length.toNat := by
    rw [← window_take fewer, keeps.content, ← count, ← List.take_take, List.take_length]
  have word : (UInt16.ofNat n).toNat = n := UInt16.toNat_ofNat_of_lt' (Nat.lt_of_le_of_lt (fewer.trans most) small)
  have sum : (f.getIndex + UInt16.ofNat n).toNat = f.getIndex.toNat + n := by
    rw [UInt16.toNat_add, word, Nat.mod_eq_of_lt (by omega)]
  refine ⟨f.dmaRecvUpdateGetIndex bufsz (UInt16.ofNat n), ?_, ?_⟩
  · rw [RxFifo.dmaRx, if_neg (by omega)]
    simp only [keeps.calcRecvedLen, count]
    rw [copied_window keeps.get (fewer.trans most), taken]
  · rw [List.length_take, count]
    refine keeps.drop fewer rfl rfl rfl ?_ ?_
    · simp only [dmaRecvUpdateGetIndex]
      split
      case isTrue beyond => rw [UInt16.toNat_mod, sum]
      case isFalse before =>
        rw [UInt16.le_iff_toNat_le, sum] at before
        rw [sum, Nat.mod_eq_of_lt (by omega)]
    · simp only [dmaRecvUpdateGetIndex, ← UInt16.toNat_inj, word]
      rfl

/-! ## Receiving -/

/-- More bytes are written behind the unread ones, and the oldest are given up as far as there is no room. -/
theorem Keeps.received (keeps : Keeps dma bufsz f unread) {lost : Nat} (fewer : data.length ≤ rxCapacity dma bufsz)
    (beyond : lost = unread.length + data.length - rxCapacity dma bufsz)
    (written : Written f.buffer f'.buffer bufsz.toNat f.putIndex.toNat data)
    (put : f'.putIndex.toNat = (f.putIndex.toNat + data.length) % bufsz.toNat)
    (channel : dma = true → f'.dmaIndex = f'.putIndex.toNat)
    (get : f'.getIndex.toNat = (f.getIndex.toNat + lost) % bufsz.toNat)
    (full : f'.isFull = true → rxCapacity dma bufsz ≤ unread.length + data.length)
    (told : f'.getIndex.toNat = f'.putIndex.toNat → 0 < unread.length + data.length → f'.isFull = true) :
    Keeps dma bufsz f' (Serial.received (rxCapacity dma bufsz) unread data) := by
  have positive : 0 < bufsz.toNat := Nat.zero_lt_of_lt keeps.put
  have cap := rxCapacity_le dma bufsz
  have capPos := rxCapacity_pos dma positive
  have room := keeps.room
  have count : (Serial.received (rxCapacity dma bufsz) unread data).length = unread.length - lost + data.length := by
    simp only [Serial.received, List.length_drop, List.length_append]
    omega
  have place : f.putIndex.toNat % bufsz.toNat = f.putIndex.toNat := Nat.mod_eq_of_lt keeps.put
  have kept : Serial.received (rxCapacity dma bufsz) unread data = (unread ++ data).drop lost := by
    rw [Serial.received, List.length_append, ← beyond]
  refine ⟨put ▸ Nat.mod_lt _ positive, get ▸ Nat.mod_lt _ positive, channel, ?_, ?_, ?_, fun on => ?_, fun level some => ?_⟩
  · have moved : window f'.buffer bufsz.toNat (f.getIndex.toNat + lost) (unread.length - lost + data.length) =
        (window f.buffer bufsz.toNat f.getIndex.toNat unread.length ++ data).drop lost :=
      written.forced (by rw [keeps.meets, place]) (by omega) (by omega)
    rw [count, get, window_congr (Nat.mod_mod _ _), moved, keeps.content, kept]
  · have sum : f.getIndex.toNat + lost + (unread.length - lost + data.length) =
        f.getIndex.toNat + unread.length + data.length := by omega
    rw [count, get, put, Nat.mod_add_mod, sum, ← keeps.meets, Nat.mod_add_mod]
  · omega
  · have := full on
    omega
  · have any := List.length_pos_iff.mpr some
    exact told level (by omega)

/-- One character goes behind the unread ones; with all places but one in use, the oldest is given up for it. -/
theorem Keeps.rxInd (keeps : Keeps false bufsz f unread) (ch : UInt8) :
    Keeps false bufsz (f.rxInd bufsz ch) (Serial.received (rxCapacity false bufsz) unread [ch]) := by
  have put := keeps.put
  have get := keeps.get
  have room := keeps.room
  have most := room.trans (rxCapacity_le false bufsz)
  have positive := Nat.zero_lt_of_lt put
  have capPos := rxCapacity_pos false positive
  have next := advance_toNat put
  have written : Written f.buffer (Function.update f.buffer f.putIndex.toNat ch) bufsz.toNat f.putIndex.toNat [ch] := by
    have one := (Written.nil f.buffer bufsz.toNat f.putIndex.toNat).snoc positive ch
    simpa [Nat.mod_eq_of_lt put] using one
  have level : advance bufsz f.putIndex = f.getIndex ↔
      (f.getIndex.toNat + (unread.length + 1)) % bufsz.toNat = f.getIndex.toNat := by
    rw [← UInt16.toNat_inj, next, ← keeps.meets, Nat.mod_add_mod, Nat.add_assoc]
  have shape : rxCapacity false bufsz = bufsz.toNat ∧ bufsz.toNat = 1 ∨
      rxCapacity false bufsz + 1 = bufsz.toNat ∧ bufsz.toNat ≠ 1 := by
    unfold rxCapacity
    simp only [Bool.false_eq_true, false_or]
    split
    case isTrue one => exact .inl ⟨rfl, congrArg UInt16.toNat one⟩
    case isFalse other => exact .inr ⟨by omega, fun same => other (UInt16.toNat_inj.mp same)⟩
  -- the indices meet where the last free place is taken, and always if there is but one place
  have meet : advance bufsz f.putIndex = f.getIndex ↔ rxCapacity false bufsz ≤ unread.length ∨ bufsz.toNat = 1 := by
    rw [level]
    rcases shape with ⟨cap, one⟩ | ⟨cap, more⟩
    · rw [one, Nat.mod_one]
      omega
    · rw [ring_meet get get (by omega)]
      omega
  simp only [RxFifo.rxInd]
  split
  case isTrue same =>
    have lost := meet.mp same
    have round : bufsz.toNat = 1 → ∀ n, n % bufsz.toNat = 0 := fun one n => by rw [one, Nat.mod_one]
    refine keeps.received capPos rfl written (by simpa using next) nofun ?_ (fun _ => ?_) (fun _ _ => rfl)
    · simp only [List.length_singleton, advance_toNat get]
      rcases lost with filled | one
      · have gone : unread.length + 1 - rxCapacity false bufsz = 1 := by omega
        rw [gone]
      · rw [round one, round one]
    · simp only [List.length_singleton]
      omega
  case isFalse other =>
    have short := mt meet.mpr other
    refine keeps.received capPos rfl written (by simpa using next) nofun ?_ (fun on => ?_) (fun same => ?_)
    · have none : unread.length + [ch].length - rxCapacity false bufsz = 0 := by
        simp only [List.length_singleton]
        omega
      rw [none, Nat.add_zero, Nat.mod_eq_of_lt get]
    · have := keeps.full on
      omega
    · exact absurd (UInt16.toNat_inj.mp same).symm other

theorem dmaBytes_spec (f : RxFifo) (data : List UInt8) (low : f.dmaIndex < bufsz.toNat)
    (most : data.length ≤ bufsz.toNat) :
    Written f.buffer (data.foldl (dmaByte bufsz) f).buffer bufsz.toNat f.dmaIndex data ∧
      (data.foldl (dmaByte bufsz) f).dmaIndex = (f.dmaIndex + data.length) % bufsz.toNat ∧
      (data.foldl (dmaByte bufsz) f).putIndex = f.putIndex ∧ (data.foldl (dmaByte bufsz) f).getIndex = f.getIndex ∧
      (data.foldl (dmaByte bufsz) f).isFull = f.isFull := by
  induction data using List.reverseRecOn with
  | nil => exact ⟨.nil _ _ _, (Nat.mod_eq_of_lt low).symm, rfl, rfl, rfl⟩
  | append_singleton data ch ih =>
    rw [List.length_append, List.length_singleton] at most
    obtain ⟨written, index, put, get, full⟩ := ih (by omega)
    rw [List.foldl_append]
    refine ⟨?_, ?_, put, get, full⟩
    · have one := written.snoc (by omega) ch
      rw [← index] at one
      exact one
    · simp only [List.foldl_cons, List.foldl_nil, dmaByte, index, Nat.mod_add_mod, List.length_append,
        List.length_singleton, Nat.add_assoc]

theorem updatePut_spec (f : RxFifo) {len : UInt16} {count : Nat} (put : f.putIndex.toNat < bufsz.toNat)
    (get : f.getIndex.toNat < bufsz.toNat) (most : len.toNat ≤ bufsz.toNat)
    (fits : f.putIndex.toNat + len.toNat < 65536)
    (meet : f.getIndex.toNat + count = f.putIndex.toNat ∨ f.getIndex.toNat + count = f.putIndex.toNat + bufsz.toNat)
    (free : f.isFull = false → count < bufsz.toNat) :
    (f.dmaRecvUpdatePutIndex bufsz len).putIndex.toNat = (f.putIndex.toNat + len.toNat) % bufsz.toNat ∧
      ((f.dmaRecvUpdatePutIndex bufsz len).isFull = true ↔ f.isFull = true ∨ bufsz.toNat ≤ count + len.toNat) ∧
      (f.dmaRecvUpdatePutIndex bufsz len).getIndex =
        (if (f.dmaRecvUpdatePutIndex bufsz len).isFull then (f.dmaRecvUpdatePutIndex bufsz len).putIndex
          else f.getIndex) := by
  have sum : (f.putIndex + len).toNat = f.putIndex.toNat + len.toNat := by
    rw [UInt16.toNat_add, Nat.mod_eq_of_lt fits]
  have beyond : bufsz ≤ f.putIndex + len ↔ bufsz.toNat ≤ f.putIndex.toNat + len.toNat := by
    rw [UInt16.le_iff_toNat_le, sum]
  have flat (less : f.putIndex.toNat + len.toNat < bufsz.toNat) :
      (f.putIndex.toNat + len.toNat) % bufsz.toNat = f.putIndex.toNat + len.toNat := Nat.mod_eq_of_lt less
  have round (more : bufsz.toNat ≤ f.putIndex.toNat + len.toNat) :
      (f.putIndex.toNat + len.toNat) % bufsz.toNat = f.putIndex.toNat + len.toNat - bufsz.toNat := by
    rw [Nat.mod_eq_sub_mod more, Nat.mod_eq_of_lt (by omega)]
  have ahead : f.getIndex ≤ f.putIndex + len ↔ f.getIndex.toNat ≤ f.putIndex.toNat + len.toNat := by
    rw [UInt16.le_iff_toNat_le, sum]
  have wrapped : f.getIndex ≤ (f.putIndex + len) % bufsz ↔
      f.getIndex.toNat ≤ (f.putIndex.toNat + len.toNat) % bufsz.toNat := by
    rw [UInt16.le_iff_toNat_le, UInt16.toNat_mod, sum]
  have behind : f.getIndex ≤ f.putIndex ↔ f.getIndex.toNat ≤ f.putIndex.toNat := UInt16.le_iff_toNat_le
  have moved : ∃ moved : RxFifo, f.dmaRecvUpdatePutIndex bufsz len =
        (if moved.isFull then { moved with getIndex := moved.putIndex } else moved) ∧
      moved.putIndex.toNat = (f.putIndex.toNat + len.toNat) % bufsz.toNat ∧ moved.getIndex = f.getIndex ∧
      (moved.isFull = true ↔ f.isFull = true ∨ bufsz.toNat ≤ count + len.toNat) := by
    refine ⟨_, rfl, ?_⟩
    by_cases order : f.getIndex.toNat ≤ f.putIndex.toNat
    · rw [if_pos (behind.mpr order)]
      by_cases more : bufsz.toNat ≤ f.putIndex.toNat + len.toNat
      · rw [if_pos (beyond.mpr more)]
        refine ⟨by rw [UInt16.toNat_mod, sum], rfl, ?_⟩
        simp only [Bool.or_eq_true, decide_eq_true_iff, wrapped, round more]
        cases full : f.isFull with
        | true => simp
        | false =>
          have := free full
          simp only [Bool.false_eq_true, false_or]
          omega
      · rw [if_neg (mt beyond.mp more)]
        refine ⟨by rw [sum, flat (by omega)], rfl, ?_⟩
        cases full : f.isFull with
        | true => simp
        | false =>
          have := free full
          simp only [Bool.false_eq_true, false_or, false_iff]
          omega
    · rw [if_neg (mt behind.mp order)]
      by_cases meets : f.getIndex.toNat ≤ f.putIndex.toNat + len.toNat
      · rw [if_pos (ahead.mpr meets)]
        refine ⟨?_, rfl, ?_⟩
        · by_cases more : bufsz.toNat ≤ f.putIndex.toNat + len.toNat
          · simp only [if_pos (beyond.mpr more), UInt16.toNat_mod, sum]
          · simp only [if_neg (mt beyond.mp more), sum]
            exact (flat (by omega)).symm
        · simp only [true_iff]
          right
          omega
      · rw [if_neg (mt ahead.mp meets)]
        refine ⟨by rw [sum, flat (by omega)], rfl, ?_⟩
        cases full : f.isFull with
        | true => simp
        | false =>
          simp only [Bool.false_eq_true, false_or, false_iff]
          omega
  obtain ⟨moved, same, place, still, full⟩ := moved
  rw [same]
  split
  case isTrue on => exact ⟨place, by simpa [on] using full, by simp⟩
  case isFalse off => exact ⟨place, full, by simp [still]⟩

theorem updatePut_kept (f : RxFifo) (len : UInt16) :
    (f.dmaRecvUpdatePutIndex bufsz len).buffer = f.buffer ∧
      (f.dmaRecvUpdatePutIndex bufsz len).dmaIndex = f.dmaIndex := by
  constructor <;> grind [dmaRecvUpdatePutIndex]

theorem Keeps.rxDmadone (keeps : Keeps true bufsz f unread) (most : data.length ≤ bufsz.toNat)
    (fits : f.putIndex.toNat + data.length < 65536) :
    Keeps true bufsz (f.rxDmadone bufsz data) (Serial.received (rxCapacity true bufsz) unread data) := by
  have cap : rxCapacity true bufsz = bufsz.toNat := by simp [rxCapacity]
  have low : f.dmaIndex < bufsz.toNat := keeps.channel rfl ▸ keeps.put
  obtain ⟨written, index, put, get, full⟩ := dmaBytes_spec f data low most
  have small : data.length < UInt16.size := Nat.lt_of_le_of_lt most bufsz.toNat_lt
  have word : (UInt16.ofNat data.length).toNat = data.length := UInt16.toNat_ofNat_of_lt' small
  have free : f.isFull = false → unread.length < bufsz.toNat := by
    intro off
    by_contra all
    have room := keeps.room
    have some : unread ≠ [] := List.length_pos_iff.mp (by have := keeps.put; omega)
    have level : f.getIndex.toNat = f.putIndex.toNat := by
      have := keeps.put
      have := keeps.get
      rcases keeps.meet with flat | round <;> omega
    simp [keeps.told level some] at off
  have kept := @updatePut_kept bufsz (data.foldl (dmaByte bufsz) f) (UInt16.ofNat data.length)
  obtain ⟨place, on, taken⟩ := @updatePut_spec bufsz (data.foldl (dmaByte bufsz) f) (UInt16.ofNat data.length)
    unread.length (put ▸ keeps.put) (get ▸ keeps.get) (by rwa [word]) (by rw [put, word]; exact fits)
    (by rw [put, get]; exact keeps.meet) (full ▸ free)
  rw [word, put] at place
  rw [word, full] at on
  have filled : f.isFull = true → bufsz.toNat ≤ unread.length + data.length := fun on => by
    have := keeps.full on
    omega
  have get_lt := keeps.get
  refine keeps.received (cap ▸ most) rfl ?_ place (fun _ => ?_) ?_ (fun now => ?_) (fun level any => ?_)
  · rw [← keeps.channel rfl]
    exact kept.1 ▸ written
  · exact (kept.2.trans index).trans ((keeps.channel rfl).symm ▸ place.symm)
  · rw [RxFifo.rxDmadone, taken]
    split
    case isTrue now =>
      have more : bufsz.toNat ≤ unread.length + data.length := (on.mp now).elim filled id
      have turn : f.getIndex.toNat + unread.length + data.length =
          f.getIndex.toNat + (unread.length + data.length - bufsz.toNat) + bufsz.toNat := by omega
      rw [place, cap, ← keeps.meets, Nat.mod_add_mod, turn, Nat.add_mod_right]
    case isFalse off =>
      have less : unread.length + data.length - rxCapacity true bufsz = 0 := by
        by_contra more
        exact off (on.mpr (.inr (by omega)))
      rw [get, less, Nat.add_zero, Nat.mod_eq_of_lt get_lt]
  · rw [cap]
    exact (on.mp now).elim filled id
  · by_contra off
    rw [RxFifo.rxDmadone] at level off
    rw [taken, if_neg off, get, place, ← keeps.meets, Nat.mod_add_mod, Nat.add_assoc] at level
    have less : unread.length + data.length < bufsz.toNat := by
      by_contra more
      exact off (on.mpr (.inr (by omega)))
    have again := (ring_meet keeps.get keeps.get less.le).mp level.symm
    omega

end RxFifo

/-! ## Runs -/

namespace RxPort
variable {T : Type} [DecidableEq T] {dma : Bool} {bufsz : UInt16}

/-- No sum of an index and a length leaves 16 bits, and no length that is read is negative as an `int`. -/
def fits (dma : Bool) (bufsz : UInt16) (s : RxPort T) : RxAction T → Bool
  | .rxDmadone data => s.fifo.putIndex.toNat + data.length < 65536
  | .read _ size =>
    !dma || (size.toNat < 2147483648 &&
      s.fifo.getIndex.toNat + min size.toNat (s.fifo.calcRecvedLen bufsz) < 65536)
  | _ => true

end RxPort
end RtThread.Serial
