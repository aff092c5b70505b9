import RtThread.Lib.Throughout
import RtThread.Lib.Window

/-! The receive buffer of `rtlink_hw.c`: a ring with two pointers, and the queue of bytes that it is meant to be. -/

set_option autoImplicit false
namespace RtThread.Link
open Lib

def maxFrameLength : Nat := 1024
def framesMax : Nat := 3
def headLength : Nat := 4
def extendLength : Nat := 4

def receiveBufferLength : Nat := maxFrameLength * framesMax + headLength + extendLength

/-- `struct rt_link_receive_buffer`, its pointers as places in `data`. -/
structure ReceiveBuffer where
  data : Nat → UInt8
  readPoint : Nat
  writePoint : Nat

def hwBufferInit : ReceiveBuffer := ⟨fun _ => 0, 0, 0⟩

/-- `rt_link_hw_buffer_write`: what it returns, and the buffer after it. -/
def hwBufferWrite (rx : ReceiveBuffer) (data : List UInt8) : Nat × ReceiveBuffer :=
  if rx.writePoint ≥ rx.readPoint then
    let w2end := receiveBufferLength - rx.writePoint
    let surplus := receiveBufferLength - (rx.writePoint - rx.readPoint)
    let count := if data.length > surplus then surplus else data.length
    if count ≥ w2end then
      let flat := setCells rx.data rx.writePoint (data.take w2end)
      (count, { rx with
        data := setCells flat 0 ((data.drop w2end).take (count - w2end))
        writePoint := count - w2end })
    else
      (count, { rx with
        data := setCells rx.data rx.writePoint (data.take count)
        writePoint := rx.writePoint + count })
  else
    let surplus := rx.readPoint - rx.writePoint
    let count := if data.length > surplus then surplus else data.length
    (count, { rx with
      data := setCells rx.data rx.writePoint (data.take count)
      writePoint := rx.writePoint + count })

/-- `rt_link_hw_buffer_point_shift`: where the pointer is after it. -/
def hwBufferPointShift (rx : ReceiveBuffer) (pointerAddress length : Nat) : Nat :=
  let pointer := pointerAddress + length
  if rx.writePoint ≥ rx.readPoint then
    if pointer ≥ rx.writePoint then rx.writePoint else pointer
  else if pointer ≥ receiveBufferLength then
    let pointer := pointer - receiveBufferLength
    if pointer ≥ rx.writePoint then rx.writePoint else pointer
  else pointer

/-- `rt_link_hw_copy`: the bytes that are copied. -/
def hwCopy (rx : ReceiveBuffer) (src count : Nat) : List UInt8 :=
  let pointer := src + count
  if pointer ≥ receiveBufferLength then
    cells rx.data src (receiveBufferLength - src) ++ cells rx.data 0 (pointer - receiveBufferLength)
  else cells rx.data src count

def hwRecvLen (rx : ReceiveBuffer) : Nat :=
  if rx.writePoint ≥ rx.readPoint then rx.writePoint - rx.readPoint
  else receiveBufferLength - (rx.readPoint - rx.writePoint)

/-- The buffer beside a queue of at most as many bytes, and what the last write returned and should have taken. -/
structure Session where
  rx : ReceiveBuffer
  queue : List UInt8
  returned : Nat
  accepted : Nat

inductive Call where
  | write (data : List UInt8)
  | shift (length : Nat)

def Session.call (s : Session) : Call → Session
  | .write data =>
    let written := hwBufferWrite s.rx data
    let accepted := min data.length (receiveBufferLength - s.queue.length)
    { rx := written.2, queue := s.queue ++ data.take accepted, returned := written.1, accepted }
  | .shift length =>
    { s with
      rx := { s.rx with readPoint := hwBufferPointShift s.rx s.rx.readPoint length }
      queue := s.queue.drop length }

def Session.Step (s : Session) (c : Call) (s' : Session) : Prop := s.call c = s'

def Session.start : Session := ⟨hwBufferInit, [], 0, 0⟩

structure Session.Sound (s : Session) : Prop where
  recvLen : hwRecvLen s.rx = s.queue.length
  returned : s.returned = s.accepted
  copy : ∀ n ≤ hwRecvLen s.rx, hwCopy s.rx s.rx.readPoint n = s.queue.take n

def LeavesRoom (s : Session) : Call → Prop
  | .write data => data.length < receiveBufferLength - hwRecvLen s.rx
  | .shift _ => True

section
variable {rx : ReceiveBuffer} {data : List UInt8} {s s' : Session}

structure ReceiveBuffer.Inside (rx : ReceiveBuffer) : Prop where
  read : rx.readPoint < receiveBufferLength
  write : rx.writePoint < receiveBufferLength

def ReceiveBuffer.contents (rx : ReceiveBuffer) : List UInt8 :=
  window rx.data receiveBufferLength rx.readPoint (hwRecvLen rx)

theorem ReceiveBuffer.Inside.recvLen_lt (inside : rx.Inside) : hwRecvLen rx < receiveBufferLength := by
  obtain ⟨read, write⟩ := inside
  unfold hwRecvLen
  split <;> omega

theorem ReceiveBuffer.Inside.meets (inside : rx.Inside) :
    (rx.readPoint + hwRecvLen rx) % receiveBufferLength = rx.writePoint % receiveBufferLength := by
  obtain ⟨read, write⟩ := inside
  unfold hwRecvLen
  split
  · congr 1
    omega
  · have round : rx.readPoint + (receiveBufferLength - (rx.readPoint - rx.writePoint)) =
        rx.writePoint + receiveBufferLength := by omega
    rw [round, Nat.add_mod_right]

def granted (rx : ReceiveBuffer) (n : Nat) : Nat := min n (receiveBufferLength - hwRecvLen rx)

structure Wrote (rx : ReceiveBuffer) (data : List UInt8) (count : Nat) (result : Nat × ReceiveBuffer) : Prop where
  returned : result.1 = count
  read : result.2.readPoint = rx.readPoint
  write : result.2.writePoint = (rx.writePoint + count) % receiveBufferLength
  data : Written rx.data result.2.data receiveBufferLength rx.writePoint (data.take count)

theorem wrote_flat {count : Nat} (data : List UInt8) (flat : rx.writePoint + count < receiveBufferLength) :
    Wrote rx data count (count, { rx with
      data := setCells rx.data rx.writePoint (data.take count)
      writePoint := rx.writePoint + count }) := by
  have length : (data.take count).length ≤ count := List.length_take_le count data
  exact ⟨rfl, rfl, (Nat.mod_eq_of_lt flat).symm, setCells_written (by omega)⟩

theorem wrote_round {count : Nat} (inside : rx.Inside) (data : List UInt8) (le : count ≤ data.length)
    (room : count ≤ receiveBufferLength) (round : count ≥ receiveBufferLength - rx.writePoint) :
    Wrote rx data count (count, { rx with
      data := setCells (setCells rx.data rx.writePoint (data.take (receiveBufferLength - rx.writePoint))) 0
        ((data.drop (receiveBufferLength - rx.writePoint)).take (count - (receiveBufferLength - rx.writePoint)))
      writePoint := count - (receiveBufferLength - rx.writePoint) }) := by
  have write := inside.write
  refine ⟨rfl, rfl, ?_, ?_⟩
  · have over_ : rx.writePoint + count = receiveBufferLength + (count - (receiveBufferLength - rx.writePoint)) := by omega
    rw [over_, Nat.add_mod_left, Nat.mod_eq_of_lt (by omega)]
  · obtain ⟨rest, rfl⟩ := Nat.exists_eq_add_of_le round
    rw [Nat.add_sub_cancel_left, List.take_add]
    have first : (data.take (receiveBufferLength - rx.writePoint)).length = receiveBufferLength - rx.writePoint :=
      List.length_take_of_le (by omega)
    have second : ((data.drop (receiveBufferLength - rx.writePoint)).take rest).length ≤ rest := List.length_take_le _ _
    have behind : 0 % receiveBufferLength = (rx.writePoint + (data.take (receiveBufferLength - rx.writePoint)).length) %
        receiveBufferLength := by
      rw [first, Nat.add_sub_cancel' (Nat.le_of_lt write), Nat.mod_self, Nat.zero_mod]
    exact (setCells_written (by omega)).append ((setCells_written (by omega)).congr behind) (by omega)

theorem hwBufferWrite_wrote (inside : rx.Inside) (data : List UInt8) :
    Wrote rx data (granted rx data.length) (hwBufferWrite rx data) := by
  obtain ⟨read, write⟩ := inside
  have clip : ∀ n surplus : Nat, (if n > surplus then surplus else n) = min n surplus := fun n surplus => by
    split <;> omega
  unfold hwBufferWrite granted hwRecvLen
  simp only [clip]
  split
  case isTrue ahead =>
    split
    case isTrue round => exact wrote_round ⟨read, write⟩ data (Nat.min_le_left _ _) (by omega) round
    case isFalse flat => exact wrote_flat data (by omega)
  case isFalse behind =>
    have free : receiveBufferLength - (receiveBufferLength - (rx.readPoint - rx.writePoint)) =
        rx.readPoint - rx.writePoint := by omega
    rw [free]
    exact wrote_flat data (by omega)

theorem Wrote.inside {count : Nat} {result : Nat × ReceiveBuffer} (wrote : Wrote rx data count result) (inside : rx.Inside) :
    result.2.Inside where
  read := wrote.read ▸ inside.read
  write := wrote.write ▸ Nat.mod_lt _ (Nat.lt_of_le_of_lt (Nat.zero_le _) inside.read)

theorem recvLen_eq (inside : rx.Inside) {n : Nat} (less : n < receiveBufferLength)
    (meets : (rx.readPoint + n) % receiveBufferLength = rx.writePoint % receiveBufferLength) : hwRecvLen rx = n := by
  have less' := inside.recvLen_lt
  have same : (rx.readPoint + hwRecvLen rx) % receiveBufferLength = (rx.readPoint + n) % receiveBufferLength :=
    inside.meets.trans meets.symm
  rcases Nat.lt_trichotomy (hwRecvLen rx) n with short | equal | long
  · exact absurd same (ring_apart (by omega) (by omega))
  · exact equal
  · exact absurd same.symm (ring_apart (by omega) (by omega))

theorem Wrote.appended {result : Nat × ReceiveBuffer} (wrote : Wrote rx data data.length result) (inside : rx.Inside)
    (room : data.length < receiveBufferLength - hwRecvLen rx) :
    hwRecvLen result.2 = hwRecvLen rx + data.length ∧ result.2.contents = rx.contents ++ data := by
  have all : data.take data.length = data := List.take_length
  have written := wrote.data
  rw [all] at written
  have meets := inside.meets
  have recvLen : hwRecvLen result.2 = hwRecvLen rx + data.length := by
    apply recvLen_eq (wrote.inside inside) (by omega)
    rw [wrote.read, wrote.write, Nat.mod_mod, ← Nat.add_assoc, Nat.add_mod, meets, ← Nat.add_mod]
  refine ⟨recvLen, ?_⟩
  rw [ReceiveBuffer.contents, ReceiveBuffer.contents, wrote.read, recvLen, window_add,
    written.before meets (by omega), window_congr meets, written.window]

theorem hwBufferPointShift_spec (inside : rx.Inside) (n : Nat) :
    hwBufferPointShift rx rx.readPoint n < receiveBufferLength ∧
      hwBufferPointShift rx rx.readPoint n % receiveBufferLength =
        (rx.readPoint + min n (hwRecvLen rx)) % receiveBufferLength := by
  obtain ⟨read, write⟩ := inside
  unfold hwBufferPointShift hwRecvLen
  dsimp only
  split
  case isTrue ahead =>
    split
    · exact ⟨write, by congr 1; omega⟩
    · exact ⟨by omega, by congr 1; omega⟩
  case isFalse behind =>
    have round : rx.readPoint + (receiveBufferLength - (rx.readPoint - rx.writePoint)) =
        rx.writePoint + receiveBufferLength := by omega
    split
    · split
      · rw [Nat.min_eq_right (by omega), round, Nat.add_mod_right]
        exact ⟨write, rfl⟩
      · have over_ : rx.readPoint + n = rx.readPoint + n - receiveBufferLength + receiveBufferLength := by omega
        rw [Nat.min_eq_left (by omega)]
        refine ⟨by omega, ?_⟩
        conv => rhs; rw [over_]
        rw [Nat.add_mod_right]
    · rw [Nat.min_eq_left (by omega)]
      exact ⟨by omega, rfl⟩

theorem shift_contents (inside : rx.Inside) (n : Nat) :
    let rx' := { rx with readPoint := hwBufferPointShift rx rx.readPoint n }
    rx'.Inside ∧ hwRecvLen rx' = hwRecvLen rx - n ∧ rx'.contents = rx.contents.drop n := by
  intro rx'
  obtain ⟨less, place⟩ := hwBufferPointShift_spec inside n
  have inside' : rx'.Inside := ⟨less, inside.write⟩
  have less' := inside.recvLen_lt
  have recvLen : hwRecvLen rx' = hwRecvLen rx - n := by
    apply recvLen_eq inside' (by omega)
    have rest : min n (hwRecvLen rx) + (hwRecvLen rx - n) = hwRecvLen rx := by omega
    change (hwBufferPointShift rx rx.readPoint n + (hwRecvLen rx - n)) % receiveBufferLength = rx.writePoint % receiveBufferLength
    rw [Nat.add_mod, place, ← Nat.add_mod, Nat.add_assoc, rest]
    exact inside.meets
  refine ⟨inside', recvLen, ?_⟩
  rw [ReceiveBuffer.contents, recvLen]
  rcases Nat.le_total n (hwRecvLen rx) with le | ge
  · rw [ReceiveBuffer.contents, window_drop le]
    rw [Nat.min_eq_left le] at place
    exact window_congr place
  · have none : hwRecvLen rx - n = 0 := by omega
    rw [none, window_zero, List.drop_of_length_le]
    rw [ReceiveBuffer.contents, window_length]
    exact ge

theorem hwCopy_take (inside : rx.Inside) {n : Nat} (le : n ≤ hwRecvLen rx) :
    hwCopy rx rx.readPoint n = rx.contents.take n := by
  have less := inside.recvLen_lt
  have read := inside.read
  rw [ReceiveBuffer.contents, window_take le, hwCopy]
  split
  case isTrue round =>
    have split_ : n = receiveBufferLength - rx.readPoint + (rx.readPoint + n - receiveBufferLength) := by omega
    have behind : (rx.readPoint + (receiveBufferLength - rx.readPoint)) % receiveBufferLength = 0 % receiveBufferLength := by
      rw [Nat.add_sub_cancel' (Nat.le_of_lt read), Nat.mod_self, Nat.zero_mod]
    have first : cells rx.data rx.readPoint (receiveBufferLength - rx.readPoint) =
        window rx.data receiveBufferLength rx.readPoint (receiveBufferLength - rx.readPoint) := cells_eq_window (by omega)
    have rest : cells rx.data 0 (rx.readPoint + n - receiveBufferLength) =
        window rx.data receiveBufferLength 0 (rx.readPoint + n - receiveBufferLength) := cells_eq_window (by omega)
    conv => rhs; rw [split_]
    rw [window_add, window_congr behind, first, rest]
  case isFalse flat => exact cells_eq_window (by omega)

/-! ## Runs -/

structure Session.Inv (s : Session) : Prop where
  inside : s.rx.Inside
  contents : s.rx.contents = s.queue
  returned : s.returned = s.accepted

theorem Session.Inv.recvLen (inv : s.Inv) : hwRecvLen s.rx = s.queue.length := by
  rw [← inv.contents, ReceiveBuffer.contents, window_length]

theorem Session.Inv.sound (inv : s.Inv) : s.Sound where
  recvLen := inv.recvLen
  returned := inv.returned
  copy n le := by rw [hwCopy_take inv.inside le, inv.contents]

theorem start_inv : Session.start.Inv := ⟨⟨by decide, by decide⟩, rfl, rfl⟩

theorem Session.Inv.kept {c : Call} (inv : s.Inv) (room : LeavesRoom s c) : (s.call c).Inv := by
  obtain ⟨inside, contents, returned⟩ := inv
  have recvLen : hwRecvLen s.rx = s.queue.length := Session.Inv.recvLen ⟨inside, contents, returned⟩
  cases c with
  | write data =>
    have room' : data.length < receiveBufferLength - hwRecvLen s.rx := room
    have all : min data.length (receiveBufferLength - s.queue.length) = data.length := by omega
    have wrote := hwBufferWrite_wrote inside data
    rw [granted, recvLen, all] at wrote
    refine ⟨wrote.inside inside, ?_, ?_⟩
    · change (hwBufferWrite s.rx data).2.contents = s.queue ++ data.take _
      rw [(wrote.appended inside room).2, contents, all, List.take_length]
    · change (hwBufferWrite s.rx data).1 = min data.length _
      rw [wrote.returned, all]
  | shift length =>
    obtain ⟨inside', -, rest⟩ := shift_contents inside length
    exact ⟨inside', rest.trans (congrArg (List.drop length) contents), returned⟩

theorem Session.Inv.needed {c : Call} (inv : s.Inv) (sound : (s.call c).Sound) : LeavesRoom s c := by
  cases c with
  | shift length => trivial
  | write data =>
    by_contra full
    have recvLen := inv.recvLen
    have less := inv.inside.recvLen_lt
    have over_ : receiveBufferLength - hwRecvLen s.rx ≤ data.length := Nat.not_lt.mp full
    have wrote := hwBufferWrite_wrote inv.inside data
    have less' := (wrote.inside inv.inside).recvLen_lt
    have queue : hwRecvLen (hwBufferWrite s.rx data).2 =
        (s.queue ++ data.take (min data.length (receiveBufferLength - s.queue.length))).length := sound.recvLen
    rw [List.length_append, List.length_take] at queue
    omega

end

theorem receive_queue (calls : List Call) :
    Throughout Session.Step .start calls Session.Sound ↔ EachStep Session.Step .start calls LeavesRoom :=
  throughout_iff_eachStep (fun _ inv => inv.sound) (fun _ _ _ inv room step => step ▸ inv.kept room)
    (fun _ _ _ inv step sound => inv.needed (step.symm ▸ sound)) start_inv

theorem fills {data : List UInt8} (full : receiveBufferLength ≤ data.length) :
    ¬Throughout Session.Step .start [.write data] Session.Sound := by
  intro all
  have sound := all [.write data] _ (List.prefix_refl _) (.snoc (.nil _) rfl)
  have room : data.length < receiveBufferLength - hwRecvLen hwBufferInit := start_inv.needed sound
  omega

theorem receive_full : ¬Throughout Session.Step .start [.write (List.replicate receiveBufferLength 0)] Session.Sound :=
  fills (Nat.le_of_eq List.length_replicate.symm)

end RtThread.Link
