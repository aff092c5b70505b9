import RtThread.Drivers.RingBuffer
import RtThread.Lib.Word
import RtThread.Lib.Window
import RtThread.Mem.SmallMemBlocks

/-! The ring buffer is a queue of at most `bufferSize` bytes. -/

set_option autoImplicit false
namespace RtThread.Drivers
open Lib

namespace Ringbuffer

/-! ## What a buffer holds -/

def size (rb : Ringbuffer) : Nat := rb.bufferSize.toNat

def reads (rb : Ringbuffer) : Nat := rb.readIndex.toNat

def writes (rb : Ringbuffer) : Nat := rb.writeIndex.toNat

def place (rb : Ringbuffer) (mirror : Bool) (index : Nat) : Nat := if mirror then rb.size + index else index

def count (rb : Ringbuffer) : Nat :=
  (rb.place rb.writeMirror rb.writes + 2 * rb.size - rb.place rb.readMirror rb.reads) % (2 * rb.size)

def content (rb : Ringbuffer) : List UInt8 := window rb.bufferPtr rb.size rb.reads rb.count

structure Sound (rb : Ringbuffer) : Prop where
  small : rb.size < 2 ^ 31
  read : rb.reads < rb.size
  write : rb.writes < rb.size
  order : if rb.readMirror = rb.writeMirror then rb.reads ≤ rb.writes else rb.writes ≤ rb.reads

variable {rb rb' : Ringbuffer} {data : List UInt8} {ptr : Nat → UInt8} {length : UInt32} {n : Nat}

theorem Sound.sides (sound : rb.Sound) :
    rb.readMirror = rb.writeMirror ∧ rb.reads ≤ rb.writes ∧ rb.count = rb.writes - rb.reads ∨
      rb.readMirror ≠ rb.writeMirror ∧ rb.writes ≤ rb.reads ∧ rb.count = rb.size + rb.writes - rb.reads := by
  obtain ⟨-, read, write, order⟩ := sound
  have round : ∀ d, d ≤ rb.size → (2 * rb.size + d) % (2 * rb.size) = d := by
    intro d le
    rw [Nat.add_mod_left, Nat.mod_eq_of_lt (by omega)]
  unfold Ringbuffer.count Ringbuffer.place
  cases read' : rb.readMirror <;> cases write' : rb.writeMirror <;>
    simp only [read', write', if_true, if_false, Bool.false_eq_true, Bool.true_eq_false] at order ⊢
  · refine Or.inl ⟨trivial, order, ?_⟩
    rw [← round (rb.writes - rb.reads) (by omega)]
    congr 1
    omega
  · refine Or.inr ⟨Bool.false_ne_true, order, ?_⟩
    rw [← round (rb.size + rb.writes - rb.reads) (by omega)]
    congr 1
    omega
  · refine Or.inr ⟨Bool.false_ne_true.symm, order, ?_⟩
    rw [Nat.mod_eq_of_lt (by omega)]
    omega
  · refine Or.inl ⟨trivial, order, ?_⟩
    rw [← round (rb.writes - rb.reads) (by omega)]
    congr 1
    omega

theorem Sound.count_le (sound : rb.Sound) : rb.count ≤ rb.size := by
  have write := sound.write
  rcases sound.sides with ⟨-, order, count⟩ | ⟨-, order, count⟩ <;> omega

theorem Sound.meets (sound : rb.Sound) : (rb.reads + rb.count) % rb.size = rb.writes := by
  have read := sound.read
  have write := sound.write
  rcases sound.sides with ⟨-, order, count⟩ | ⟨-, order, count⟩
  · have flat : rb.reads + rb.count = rb.writes := by omega
    rw [flat, Nat.mod_eq_of_lt write]
  · have round : rb.reads + rb.count = rb.size + rb.writes := by omega
    rw [round, Nat.add_mod_left, Nat.mod_eq_of_lt write]

theorem Sound.of_sides (small : rb.size < 2 ^ 31) (read : rb.reads < rb.size) (write : rb.writes < rb.size)
    (sides : rb.readMirror = rb.writeMirror ∧ rb.reads + n = rb.writes ∨
      rb.readMirror ≠ rb.writeMirror ∧ rb.reads + n = rb.size + rb.writes ∧ n ≤ rb.size) :
    rb.Sound ∧ rb.count = n := by
  have sound : rb.Sound := by
    refine ⟨small, read, write, ?_⟩
    rcases sides with ⟨mirror, place⟩ | ⟨mirror, place, le⟩
    · rw [if_pos mirror]
      omega
    · rw [if_neg mirror]
      omega
  refine ⟨sound, ?_⟩
  rcases sides with ⟨mirror, place⟩ | ⟨mirror, place, le⟩ <;>
    rcases sound.sides with ⟨mirror', order, count⟩ | ⟨mirror', order, count⟩
  · omega
  · exact absurd mirror mirror'
  · exact absurd mirror' mirror
  · omega

theorem content_length : rb.content.length = rb.count := window_length

theorem dataLen_toNat (sound : rb.Sound) : (rtRingbufferDataLen rb).toNat = rb.count := by
  have read := sound.read
  unfold rtRingbufferDataLen rtRingbufferStatus
  by_cases same : rb.readIndex = rb.writeIndex
  · have equal : rb.reads = rb.writes := congrArg UInt32.toNat same
    rcases sound.sides with ⟨mirror, -, count⟩ | ⟨mirror, -, count⟩
    · simp only [if_pos same, if_pos mirror]
      rw [count, equal, Nat.sub_self]
      rfl
    · simp only [if_pos same, if_neg mirror]
      rw [count, equal, Nat.add_sub_cancel]
      rfl
  · simp only [if_neg same]
    have apart : rb.reads ≠ rb.writes := fun equal => same (UInt32.toNat.inj equal)
    rcases sound.sides with ⟨-, order, count⟩ | ⟨-, order, count⟩
    · have ahead : rb.writeIndex > rb.readIndex := UInt32.lt_iff_toNat_lt.mpr (Nat.lt_of_le_of_ne order apart)
      rw [if_pos ahead, UInt32.toNat_sub_of_le _ _ (UInt32.le_iff_toNat_le.mpr order), count]
      rfl
    · have behind : ¬rb.writeIndex > rb.readIndex := fun ahead =>
        Nat.not_lt.mpr order (UInt32.lt_iff_toNat_lt.mp ahead)
      have inner : (rb.readIndex - rb.writeIndex).toNat = rb.reads - rb.writes :=
        UInt32.toNat_sub_of_le _ _ (UInt32.le_iff_toNat_le.mpr order)
      have below : rb.readIndex - rb.writeIndex ≤ rb.bufferSize := by
        rw [UInt32.le_iff_toNat_le, inner]
        exact Nat.le_of_lt (Nat.lt_of_le_of_lt (Nat.sub_le _ _) read)
      rw [if_neg behind, UInt32.toNat_sub_of_le _ _ below, inner, count]
      have size : rb.bufferSize.toNat = rb.size := rfl
      omega

theorem spaceLen_toNat (sound : rb.Sound) : (rtRingbufferSpaceLen rb).toNat = rb.size - rb.count := by
  have le := sound.count_le
  rw [rtRingbufferSpaceLen, UInt32.toNat_sub_of_le, dataLen_toNat sound]
  · rfl
  · rw [UInt32.le_iff_toNat_le, dataLen_toNat sound]
    exact le

/-! ## Moving the two positions -/

/-- `data` is written at the write position, which moves behind it. -/
structure Appended (rb rb' : Ringbuffer) (data : List UInt8) : Prop where
  written : Written rb.bufferPtr rb'.bufferPtr rb.size rb.writes data
  size : rb'.size = rb.size
  read : rb'.reads = rb.reads ∧ rb'.readMirror = rb.readMirror
  moved : rb.writes + data.length < rb.size ∧ rb'.writes = rb.writes + data.length ∧
      rb'.writeMirror = rb.writeMirror ∨
    rb.size ≤ rb.writes + data.length ∧ rb'.writes = rb.writes + data.length - rb.size ∧
      rb'.writeMirror = !rb.writeMirror

/-- The read position moves on by `n` bytes. -/
structure Removed (rb rb' : Ringbuffer) (n : Nat) : Prop where
  buffer : rb'.bufferPtr = rb.bufferPtr
  size : rb'.size = rb.size
  write : rb'.writes = rb.writes ∧ rb'.writeMirror = rb.writeMirror
  moved : rb.reads + n < rb.size ∧ rb'.reads = rb.reads + n ∧ rb'.readMirror = rb.readMirror ∨
    rb.size ≤ rb.reads + n ∧ rb'.reads = rb.reads + n - rb.size ∧ rb'.readMirror = !rb.readMirror

section
variable (appended : Appended rb rb' data) (sound : rb.Sound)
include appended sound

theorem Appended.writes_eq (le : data.length ≤ rb.size) :
    rb'.writes < rb.size ∧ rb'.writes = (rb.writes + data.length) % rb.size := by
  have write := sound.write
  rcases appended.moved with ⟨flat, place, -⟩ | ⟨round, place, -⟩
  · rw [place, Nat.mod_eq_of_lt flat]
    exact ⟨flat, rfl⟩
  · rw [place, Nat.mod_eq_sub_mod round, Nat.mod_eq_of_lt (by omega)]
    exact ⟨by omega, rfl⟩

theorem Appended.fits (room : rb.count + data.length ≤ rb.size) : rb'.Sound ∧ rb'.content = rb.content ++ data := by
  have read := sound.read
  have write := sound.write
  obtain ⟨readIndex, readMirror⟩ := appended.read
  have place := appended.writes_eq sound (by omega)
  obtain ⟨sound', count⟩ : rb'.Sound ∧ rb'.count = rb.count + data.length := by
    apply Sound.of_sides (by rw [appended.size]; exact sound.small) (by rw [appended.size, readIndex]; exact read)
      (by rw [appended.size]; exact place.1)
    rw [readMirror, readIndex, appended.size]
    rcases sound.sides with ⟨mirror, order, count⟩ | ⟨mirror, order, count⟩ <;>
      rcases appended.moved with ⟨flat, place, side⟩ | ⟨round, place, side⟩
    · exact Or.inl ⟨mirror.trans side.symm, by omega⟩
    · exact Or.inr ⟨by simp [side, mirror], by omega, room⟩
    · exact Or.inr ⟨by rwa [side], by omega, room⟩
    · omega
  refine ⟨sound', ?_⟩
  have meets : (rb.reads + rb.count) % rb.size = rb.writes % rb.size := by
    rw [sound.meets, Nat.mod_eq_of_lt write]
  rw [Ringbuffer.content, Ringbuffer.content, count, appended.size, readIndex, window_add,
    appended.written.before meets room, window_congr meets, appended.written.window]

theorem Appended.forced (le : data.length ≤ rb.size)
    (beyond : rb.size < rb.count + data.length) {full : Ringbuffer}
    (buffer : full.bufferPtr = rb'.bufferPtr) (size : full.size = rb'.size)
    (write : full.writes = rb'.writes ∧ full.writeMirror = rb'.writeMirror)
    (read : full.reads = rb'.writes ∧ full.readMirror = !rb'.writeMirror) :
    full.Sound ∧ full.content = (rb.content ++ data).drop (rb.count + data.length - rb.size) := by
  have positive := sound.write
  have most := sound.count_le
  have place := appended.writes_eq sound le
  obtain ⟨sound', count⟩ : full.Sound ∧ full.count = rb.size := by
    apply Sound.of_sides
    · rw [size, appended.size]
      exact sound.small
    · rw [size, appended.size, read.1]
      exact place.1
    · rw [size, appended.size, write.1]
      exact place.1
    · right
      rw [read.1, read.2, write.1, write.2, size, appended.size]
      exact ⟨by simp, by omega, Nat.le_refl _⟩
  refine ⟨sound', ?_⟩
  obtain ⟨d, lost⟩ : ∃ d, rb.count + data.length = rb.size + d := ⟨rb.count + data.length - rb.size, by omega⟩
  have start : rb'.writes % rb.size = (rb.reads + d) % rb.size := by
    have total : rb.reads + rb.count + data.length = rb.reads + d + rb.size := by omega
    rw [place.2, Nat.mod_mod, ← sound.meets, Nat.mod_add_mod, total, Nat.add_mod_right]
  have kept : rb.size = (rb.count - d) + data.length := by omega
  have further : rb.reads + d + (rb.count - d) = rb.reads + rb.count := by omega
  have meets : (rb.reads + rb.count) % rb.size = rb.writes % rb.size := by
    rw [sound.meets, Nat.mod_eq_of_lt positive]
  have drops : rb.count + data.length - rb.size = d := by omega
  have whole : window rb'.bufferPtr rb.size (rb.reads + d) ((rb.count - d) + data.length) =
      window rb.bufferPtr rb.size (rb.reads + d) (rb.count - d) ++ data := by
    rw [window_add, further, window_congr meets, appended.written.window,
      appended.written.before (by rw [further, meets]) (by omega)]
  rw [Ringbuffer.content, count, buffer, read.1, size, appended.size, window_congr start, drops,
    List.drop_append_of_le_length (by rw [content_length]; omega), Ringbuffer.content, window_drop (by omega)]
  have same : window rb'.bufferPtr rb.size (rb.reads + d) rb.size =
      window rb'.bufferPtr rb.size (rb.reads + d) ((rb.count - d) + data.length) := by rw [← kept]
  rw [same, whole]

end

theorem Removed.content (removed : Removed rb rb' n) (sound : rb.Sound) (le : n ≤ rb.count) :
    rb'.Sound ∧ rb'.content = rb.content.drop n := by
  have read := sound.read
  have most := sound.count_le
  obtain ⟨writeIndex, writeMirror⟩ := removed.write
  have place : rb'.reads < rb.size ∧ rb'.reads = (rb.reads + n) % rb.size := by
    rcases removed.moved with ⟨flat, place, -⟩ | ⟨round, place, -⟩
    · rw [place, Nat.mod_eq_of_lt flat]
      exact ⟨flat, rfl⟩
    · rw [place, Nat.mod_eq_sub_mod round, Nat.mod_eq_of_lt (by omega)]
      exact ⟨by omega, rfl⟩
  obtain ⟨sound', count⟩ : rb'.Sound ∧ rb'.count = rb.count - n := by
    have write := sound.write
    apply Sound.of_sides (by rw [removed.size]; exact sound.small) (by rw [removed.size]; exact place.1)
      (by rw [removed.size, writeIndex]; exact write)
    rw [writeMirror, writeIndex, removed.size]
    rcases sound.sides with ⟨mirror, order, count⟩ | ⟨mirror, order, count⟩ <;>
      rcases removed.moved with ⟨flat, place, side⟩ | ⟨round, place, side⟩
    · exact Or.inl ⟨side.trans mirror, by omega⟩
    · omega
    · exact Or.inr ⟨by rwa [side], by omega, by omega⟩
    · exact Or.inl ⟨by rw [side, Bool.eq_not.mpr mirror, Bool.not_not], by omega⟩
  refine ⟨sound', ?_⟩
  have start : rb'.reads % rb.size = (rb.reads + n) % rb.size := by rw [place.2, Nat.mod_mod]
  rw [Ringbuffer.content, Ringbuffer.content, count, removed.buffer, removed.size, window_drop le, window_congr start]

end Ringbuffer

open Ringbuffer

variable {rb rb' : Ringbuffer} {data : List UInt8} {ptr : Nat → UInt8} {length : UInt32} {n : Nat}

/-! ## Copies -/

/-- The `count` bytes at `ptr`. -/
def bytesAt (ptr : Nat → UInt8) (count : Nat) : List UInt8 := (List.range count).map ptr

theorem bytesAt_length : (bytesAt ptr n).length = n := by simp [bytesAt]

theorem bytesAt_add {m : Nat} : bytesAt ptr (n + m) = bytesAt ptr n ++ bytesAt (fun i => ptr (n + i)) m := by
  simp only [bytesAt, List.range_add, List.map_append, List.map_map, Function.comp_def]

theorem bytesAt_behind (start : UInt32) :
    bytesAt (behind ptr start) n = (bytesAt ptr (start.toNat + n)).drop start.toNat := by
  rw [bytesAt_add, List.drop_left' bytesAt_length]
  rfl

theorem field31_toNat {value : UInt32} (small : value.toNat < 2 ^ 31) : (field31 value).toNat = value.toNat := by
  rw [field31, UInt32.toNat_mod]
  exact Nat.mod_eq_of_lt small

theorem Ringbuffer.Sound.gap_toNat (sound : rb.Sound) :
    (rb.bufferSize - rb.writeIndex).toNat = rb.size - rb.writes := sub_toNat sound.write.le

theorem Ringbuffer.Sound.left_toNat (sound : rb.Sound) :
    (rb.bufferSize - rb.readIndex).toNat = rb.size - rb.reads := sub_toNat sound.read.le

theorem writeFlat_appended (ptr : Nat → UInt8) (sound : rb.Sound) (flat : rb.bufferSize - rb.writeIndex > length) :
    Appended rb (writeFlat rb ptr length) (bytesAt ptr length.toNat) := by
  have small := sound.small
  have gap : length.toNat < rb.size - rb.writes := by
    rw [← sound.gap_toNat]
    exact UInt32.lt_iff_toNat_lt.mp flat
  have place : (rb.writeIndex + length).toNat = rb.writes + length.toNat := by
    apply add_toNat
    have same : rb.writeIndex.toNat = rb.writes := rfl
    omega
  have moved : (writeFlat rb ptr length).writes = rb.writes + length.toNat := by
    rw [← place]
    apply field31_toNat
    omega
  have copied : ∀ a, (writeFlat rb ptr length).bufferPtr a =
      if rb.writes ≤ a ∧ a < rb.writes + length.toNat then ptr (a - rb.writes) else rb.bufferPtr a :=
    fun _ => rfl
  refine ⟨⟨?_, ?_⟩, rfl, ⟨rfl, rfl⟩, ?_⟩
  · intro i inside
    have value : (bytesAt ptr length.toNat)[i] = ptr i := by simp [bytesAt]
    rw [bytesAt_length] at inside
    rw [value, Nat.mod_eq_of_lt (by omega), copied, if_pos (by omega), Nat.add_sub_cancel_left]
  · intro a out
    rw [bytesAt_length] at out
    rw [copied, if_neg]
    rintro ⟨low, high⟩
    apply out (a - rb.writes) (Nat.sub_lt_left_of_lt_add low high)
    rw [Nat.add_sub_cancel' low, Nat.mod_eq_of_lt (by omega)]
  · rw [bytesAt_length]
    exact Or.inl ⟨by omega, moved, rfl⟩

theorem writeRound_appended (ptr : Nat → UInt8) (sound : rb.Sound) (round : ¬rb.bufferSize - rb.writeIndex > length)
    (le : length.toNat ≤ rb.size) : Appended rb (writeRound rb ptr length) (bytesAt ptr length.toNat) := by
  have small := sound.small
  have write := sound.write
  have gap : rb.size - rb.writes ≤ length.toNat := by
    rw [← sound.gap_toNat]
    exact Nat.le_of_not_lt fun less => round (UInt32.lt_iff_toNat_lt.mpr less)
  have tail : (length - (rb.bufferSize - rb.writeIndex)).toNat = length.toNat - (rb.size - rb.writes) := by
    rw [sub_toNat (by rw [sound.gap_toNat]; exact gap), sound.gap_toNat]
  have moved : (writeRound rb ptr length).writes = length.toNat - (rb.size - rb.writes) := by
    rw [← tail]
    apply field31_toNat
    omega
  -- the end of the buffer and its beginning
  have copied : ∀ a, (writeRound rb ptr length).bufferPtr a =
      if a < length.toNat - (rb.size - rb.writes) then ptr (rb.size - rb.writes + a)
      else if rb.writes ≤ a ∧ a < rb.size then ptr (a - rb.writes) else rb.bufferPtr a := by
    intro a
    have ends : rb.writes + (rb.size - rb.writes) = rb.size := by omega
    have same : rb.writeIndex.toNat = rb.writes := rfl
    simp only [writeRound, rtMemcpy, behind, tail, sound.gap_toNat, same, ends, Nat.zero_le, true_and, Nat.zero_add,
      Nat.sub_zero]
  refine ⟨⟨?_, ?_⟩, rfl, ⟨rfl, rfl⟩, ?_⟩
  · intro i inside
    have value : (bytesAt ptr length.toNat)[i] = ptr i := by simp [bytesAt]
    rw [bytesAt_length] at inside
    rw [value, copied]
    by_cases first : i < rb.size - rb.writes
    · rw [Nat.mod_eq_of_lt (by omega), if_neg (by omega), if_pos (by omega), Nat.add_sub_cancel_left]
    · rw [Nat.mod_eq_sub_mod (by omega), Nat.mod_eq_of_lt (by omega), if_pos (by omega)]
      congr 1
      omega
  · intro a out
    rw [bytesAt_length] at out
    rw [copied, if_neg, if_neg]
    · rintro ⟨low, high⟩
      apply out (a - rb.writes) (by omega)
      rw [Nat.add_sub_cancel' low, Nat.mod_eq_of_lt high]
    · intro less
      apply out (rb.size - rb.writes + a) (by omega)
      have place : rb.writes + (rb.size - rb.writes + a) = rb.size + a := by omega
      rw [place, Nat.add_mod_left, Nat.mod_eq_of_lt (by omega)]
  · rw [bytesAt_length]
    exact Or.inr ⟨by omega, by omega, rfl⟩

end RtThread.Drivers
