import RtThread.Drivers.RingBufferFifo

/-! The calls on a ring buffer, one after another, and what they do to a bounded queue of bytes. -/

set_option autoImplicit false
namespace RtThread.Drivers
open Lib Ringbuffer

variable {rb rb' : Ringbuffer} {data : List UInt8} {ptr : Nat → UInt8} {length : UInt32} {n : Nat}

/-! ## Calls -/

structure Kept (rb rb' : Ringbuffer) : Prop where
  size : rb'.size = rb.size
  beyond : ∀ a, rb.size ≤ a → rb'.bufferPtr a = rb.bufferPtr a

theorem Kept.refl (rb : Ringbuffer) : Kept rb rb := ⟨rfl, fun _ _ => rfl⟩

theorem Ringbuffer.Appended.kept (appended : Appended rb rb' data) (sound : rb.Sound) : Kept rb rb' := by
  refine ⟨appended.size, fun a out => appended.written.rest a fun i _ own => ?_⟩
  have inside : (rb.writes + i) % rb.size < rb.size := Nat.mod_lt _ (Nat.zero_lt_of_lt sound.write)
  omega

theorem Ringbuffer.Removed.kept (removed : Removed rb rb' n) : Kept rb rb' :=
  ⟨removed.size, fun _ _ => by rw [removed.buffer]⟩

theorem bytesAt_take {k : Nat} : (bytesAt ptr n).take k = bytesAt ptr (min k n) := by
  rw [bytesAt, ← List.map_take, List.take_range, bytesAt]

theorem put_fifo (sound : rb.Sound) (ptr : Nat → UInt8) (length : UInt32) :
    (rtRingbufferPut rb ptr length).1.Sound ∧ Kept rb (rtRingbufferPut rb ptr length).1 ∧
      (rtRingbufferPut rb ptr length).1.content =
        rb.content ++ (bytesAt ptr length.toNat).take (rb.size - rb.content.length) ∧
      (rtRingbufferPut rb ptr length).2.toNat =
        ((bytesAt ptr length.toNat).take (rb.size - rb.content.length)).length := by
  have space := spaceLen_toNat sound
  have le := sound.count_le
  rw [content_length]
  unfold rtRingbufferPut
  by_cases none : rtRingbufferSpaceLen rb = 0
  · have full : rb.size - rb.count = 0 := by rw [← space, none]; rfl
    simp only [if_pos none, full, List.take_zero, List.append_nil]
    exact ⟨sound, Kept.refl rb, trivial, rfl⟩
  · simp only [if_neg none]
    have taken : (bytesAt ptr length.toNat).take (rb.size - rb.count) =
        bytesAt ptr (if rtRingbufferSpaceLen rb < length then rtRingbufferSpaceLen rb else length).toNat := by
      rw [min_toNat, space, bytesAt_take]
    have room : (if rtRingbufferSpaceLen rb < length then rtRingbufferSpaceLen rb else length).toNat ≤
        rb.size - rb.count := by
      rw [min_toNat, space]
      exact Nat.min_le_left _ _
    rw [taken, bytesAt_length]
    generalize (if rtRingbufferSpaceLen rb < length then rtRingbufferSpaceLen rb else length) = length at room ⊢
    by_cases flat : rb.bufferSize - rb.writeIndex > length
    · simp only [if_pos flat]
      have appended := writeFlat_appended ptr sound flat
      obtain ⟨sound', content⟩ := appended.fits sound (by rw [bytesAt_length]; omega)
      exact ⟨sound', appended.kept sound, content, trivial⟩
    · simp only [if_neg flat]
      have appended := writeRound_appended ptr sound flat (by omega)
      obtain ⟨sound', content⟩ := appended.fits sound (by rw [bytesAt_length]; omega)
      exact ⟨sound', appended.kept sound, content, trivial⟩

/-- The last `capacity` bytes of a queue. -/
def newest (capacity : Nat) (q : List UInt8) : List UInt8 := q.drop (q.length - capacity)

theorem newest_short {q : List UInt8} (short : q.length ≤ n) : newest n q = q := by
  rw [newest, Nat.sub_eq_zero_of_le short, List.drop_zero]

theorem newest_append {q : List UInt8} : newest n (q ++ newest n data) = newest n (q ++ data) := by
  rcases Nat.le_total data.length n with short | long
  · rw [newest_short short]
  · have cut : (newest n data).length = n := by
      rw [newest, List.length_drop]
      omega
    have sum : q.length + data.length - n = q.length + (data.length - n) := by omega
    have drops : ∀ (d : List UInt8) k, (q ++ d).drop (q.length + k) = d.drop k := by
      intro d k
      rw [List.drop_append, List.drop_eq_nil_of_le (Nat.le_add_right _ _), List.nil_append, Nat.add_sub_cancel_left]
    calc newest n (q ++ newest n data)
        = (q ++ newest n data).drop (q.length + 0) := by
          rw [newest, List.length_append, cut, Nat.add_sub_cancel, Nat.add_zero]
      _ = data.drop (data.length - n) := drops _ 0
      _ = (q ++ data).drop (q.length + (data.length - n)) := (drops data _).symm
      _ = newest n (q ++ data) := by rw [newest, List.length_append, sum]

theorem Ringbuffer.Appended.newest (appended : Appended rb rb' data) (sound : rb.Sound)
    (le : data.length ≤ rb.size) {last : Ringbuffer} (buffer : last.bufferPtr = rb'.bufferPtr)
    (size : last.size = rb'.size) (write : last.writes = rb'.writes ∧ last.writeMirror = rb'.writeMirror)
    (read : if rb.size < rb.count + data.length then
        last.reads = rb'.writes ∧ last.readMirror = !rb'.writeMirror
      else last.reads = rb'.reads ∧ last.readMirror = rb'.readMirror) :
    last.Sound ∧ Kept rb last ∧ last.content = newest rb.size (rb.content ++ data) := by
  have kept : Kept rb last := by
    have kept := appended.kept sound
    exact ⟨size.trans kept.size, fun a out => by rw [buffer, kept.beyond a out]⟩
  rw [Drivers.newest, List.length_append, content_length]
  by_cases beyond : rb.size < rb.count + data.length
  · rw [if_pos beyond] at read
    obtain ⟨sound', content⟩ := appended.forced sound le beyond buffer size write read
    exact ⟨sound', kept, content⟩
  · rw [if_neg beyond] at read
    have again : Appended rb last data := by
      refine ⟨?_, kept.size, ⟨read.1.trans appended.read.1, read.2.trans appended.read.2⟩, ?_⟩
      · rw [buffer]
        exact appended.written
      · rw [write.1, write.2]
        exact appended.moved
    obtain ⟨sound', content⟩ := again.fits sound (Nat.le_of_not_lt beyond)
    rw [Nat.sub_eq_zero_of_le (Nat.le_of_not_lt beyond), List.drop_zero]
    exact ⟨sound', kept, content⟩

theorem behind_newest {capacity : UInt32} (long : length > capacity) :
    bytesAt (behind ptr (length - capacity)) capacity.toNat = newest capacity.toNat (bytesAt ptr length.toNat) := by
  have less := UInt32.lt_iff_toNat_lt.mp long
  rw [bytesAt_behind, sub_toNat less.le, Nat.sub_add_cancel less.le, newest, bytesAt_length]

theorem force_fifo (sound : rb.Sound) (ptr : Nat → UInt8) (le : length.toNat ≤ rb.size) :
    ∃ last, (if rb.bufferSize - rb.writeIndex > length then
        if length > rtRingbufferSpaceLen rb then
          ({ writeFlat rb ptr length with readIndex := (writeFlat rb ptr length).writeIndex }, length)
        else (writeFlat rb ptr length, length)
      else if length > rtRingbufferSpaceLen rb then
        ({ (if (writeRound rb ptr length).writeIndex ≤ (writeRound rb ptr length).readIndex then
            { writeRound rb ptr length with readMirror := !(writeRound rb ptr length).readMirror }
          else writeRound rb ptr length) with
            readIndex := (if (writeRound rb ptr length).writeIndex ≤ (writeRound rb ptr length).readIndex then
              { writeRound rb ptr length with readMirror := !(writeRound rb ptr length).readMirror }
            else writeRound rb ptr length).writeIndex }, length)
      else (writeRound rb ptr length, length)) = (last, length) ∧
    last.Sound ∧ Kept rb last ∧ last.content = newest rb.size (rb.content ++ bytesAt ptr length.toNat) := by
  have space := spaceLen_toNat sound
  have most := sound.count_le
  have enough : length > rtRingbufferSpaceLen rb ↔ rb.size < rb.count + length.toNat := by
    rw [gt_iff_lt, UInt32.lt_iff_toNat_lt, space]
    omega
  have same : (bytesAt ptr length.toNat).length = length.toNat := bytesAt_length
  by_cases flat : rb.bufferSize - rb.writeIndex > length
  · have appended := writeFlat_appended ptr sound flat
    rw [if_pos flat]
    by_cases beyond : length > rtRingbufferSpaceLen rb
    · rw [if_pos beyond]
      refine ⟨_, rfl, appended.newest sound (by rw [same]; exact le) rfl rfl ⟨rfl, rfl⟩ ?_⟩
      rw [same, if_pos (enough.mp beyond)]
      refine ⟨rfl, ?_⟩
      -- there are bytes in front of the write position to lose, so the writer is one round ahead
      have beyond := enough.mp beyond
      rcases sound.sides with ⟨-, order, count⟩ | ⟨mirror, -, -⟩
      · rcases appended.moved with ⟨short, -, -⟩ | ⟨-, -, side⟩
        · omega
        · have stays : (writeFlat rb ptr length).writeMirror = rb.writeMirror := rfl
          rw [stays] at side
          exact absurd side (by simp)
      · exact Bool.eq_not.mpr mirror
    · rw [if_neg beyond]
      refine ⟨_, rfl, appended.newest sound (by rw [same]; exact le) rfl rfl ⟨rfl, rfl⟩ ?_⟩
      rw [same, if_neg fun more => beyond (enough.mpr more)]
      exact ⟨rfl, rfl⟩
  · have appended := writeRound_appended ptr sound flat le
    rw [if_neg flat]
    by_cases beyond : length > rtRingbufferSpaceLen rb
    · rw [if_pos beyond]
      have order : (writeRound rb ptr length).writeIndex ≤ (writeRound rb ptr length).readIndex ↔
          (writeRound rb ptr length).writes ≤ rb.reads := UInt32.le_iff_toNat_le
      have side : (writeRound rb ptr length).writeMirror = !rb.writeMirror := rfl
      have write := sound.write
      have more := enough.mp beyond
      have place : (writeRound rb ptr length).writes + rb.size = rb.writes + length.toNat := by
        rcases appended.moved with ⟨-, -, other⟩ | ⟨round, place, -⟩
        · exact absurd (side.symm.trans other) (by simp)
        · rw [same] at round place
          omega
      by_cases passed : (writeRound rb ptr length).writeIndex ≤ (writeRound rb ptr length).readIndex
      · rw [if_pos passed]
        refine ⟨_, rfl, appended.newest sound (by rw [same]; exact le) rfl rfl ⟨rfl, rfl⟩ ?_⟩
        rw [same, if_pos more]
        refine ⟨rfl, ?_⟩
        have read : (writeRound rb ptr length).readMirror = rb.readMirror := rfl
        have low := order.mp passed
        rcases sound.sides with ⟨-, order, count⟩ | ⟨mirror, -, -⟩
        · omega
        · rw [side, read, Bool.eq_not.mpr mirror]
      · rw [if_neg passed]
        refine ⟨_, rfl, appended.newest sound (by rw [same]; exact le) rfl rfl ⟨rfl, rfl⟩ ?_⟩
        rw [same, if_pos more]
        refine ⟨rfl, ?_⟩
        have read : (writeRound rb ptr length).readMirror = rb.readMirror := rfl
        rcases sound.sides with ⟨mirror, -, -⟩ | ⟨-, below, -⟩
        · rw [side, read, mirror, Bool.not_not]
        · exact absurd (order.mpr (by omega)) passed
    · rw [if_neg beyond]
      refine ⟨_, rfl, appended.newest sound (by rw [same]; exact le) rfl rfl ⟨rfl, rfl⟩ ?_⟩
      rw [same, if_neg fun more => beyond (enough.mpr more)]
      exact ⟨rfl, rfl⟩

theorem putForce_fifo (sound : rb.Sound) (ptr : Nat → UInt8) (length : UInt32) :
    (rtRingbufferPutForce rb ptr length).1.Sound ∧ Kept rb (rtRingbufferPutForce rb ptr length).1 ∧
      (rtRingbufferPutForce rb ptr length).1.content =
        newest rb.size (rb.content ++ bytesAt ptr length.toNat) ∧
      (rtRingbufferPutForce rb ptr length).2.toNat = min length.toNat rb.size := by
  unfold rtRingbufferPutForce
  by_cases long : length > rb.bufferSize
  · have less : rb.size < length.toNat := UInt32.lt_iff_toNat_lt.mp long
    obtain ⟨last, code, sound', kept, content⟩ :=
      force_fifo sound (behind ptr (length - rb.bufferSize)) (Nat.le_refl rb.bufferSize.toNat)
    simp only [if_pos long]
    rw [code]
    refine ⟨sound', kept, ?_, (Nat.min_eq_right less.le).symm⟩
    rw [content, behind_newest long]
    exact newest_append
  · have short : length.toNat ≤ rb.size := Nat.le_of_not_lt fun less => long (UInt32.lt_iff_toNat_lt.mpr less)
    obtain ⟨last, code, sound', kept, content⟩ := force_fifo sound ptr short
    simp only [if_neg long]
    rw [code]
    exact ⟨sound', kept, content, (Nat.min_eq_left short).symm⟩

/-! ## One byte -/

theorem last_iff (sound : rb.Sound) (index : UInt32) : index = rb.bufferSize - 1 ↔ index.toNat + 1 = rb.size := by
  have write := sound.write
  have one : (rb.bufferSize - 1).toNat = rb.size - 1 := by
    apply sub_toNat
    have size : rb.bufferSize.toNat = rb.size := rfl
    have unit : (1 : UInt32).toNat = 1 := rfl
    omega
  rw [← UInt32.toNat_inj, one]
  omega

theorem next_toNat (sound : rb.Sound) {index : UInt32} (less : index.toNat + 1 < rb.size) :
    (field31 (index + 1)).toNat = index.toNat + 1 := by
  have small := sound.small
  have unit : (1 : UInt32).toNat = 1 := rfl
  have sum : (index + 1).toNat = index.toNat + 1 := by
    rw [add_toNat (by omega), unit]
  rw [field31_toNat (by omega), sum]

theorem storeChar_appended (sound : rb.Sound) (ch : UInt8) (buffer : rb'.bufferPtr = (storeChar rb ch).bufferPtr)
    (size : rb'.size = rb.size) (read : rb'.reads = rb.reads ∧ rb'.readMirror = rb.readMirror)
    (moved : rb.writes + 1 < rb.size ∧ rb'.writes = rb.writes + 1 ∧ rb'.writeMirror = rb.writeMirror ∨
      rb.writes + 1 = rb.size ∧ rb'.writes = 0 ∧ rb'.writeMirror = !rb.writeMirror) :
    Appended rb rb' [ch] := by
  have stored : ∀ a, rb'.bufferPtr a = if a = rb.writes then ch else rb.bufferPtr a := by
    intro a
    rw [buffer]
    rfl
  refine ⟨⟨?_, ?_⟩, size, read, ?_⟩
  · intro i inside
    obtain rfl : i = 0 := by simpa using inside
    rw [Nat.add_zero, Nat.mod_eq_of_lt sound.write, stored, if_pos rfl]
    rfl
  · intro a out
    have other := out 0 (by simp)
    rw [Nat.add_zero, Nat.mod_eq_of_lt sound.write] at other
    rw [stored, if_neg other.symm]
  · rw [List.length_singleton]
    rcases moved with ⟨short, place, side⟩ | ⟨ends, place, side⟩
    · exact Or.inl ⟨short, place, side⟩
    · exact Or.inr ⟨by omega, by omega, side⟩

theorem putchar_fifo (sound : rb.Sound) (ch : UInt8) :
    (rtRingbufferPutchar rb ch).1.Sound ∧ Kept rb (rtRingbufferPutchar rb ch).1 ∧
      (rtRingbufferPutchar rb ch).1.content = rb.content ++ [ch].take (rb.size - rb.content.length) ∧
      (rtRingbufferPutchar rb ch).2.toNat = ([ch].take (rb.size - rb.content.length)).length := by
  have space := spaceLen_toNat sound
  have write := sound.write
  rw [content_length]
  unfold rtRingbufferPutchar
  by_cases none : rtRingbufferSpaceLen rb = 0
  · have full : rb.size - rb.count = 0 := by rw [← space, none]; rfl
    simp only [if_pos none, full, List.take_zero, List.append_nil]
    exact ⟨sound, Kept.refl rb, trivial, rfl⟩
  · have room : rb.size - rb.count ≠ 0 := by
      rw [← space]
      exact fun zero => none (eq_zero_iff.mpr zero)
    have whole : [ch].take (rb.size - rb.count) = [ch] := List.take_of_length_le (by simp; omega)
    have same : (storeChar rb ch).writeIndex = rb.writeIndex ∧ (storeChar rb ch).bufferSize = rb.bufferSize :=
      ⟨rfl, rfl⟩
    simp only [if_neg none, whole, same]
    by_cases last : rb.writeIndex = rb.bufferSize - 1
    · simp only [if_pos last]
      have appended : Appended rb { storeChar rb ch with writeMirror := !rb.writeMirror, writeIndex := 0 } [ch] :=
        storeChar_appended sound ch rfl rfl ⟨rfl, rfl⟩ (Or.inr ⟨(last_iff sound _).mp last, rfl, rfl⟩)
      obtain ⟨sound', content⟩ := appended.fits sound (by simp; omega)
      exact ⟨sound', appended.kept sound, content, rfl⟩
    · simp only [if_neg last]
      have short : rb.writes + 1 < rb.size := by
        have other : rb.writes + 1 ≠ rb.size := fun ends => last ((last_iff sound _).mpr ends)
        omega
      have appended : Appended rb { storeChar rb ch with writeIndex := field31 (rb.writeIndex + 1) } [ch] :=
        storeChar_appended sound ch rfl rfl ⟨rfl, rfl⟩ (Or.inl ⟨short, next_toNat sound short, rfl⟩)
      obtain ⟨sound', content⟩ := appended.fits sound (by simp; omega)
      exact ⟨sound', appended.kept sound, content, rfl⟩

theorem status_full (sound : rb.Sound) : rtRingbufferStatus rb = .full ↔ rb.count = rb.size := by
  have write := sound.write
  have read := sound.read
  have index : rb.readIndex = rb.writeIndex ↔ rb.reads = rb.writes := UInt32.toNat_inj.symm
  unfold rtRingbufferStatus
  by_cases same : rb.readIndex = rb.writeIndex
  · have equal := index.mp same
    rw [if_pos same]
    rcases sound.sides with ⟨mirror, order, count⟩ | ⟨mirror, order, count⟩
    · rw [if_pos mirror]
      simp only [reduceCtorEq, false_iff]
      omega
    · rw [if_neg mirror]
      simp only [true_iff]
      omega
  · have apart : rb.reads ≠ rb.writes := fun equal => same (index.mpr equal)
    rw [if_neg same]
    simp only [reduceCtorEq, false_iff]
    rcases sound.sides with ⟨mirror, order, count⟩ | ⟨mirror, order, count⟩ <;> omega

theorem Ringbuffer.Appended.newest_char {ch : UInt8} (appended : Appended rb rb' [ch]) (sound : rb.Sound)
    (last : Ringbuffer) (buffer : last.bufferPtr = rb'.bufferPtr) (size : last.size = rb'.size)
    (write : last.writes = rb'.writes ∧ last.writeMirror = rb'.writeMirror)
    (read : if rtRingbufferStatus rb = .full then
        last.reads = rb'.writes ∧ last.readMirror = !rb'.writeMirror
      else last.reads = rb'.reads ∧ last.readMirror = rb'.readMirror) :
    last.Sound ∧ Kept rb last ∧ last.content = Drivers.newest rb.size (rb.content ++ [ch]) := by
  have positive := sound.write
  have most := sound.count_le
  apply appended.newest sound _ buffer size write
  · rw [List.length_singleton]
    by_cases state : rtRingbufferStatus rb = .full
    · rw [if_pos state] at read
      have all := (status_full sound).mp state
      rwa [if_pos (by omega)]
    · rw [if_neg state] at read
      have short : rb.count ≠ rb.size := fun all => state ((status_full sound).mpr all)
      rwa [if_neg (by omega)]
  · rw [List.length_singleton]
    omega

theorem putcharForce_fifo (sound : rb.Sound) (ch : UInt8) :
    (rtRingbufferPutcharForce rb ch).1.Sound ∧ Kept rb (rtRingbufferPutcharForce rb ch).1 ∧
      (rtRingbufferPutcharForce rb ch).1.content = newest rb.size (rb.content ++ [ch]) ∧
      (rtRingbufferPutcharForce rb ch).2 = 1 := by
  have write := sound.write
  have same : (storeChar rb ch).writeIndex = rb.writeIndex ∧ (storeChar rb ch).bufferSize = rb.bufferSize ∧
      (storeChar rb ch).writeMirror = rb.writeMirror ∧ (storeChar rb ch).readMirror = rb.readMirror :=
    ⟨rfl, rfl, rfl, rfl⟩
  -- a full buffer has the writer one round ahead
  have ahead : rtRingbufferStatus rb = .full → rb.readMirror = !rb.writeMirror := by
    intro state
    have all := (status_full sound).mp state
    rcases sound.sides with ⟨-, order, count⟩ | ⟨mirror, -, -⟩
    · omega
    · exact Bool.eq_not.mpr mirror
  unfold rtRingbufferPutcharForce
  simp only [same]
  by_cases last : rb.writeIndex = rb.bufferSize - 1
  · simp only [if_pos last]
    have appended : Appended rb { storeChar rb ch with writeMirror := !rb.writeMirror, writeIndex := 0 } [ch] :=
      storeChar_appended sound ch rfl rfl ⟨rfl, rfl⟩ (Or.inr ⟨(last_iff sound _).mp last, rfl, rfl⟩)
    by_cases state : rtRingbufferStatus rb = .full
    · simp only [if_pos state, and_true]
      refine appended.newest_char sound _ ?_ ?_ ?_ ?_ <;> try exact rfl
      · exact ⟨rfl, rfl⟩
      · rw [if_pos state]
        exact ⟨rfl, by simp [ahead state]⟩
    · simp only [if_neg state, and_true]
      refine appended.newest_char sound _ ?_ ?_ ?_ ?_ <;> try exact rfl
      · exact ⟨rfl, rfl⟩
      · rw [if_neg state]
        exact ⟨rfl, rfl⟩
  · simp only [if_neg last]
    have short : rb.writes + 1 < rb.size := by
      have other : rb.writes + 1 ≠ rb.size := fun ends => last ((last_iff sound _).mpr ends)
      omega
    have appended : Appended rb { storeChar rb ch with writeIndex := field31 (rb.writeIndex + 1) } [ch] :=
      storeChar_appended sound ch rfl rfl ⟨rfl, rfl⟩ (Or.inl ⟨short, next_toNat sound short, rfl⟩)
    by_cases state : rtRingbufferStatus rb = .full
    · simp only [if_pos state, and_true]
      refine appended.newest_char sound _ ?_ ?_ ?_ ?_ <;> try exact rfl
      · exact ⟨rfl, rfl⟩
      · rw [if_pos state]
        exact ⟨rfl, ahead state⟩
    · simp only [if_neg state, and_true]
      refine appended.newest_char sound _ ?_ ?_ ?_ ?_ <;> try exact rfl
      · exact ⟨rfl, rfl⟩
      · rw [if_neg state]
        exact ⟨rfl, rfl⟩

/-! ## Reading -/

theorem content_take (le : n ≤ rb.count) : rb.content.take n = window rb.bufferPtr rb.size rb.reads n :=
  window_take le

theorem bytesAt_eq_window (same : ∀ i < n, ptr i = rb.bufferPtr ((rb.reads + i) % rb.size)) :
    bytesAt ptr n = window rb.bufferPtr rb.size rb.reads n :=
  List.map_congr_left fun i inside => same i (List.mem_range.mp inside)

theorem get_fifo (sound : rb.Sound) (ptr : Nat → UInt8) (length : UInt32) :
    (rtRingbufferGet rb ptr length).1.Sound ∧ Kept rb (rtRingbufferGet rb ptr length).1 ∧
      (rtRingbufferGet rb ptr length).1.content = rb.content.drop length.toNat ∧
      (rtRingbufferGet rb ptr length).2.2.toNat = (rb.content.take length.toNat).length ∧
      bytesAt (rtRingbufferGet rb ptr length).2.1 (rtRingbufferGet rb ptr length).2.2.toNat =
        rb.content.take length.toNat := by
  have held := dataLen_toNat sound
  have most := sound.count_le
  have small := sound.small
  have read := sound.read
  have all : rb.content.length = rb.count := content_length
  unfold rtRingbufferGet
  by_cases none : rtRingbufferDataLen rb = 0
  · have empty : rb.content = [] := List.eq_nil_of_length_eq_zero (by rw [all, ← held, none]; rfl)
    simp only [if_pos none, empty, List.drop_nil, List.take_nil]
    exact ⟨sound, Kept.refl rb, trivial, rfl, rfl⟩
  · simp only [if_neg none]
    have bound : (if rtRingbufferDataLen rb < length then rtRingbufferDataLen rb else length).toNat =
        min rb.count length.toNat := by rw [min_toNat, held]
    have drops : rb.content.drop length.toNat = rb.content.drop (min rb.count length.toNat) := by
      rcases Nat.le_total rb.count length.toNat with less | more
      · rw [Nat.min_eq_left less, List.drop_eq_nil_of_le (by omega), List.drop_eq_nil_of_le (by omega)]
      · rw [Nat.min_eq_right more]
    have takes : rb.content.take length.toNat = rb.content.take (min rb.count length.toNat) := by
      rcases Nat.le_total rb.count length.toNat with less | more
      · rw [Nat.min_eq_left less, List.take_of_length_le (by omega), List.take_of_length_le (by omega)]
      · rw [Nat.min_eq_right more]
    have le : min rb.count length.toNat ≤ rb.count := Nat.min_le_left _ _
    rw [drops, takes]
    generalize (if rtRingbufferDataLen rb < length then rtRingbufferDataLen rb else length) = taken at bound ⊢
    rw [← bound] at le ⊢
    have count : (rb.content.take taken.toNat).length = taken.toNat := by
      rw [List.length_take, all]
      omega
    rw [count, content_take le]
    by_cases flat : rb.bufferSize - rb.readIndex > taken
    · simp only [if_pos flat, true_and]
      have gap : taken.toNat < rb.size - rb.reads := by
        rw [← sound.left_toNat]
        exact UInt32.lt_iff_toNat_lt.mp flat
      have place : (rb.readIndex + taken).toNat = rb.reads + taken.toNat := by
        apply add_toNat
        have same : rb.readIndex.toNat = rb.reads := rfl
        omega
      have removed : Removed rb { rb with readIndex := field31 (rb.readIndex + taken) } taken.toNat := by
        refine ⟨rfl, rfl, ⟨rfl, rfl⟩, Or.inl ⟨by omega, ?_, rfl⟩⟩
        rw [← place]
        apply field31_toNat
        omega
      obtain ⟨sound', content⟩ := removed.content sound le
      refine ⟨sound', removed.kept, content, bytesAt_eq_window fun i inside => ?_⟩
      rw [Nat.mod_eq_of_lt (by omega)]
      exact if_pos ⟨Nat.zero_le _, by omega⟩
    · simp only [if_neg flat, true_and]
      have gap : rb.size - rb.reads ≤ taken.toNat := by
        rw [← sound.left_toNat]
        exact Nat.le_of_not_lt fun less => flat (UInt32.lt_iff_toNat_lt.mpr less)
      have tail : (taken - (rb.bufferSize - rb.readIndex)).toNat = taken.toNat - (rb.size - rb.reads) := by
        rw [sub_toNat (by rw [sound.left_toNat]; exact gap), sound.left_toNat]
      have removed : Removed rb { rb with
          readMirror := !rb.readMirror
          readIndex := field31 (taken - (rb.bufferSize - rb.readIndex)) } taken.toNat := by
        refine ⟨rfl, rfl, ⟨rfl, rfl⟩, Or.inr ⟨by omega, ?_, rfl⟩⟩
        have moved : (field31 (taken - (rb.bufferSize - rb.readIndex))).toNat = taken.toNat - (rb.size - rb.reads) := by
          rw [field31_toNat (by omega), tail]
        have place : taken.toNat - (rb.size - rb.reads) = rb.reads + taken.toNat - rb.size := by omega
        rw [← place, ← moved]
        rfl
      obtain ⟨sound', content⟩ := removed.content sound le
      refine ⟨sound', removed.kept, content, bytesAt_eq_window fun i inside => ?_⟩
      have start : rb.readIndex.toNat = rb.reads := rfl
      simp only [rtMemcpy, behind, tail, sound.left_toNat, start, Nat.zero_le, true_and, Nat.zero_add, Nat.sub_zero]
      by_cases first : i < rb.size - rb.reads
      · rw [if_neg (by omega), if_pos first, Nat.mod_eq_of_lt (by omega)]
      · rw [if_pos (by omega), Nat.mod_eq_sub_mod (by omega), Nat.mod_eq_of_lt (by omega)]
        congr 1
        omega

theorem getchar_fifo (sound : rb.Sound) (ch : UInt8) :
    (rtRingbufferGetchar rb ch).1.Sound ∧ Kept rb (rtRingbufferGetchar rb ch).1 ∧
      (rtRingbufferGetchar rb ch).1.content = rb.content.drop 1 ∧
      (rtRingbufferGetchar rb ch).2.2.toNat = (rb.content.take 1).length ∧
      [(rtRingbufferGetchar rb ch).2.1].take (rtRingbufferGetchar rb ch).2.2.toNat = rb.content.take 1 := by
  have held := dataLen_toNat sound
  have read := sound.read
  have all : rb.content.length = rb.count := content_length
  unfold rtRingbufferGetchar
  by_cases none : rtRingbufferDataLen rb = 0
  · have empty : rb.content = [] := List.eq_nil_of_length_eq_zero (by rw [all, ← held, none]; rfl)
    simp only [if_pos none, empty, List.drop_nil, List.take_nil]
    exact ⟨sound, Kept.refl rb, trivial, rfl, rfl⟩
  · have some : 1 ≤ rb.count := by
      rw [← held]
      exact Nat.pos_of_ne_zero fun zero => none (eq_zero_iff.mpr zero)
    have first : rb.content.take 1 = [rb.bufferPtr rb.readIndex.toNat] := by
      rw [content_take some]
      simp only [window, List.range_one, List.map_cons, List.map_nil, Nat.add_zero, Nat.mod_eq_of_lt read]
      rfl
    simp only [if_neg none, first]
    by_cases last : rb.readIndex = rb.bufferSize - 1
    · simp only [if_pos last]
      have ends : rb.reads + 1 = rb.size := (last_iff sound _).mp last
      have removed : Removed rb { rb with readMirror := !rb.readMirror, readIndex := 0 } 1 := by
        refine ⟨rfl, rfl, ⟨rfl, rfl⟩, Or.inr ⟨by omega, ?_, rfl⟩⟩
        rw [ends, Nat.sub_self]
        rfl
      obtain ⟨sound', content⟩ := removed.content sound some
      exact ⟨sound', removed.kept, content, rfl, rfl⟩
    · simp only [if_neg last]
      have short : rb.reads + 1 < rb.size := by
        have other : rb.reads + 1 ≠ rb.size := fun ends => last ((last_iff sound _).mpr ends)
        omega
      have removed : Removed rb { rb with readIndex := field31 (rb.readIndex + 1) } 1 :=
        ⟨rfl, rfl, ⟨rfl, rfl⟩, Or.inl ⟨short, next_toNat sound short, rfl⟩⟩
      obtain ⟨sound', content⟩ := removed.content sound some
      exact ⟨sound', removed.kept, content, rfl, rfl⟩

/-- What `peek` points at. -/
def exposed (rb : Ringbuffer) : Option UInt32 → UInt32 → List UInt8
  | none, _ => []
  | some index, size => bytesAt (behind rb.bufferPtr index) size.toNat

theorem peek_fifo (sound : rb.Sound) :
    (rtRingbufferPeek rb).1.Sound ∧ Kept rb (rtRingbufferPeek rb).1 ∧
      (rtRingbufferPeek rb).1.content = rb.content.drop (rb.size - rb.reads) ∧
      (rtRingbufferPeek rb).2.2.toNat = (rb.content.take (rb.size - rb.reads)).length ∧
      exposed (rtRingbufferPeek rb).1 (rtRingbufferPeek rb).2.1 (rtRingbufferPeek rb).2.2 =
        rb.content.take (rb.size - rb.reads) := by
  have held := dataLen_toNat sound
  have most := sound.count_le
  have small := sound.small
  have read := sound.read
  have all : rb.content.length = rb.count := content_length
  have start : rb.readIndex.toNat = rb.reads := rfl
  unfold rtRingbufferPeek
  by_cases none : rtRingbufferDataLen rb = 0
  · have empty : rb.content = [] := List.eq_nil_of_length_eq_zero (by rw [all, ← held, none]; rfl)
    simp only [if_pos none, empty, List.drop_nil, List.take_nil]
    exact ⟨sound, Kept.refl rb, trivial, rfl, rfl⟩
  · simp only [if_neg none]
    by_cases flat : rb.bufferSize - rb.readIndex > rtRingbufferDataLen rb
    · have gap : rb.count < rb.size - rb.reads := by
        rw [← held, ← sound.left_toNat]
        exact UInt32.lt_iff_toNat_lt.mp flat
      have place : (rb.readIndex + rtRingbufferDataLen rb).toNat = rb.reads + rb.count := by
        rw [add_toNat (by omega), held, start]
      have removed : Removed rb { rb with readIndex := field31 (rb.readIndex + rtRingbufferDataLen rb) } rb.count := by
        refine ⟨rfl, rfl, ⟨rfl, rfl⟩, Or.inl ⟨by omega, ?_, rfl⟩⟩
        rw [← place]
        apply field31_toNat
        omega
      obtain ⟨sound', content⟩ := removed.content sound (Nat.le_refl _)
      simp only [if_pos flat]
      rw [List.take_of_length_le (by omega), List.drop_eq_nil_of_le (by omega), all]
      refine ⟨sound', removed.kept, ?_, held, ?_⟩
      · rw [content, List.drop_eq_nil_of_le (by omega)]
      · rw [exposed, held, Ringbuffer.content]
        apply bytesAt_eq_window
        intro i inside
        rw [Nat.mod_eq_of_lt (by omega)]
        rfl
    · have gap : rb.size - rb.reads ≤ rb.count := by
        rw [← held, ← sound.left_toNat]
        exact Nat.le_of_not_lt fun less => flat (UInt32.lt_iff_toNat_lt.mpr less)
      have removed : Removed rb { rb with readMirror := !rb.readMirror, readIndex := 0 } (rb.size - rb.reads) := by
        refine ⟨rfl, rfl, ⟨rfl, rfl⟩, Or.inr ⟨by omega, ?_, rfl⟩⟩
        have whole : rb.reads + (rb.size - rb.reads) - rb.size = 0 := by omega
        rw [whole]
        rfl
      obtain ⟨sound', content⟩ := removed.content sound gap
      simp only [if_neg flat]
      refine ⟨sound', removed.kept, content, ?_, ?_⟩
      · rw [sound.left_toNat, List.length_take, all]
        omega
      · rw [exposed, sound.left_toNat, content_take gap]
        apply bytesAt_eq_window
        intro i inside
        rw [Nat.mod_eq_of_lt (by omega)]
        rfl

/-! ## Runs -/

inductive RingCall where
  | put (ptr : Nat → UInt8) (length : UInt32)
  | putForce (ptr : Nat → UInt8) (length : UInt32)
  | putchar (ch : UInt8)
  | putcharForce (ch : UInt8)
  | get (ptr : Nat → UInt8) (length : UInt32)
  | getchar (ch : UInt8)
  | peek
  | reset

/-- The buffer after a call, the value that is returned, and the bytes that the caller receives. -/
def ringPerform (rb : Ringbuffer) : RingCall → Ringbuffer × Nat × List UInt8
  | .put ptr length => let (rb, value) := rtRingbufferPut rb ptr length; (rb, value.toNat, [])
  | .putForce ptr length => let (rb, value) := rtRingbufferPutForce rb ptr length; (rb, value.toNat, [])
  | .putchar ch => let (rb, value) := rtRingbufferPutchar rb ch; (rb, value.toNat, [])
  | .putcharForce ch => let (rb, value) := rtRingbufferPutcharForce rb ch; (rb, value.toNat, [])
  | .get ptr length =>
    let (rb, ptr, value) := rtRingbufferGet rb ptr length
    (rb, value.toNat, bytesAt ptr value.toNat)
  | .getchar ch =>
    let (rb, ch, value) := rtRingbufferGetchar rb ch
    (rb, value.toNat, [ch].take value.toNat)
  | .peek =>
    let (rb, ptr, value) := rtRingbufferPeek rb
    (rb, value.toNat, exposed rb ptr value)
  | .reset => (rtRingbufferReset rb, 0, [])

/-- The same calls on a queue of at most `capacity` bytes. Its first byte is `ahead` bytes in front of the end
of the buffer, which only `peek` depends on. -/
def fifoPerform (capacity ahead : Nat) (q : List UInt8) : RingCall → List UInt8 × Nat × List UInt8
  | .put ptr length =>
    let fits := (bytesAt ptr length.toNat).take (capacity - q.length)
    (q ++ fits, fits.length, [])
  | .putForce ptr length => (newest capacity (q ++ bytesAt ptr length.toNat), min length.toNat capacity, [])
  | .putchar ch =>
    let fits := [ch].take (capacity - q.length)
    (q ++ fits, fits.length, [])
  | .putcharForce ch => (newest capacity (q ++ [ch]), 1, [])
  | .get _ length => (q.drop length.toNat, (q.take length.toNat).length, q.take length.toNat)
  | .getchar _ => (q.drop 1, (q.take 1).length, q.take 1)
  | .peek => (q.drop ahead, (q.take ahead).length, q.take ahead)
  | .reset => ([], 0, [])

theorem reset_fifo (sound : rb.Sound) : (rtRingbufferReset rb).Sound ∧ Kept rb (rtRingbufferReset rb) ∧
    (rtRingbufferReset rb).content = [] := by
  have positive : 0 < rb.size := Nat.zero_lt_of_lt sound.write
  obtain ⟨sound', count⟩ : (rtRingbufferReset rb).Sound ∧ (rtRingbufferReset rb).count = 0 :=
    Sound.of_sides sound.small positive positive (Or.inl ⟨rfl, rfl⟩)
  refine ⟨sound', ⟨rfl, fun _ _ => rfl⟩, ?_⟩
  rw [Ringbuffer.content, count, window_zero]

theorem ringPerform_fifo (sound : rb.Sound) (call : RingCall) :
    (ringPerform rb call).1.Sound ∧ Kept rb (ringPerform rb call).1 ∧
      ((ringPerform rb call).1.content, (ringPerform rb call).2) =
        fifoPerform rb.size (rb.size - rb.reads) rb.content call := by
  cases call with
  | put ptr length =>
    obtain ⟨sound', kept, content, value⟩ := put_fifo sound ptr length
    refine ⟨sound', kept, ?_⟩
    simp only [ringPerform, fifoPerform, content, value]
  | putForce ptr length =>
    obtain ⟨sound', kept, content, value⟩ := putForce_fifo sound ptr length
    refine ⟨sound', kept, ?_⟩
    simp only [ringPerform, fifoPerform, content, value]
  | putchar ch =>
    obtain ⟨sound', kept, content, value⟩ := putchar_fifo sound ch
    refine ⟨sound', kept, ?_⟩
    simp only [ringPerform, fifoPerform, content, value]
  | putcharForce ch =>
    obtain ⟨sound', kept, content, value⟩ := putcharForce_fifo sound ch
    refine ⟨sound', kept, ?_⟩
    simp only [ringPerform, fifoPerform, content, value]
    rfl
  | get ptr length =>
    obtain ⟨sound', kept, content, value, bytes⟩ := get_fifo sound ptr length
    refine ⟨sound', kept, ?_⟩
    simp only [ringPerform, fifoPerform, content, bytes]
    rw [value]
  | getchar ch =>
    obtain ⟨sound', kept, content, value, bytes⟩ := getchar_fifo sound ch
    refine ⟨sound', kept, ?_⟩
    simp only [ringPerform, fifoPerform, content, bytes]
    rw [value]
  | peek =>
    obtain ⟨sound', kept, content, value, bytes⟩ := peek_fifo sound
    refine ⟨sound', kept, ?_⟩
    simp only [ringPerform, fifoPerform, content, value, bytes]
  | reset =>
    obtain ⟨sound', kept, content⟩ := reset_fifo sound
    refine ⟨sound', kept, ?_⟩
    simp only [ringPerform, fifoPerform, content]

def ringRun (rb : Ringbuffer) (calls : List RingCall) : Ringbuffer :=
  calls.foldl (fun rb call => (ringPerform rb call).1) rb

theorem ringRun_sound (sound : rb.Sound) (calls : List RingCall) : (ringRun rb calls).Sound ∧ Kept rb (ringRun rb calls) := by
  induction calls generalizing rb with
  | nil => exact ⟨sound, Kept.refl rb⟩
  | cons call calls ih =>
    obtain ⟨sound', kept, -⟩ := ringPerform_fifo sound call
    obtain ⟨sound'', kept'⟩ := ih sound'
    refine ⟨sound'', kept'.size.trans kept.size, fun a out => ?_⟩
    exact (kept'.beyond a (by rw [kept.size]; exact out)).trans (kept.beyond a out)

theorem rtRingbufferInit_sound (pool : Nat → UInt8) {size : UInt32} (least : Mem.Config.board.alignSize ≤ size.toNat)
    (most : size.toNat < 2 ^ 31) : (rtRingbufferInit pool size).Sound ∧ (rtRingbufferInit pool size).content = [] ∧
      (rtRingbufferInit pool size).size = Mem.Config.board.rtAlignDown size.toNat := by
  have word : size.toNat < Mem.Config.board.word := size.toNat_lt
  have down : Mem.Config.board.rtAlignDown size.toNat = size.toNat / 8 * 8 := by
    rw [Mem.Config.rtAlignDown, Mem.Config.board.mask_eq _ word]
    rfl
  have align : (8 : Nat) ≤ size.toNat := least
  have same : (rtRingbufferInit pool size).size = Mem.Config.board.rtAlignDown size.toNat :=
    UInt32.toNat_ofNat_of_lt' (by rw [down]; exact Nat.lt_of_le_of_lt (Nat.div_mul_le_self _ _) size.toNat_lt)
  have positive : 0 < (rtRingbufferInit pool size).size := by omega
  obtain ⟨sound, count⟩ : (rtRingbufferInit pool size).Sound ∧ (rtRingbufferInit pool size).count = 0 :=
    Sound.of_sides (by omega) positive positive (Or.inl ⟨rfl, rfl⟩)
  refine ⟨sound, ?_, same⟩
  rw [Ringbuffer.content, count, window_zero]

/-- In every state that a run reaches, both indices lie in the buffer, `data_len` is the length of its content,
memory behind the pool is untouched, and every call does to the content what it does to a bounded queue. -/
theorem ringbuffer_fifo (pool : Nat → UInt8) (size : UInt32) (least : Mem.Config.board.alignSize ≤ size.toNat)
    (most : size.toNat < 2 ^ 31) (calls : List RingCall) :
    (rtRingbufferInit pool size).content = [] ∧
      ∃ rb, rb = ringRun (rtRingbufferInit pool size) calls ∧
        rb.size = Mem.Config.board.rtAlignDown size.toNat ∧ rb.reads < rb.size ∧ rb.writes < rb.size ∧
        (rtRingbufferDataLen rb).toNat = rb.content.length ∧ (∀ a, rb.size ≤ a → rb.bufferPtr a = pool a) ∧
        ∀ call, ((ringPerform rb call).1.content, (ringPerform rb call).2) =
          fifoPerform rb.size (rb.size - rb.reads) rb.content call := by
  obtain ⟨sound, empty, capacity⟩ := rtRingbufferInit_sound pool least most
  obtain ⟨sound', kept⟩ := ringRun_sound sound calls
  refine ⟨empty, _, rfl, kept.size.trans capacity, sound'.read, sound'.write, ?_, ?_, ?_⟩
  · rw [content_length, dataLen_toNat sound']
  · intro a out
    exact kept.beyond a (by rw [← kept.size]; exact out)
  · exact fun call => (ringPerform_fifo sound' call).2.2

theorem ringbuffer_fifo_eight : (rtRingbufferInit (fun _ => 0) 9).content = [] ∧
    (ringPerform (rtRingbufferInit (fun _ => 0) 9) (.putForce UInt8.ofNat 10)).1.content =
      [2, 3, 4, 5, 6, 7, 8, 9] := by
  obtain ⟨empty, rb, made, size, -, -, -, -, step⟩ := ringbuffer_fifo (fun _ => 0) 9 (by decide) (by decide) []
  have same : rb = rtRingbufferInit (fun _ => 0) 9 := made
  have law := congrArg Prod.fst (step (.putForce UInt8.ofNat 10))
  rw [size, same, empty] at law
  exact ⟨empty, law.trans (by decide)⟩

end RtThread.Drivers
