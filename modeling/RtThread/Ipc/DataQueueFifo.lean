import RtThread.Ipc.DataQueue
import RtThread.Lib.Deque
import RtThread.Lib.RingBuffer
import RtThread.Lib.Transition

/-! A data queue of up to 32768 items is a bounded queue, whatever calls, wake-ups and timeouts come in whatever
order. A larger one is not: its indices have 15 bits. -/

set_option autoImplicit false
namespace RtThread.Ipc
open Lib

namespace DataQueue

def count (q : DataQueue) : Nat :=
  if q.isFull then q.size.toNat
  else if q.isEmpty then 0
  else (q.putIndex.toNat + q.size.toNat - q.getIndex.toNat) % q.size.toNat

def ring (q : DataQueue) : RingBuffer DataItem where
  slot := q.queue
  size := q.size.toNat
  entry := q.count
  into := q.putIndex.toNat
  out := q.getIndex.toNat

def queued (q : DataQueue) : List DataItem := q.ring.contents

structure Sound (q : DataQueue) : Prop where
  small : q.size.toNat ≤ 32768
  ring : q.ring.WellFormed
  full : q.isFull = true ↔ q.count = q.size.toNat
  empty : q.isEmpty = true ↔ q.count = 0

variable {q : DataQueue} {n : Nat}

theorem mod_around {out size : Nat} (inside : out < size) (less : n < size) :
    ((out + n) % size + size - out) % size = n := by
  rcases Nat.lt_or_ge (out + n) size with flat | beyond
  · have same : out + n + size - out = n + size := by omega
    rw [Nat.mod_eq_of_lt flat, same, Nat.add_mod_right, Nat.mod_eq_of_lt less]
  · have same : out + n - size + size - out = n := by omega
    rw [Nat.mod_eq_sub_mod beyond, Nat.mod_eq_of_lt (show out + n - size < size by omega), same, Nat.mod_eq_of_lt less]

theorem Sound.of_count (small : q.size.toNat ≤ 32768) (room : n ≤ q.size.toNat) (out : q.getIndex.toNat < q.size.toNat)
    (into : q.putIndex.toNat = (q.getIndex.toNat + n) % q.size.toNat) (full : q.isFull = true ↔ n = q.size.toNat)
    (empty : q.isEmpty = true ↔ n = 0) : q.Sound ∧ q.count = n := by
  have count : q.count = n := by
    rw [DataQueue.count]
    by_cases whole : n = q.size.toNat
    · rw [if_pos (full.mpr whole), whole]
    · rw [if_neg (fun flag => whole (full.mp flag))]
      by_cases none : n = 0
      · rw [if_pos (empty.mpr none), none]
      · rw [if_neg (fun flag => none (empty.mp flag)), into]
        exact mod_around out (Nat.lt_of_le_of_ne room whole)
  refine ⟨⟨small, ⟨?_, out, ?_⟩, ?_, ?_⟩, count⟩
  · exact Nat.le_trans (Nat.le_of_eq count) room
  · exact into.trans (by rw [← count]; rfl)
  · rw [count]
    exact full
  · rw [count]
    exact empty

theorem nextIndex_toNat {size index : UInt16} (small : size.toNat ≤ 32768) (inside : index.toNat < size.toNat) :
    (nextIndex size index).toNat = (index.toNat + 1) % size.toNat := by
  have next : (index + 1).toNat = index.toNat + 1 := uint16_succ inside
  have field : (field15 (index + 1)).toNat = (index.toNat + 1) % 32768 := by
    rw [field15, UInt16.toNat_mod, next]
    rfl
  rw [nextIndex]
  by_cases wrapped : field15 (index + 1) = size
  · rw [if_pos wrapped]
    have same : (index.toNat + 1) % 32768 = size.toNat := field.symm.trans (congrArg UInt16.toNat wrapped)
    have last : index.toNat + 1 = size.toNat := by omega
    rw [last, Nat.mod_self]
    rfl
  · rw [if_neg wrapped, field]
    have differ : (index.toNat + 1) % 32768 ≠ size.toNat := by
      intro same
      exact wrapped (UInt16.toNat.inj (field.trans same))
    rcases Nat.lt_or_ge (index.toNat + 1) size.toNat with less | last
    · rw [Nat.mod_eq_of_lt less, Nat.mod_eq_of_lt (by omega)]
    · -- the field ends where the queue does
      have whole : index.toNat + 1 = 32768 := by omega
      have same : size.toNat = 32768 := by omega
      rw [whole, same]

variable (sound : q.Sound)
include sound

theorem Sound.positive : 0 < q.size.toNat := Nat.zero_lt_of_lt sound.ring.out

theorem Sound.out : q.getIndex.toNat < q.size.toNat := sound.ring.out

theorem Sound.into : q.putIndex.toNat = (q.getIndex.toNat + q.count) % q.size.toNat := sound.ring.into

theorem Sound.into_lt : q.putIndex.toNat < q.size.toNat := sound.ring.into_lt

theorem Sound.room (free : q.isFull = false) : q.count < q.size.toNat := by
  apply Nat.lt_of_le_of_ne sound.ring.room
  intro whole
  rw [sound.full.mpr whole] at free
  cases free

theorem Sound.some (left : q.isEmpty = false) : 0 < q.count := by
  apply Nat.pos_of_ne_zero
  intro none
  rw [sound.empty.mpr none] at left
  cases left

theorem Sound.len : q.rtDataQueueLen.toNat = q.count := by
  have word := q.size.toNat_lt
  have out := sound.out
  have into := sound.into_lt
  have around := sound.into
  rw [rtDataQueueLen]
  cases empty : q.isEmpty with
  | true => exact (sound.empty.mp empty).symm
  | false =>
    have some := sound.some empty
    have room : q.count ≤ q.size.toNat := sound.ring.room
    rw [if_neg (by simp)]
    by_cases flat : q.putIndex > q.getIndex
    · have flat' := UInt16.lt_iff_toNat_lt.mp flat
      rw [if_pos flat, UInt16.toNat_sub_of_le _ _ (UInt16.le_iff_toNat_le.mpr (Nat.le_of_lt flat'))]
      rcases Nat.lt_or_ge (q.getIndex.toNat + q.count) q.size.toNat with less | beyond
      · rw [Nat.mod_eq_of_lt less] at around
        omega
      · rw [Nat.mod_eq_sub_mod beyond, Nat.mod_eq_of_lt (by omega)] at around
        omega
    · have before : q.putIndex.toNat ≤ q.getIndex.toNat := by
        apply Nat.le_of_not_lt
        exact fun less => flat (UInt16.lt_iff_toNat_lt.mpr less)
      have beyond : q.size.toNat ≤ q.getIndex.toNat + q.count := by
        apply Nat.le_of_not_lt
        intro less
        rw [Nat.mod_eq_of_lt less] at around
        omega
      rw [if_neg flat, UInt16.toNat_sub, UInt16.toNat_add]
      rw [Nat.mod_eq_sub_mod beyond] at around
      rcases Nat.lt_or_ge (q.getIndex.toNat + q.count - q.size.toNat) q.size.toNat with less | whole
      · rw [Nat.mod_eq_of_lt less] at around
        omega
      · omega

theorem Sound.store (free : q.isFull = false) (item : DataItem) :
    (q.store item).Sound ∧ (q.store item).queued = q.queued ++ [item] := by
  have less := sound.room free
  have next := nextIndex_toNat sound.small sound.into_lt
  have into : (nextIndex q.size q.putIndex).toNat = (q.getIndex.toNat + (q.count + 1)) % q.size.toNat := by
    rw [next, sound.into, Nat.mod_add_mod, Nat.add_assoc]
  have flag : nextIndex q.size q.putIndex = q.getIndex ↔ q.count + 1 = q.size.toNat := by
    have out := sound.out
    rw [← UInt16.toNat_inj, into]
    rcases Nat.lt_or_ge (q.getIndex.toNat + (q.count + 1)) q.size.toNat with flat | beyond
    · rw [Nat.mod_eq_of_lt flat]
      omega
    · rw [Nat.mod_eq_sub_mod beyond, Nat.mod_eq_of_lt (by omega)]
      omega
  obtain ⟨sound', count⟩ : (q.store item).Sound ∧ (q.store item).count = q.count + 1 := by
    refine Sound.of_count sound.small less sound.out into ?_ ?_
    · have isFull : (q.store item).isFull = if nextIndex q.size q.putIndex = q.getIndex then true else q.isFull := rfl
      rw [isFull, free]
      by_cases met : nextIndex q.size q.putIndex = q.getIndex
      · rw [if_pos met]
        exact ⟨fun _ => flag.mp met, fun _ => rfl⟩
      · rw [if_neg met]
        exact ⟨fun never => absurd never (by simp), fun last => absurd (flag.mpr last) met⟩
    · have isEmpty : (q.store item).isEmpty = false := rfl
      rw [isEmpty]
      simp
  refine ⟨sound', ?_⟩
  have same : (q.store item).ring = q.ring.pushBack item := by
    have wrap : (nextIndex q.size q.putIndex).toNat =
        if q.putIndex.toNat + 1 < q.size.toNat then q.putIndex.toNat + 1 else 0 :=
      next.trans (RingBuffer.succ_mod sound.into_lt).symm
    rw [DataQueue.ring, count, RingBuffer.pushBack]
    exact congrArg (fun into => RingBuffer.mk _ _ _ into _) wrap
  rw [queued, same]
  exact RingBuffer.contents_pushBack sound.ring item less

theorem Sound.advance (left : q.isEmpty = false) :
    q.advance.Sound ∧ q.queued = q.fetch :: q.advance.queued := by
  have some := sound.some left
  have room : q.count ≤ q.size.toNat := sound.ring.room
  have next := nextIndex_toNat sound.small sound.out
  have out : (nextIndex q.size q.getIndex).toNat < q.size.toNat := by
    rw [next]
    exact Nat.mod_lt _ sound.positive
  have shifted : q.getIndex.toNat + 1 + (q.count - 1) = q.getIndex.toNat + q.count := by omega
  have into : q.putIndex.toNat = ((nextIndex q.size q.getIndex).toNat + (q.count - 1)) % q.size.toNat := by
    rw [next, Nat.mod_add_mod, shifted]
    exact sound.into
  have flag : q.putIndex = nextIndex q.size q.getIndex ↔ q.count - 1 = 0 := by
    rw [← UInt16.toNat_inj, into]
    rcases Nat.lt_or_ge ((nextIndex q.size q.getIndex).toNat + (q.count - 1)) q.size.toNat with flat | beyond
    · rw [Nat.mod_eq_of_lt flat]
      omega
    · rw [Nat.mod_eq_sub_mod beyond, Nat.mod_eq_of_lt (by omega)]
      omega
  obtain ⟨sound', count⟩ : q.advance.Sound ∧ q.advance.count = q.count - 1 := by
    refine Sound.of_count sound.small (by exact Nat.le_trans (Nat.sub_le _ _) room) out into ?_ ?_
    · have isFull : q.advance.isFull = false := rfl
      have size : q.advance.size = q.size := rfl
      rw [isFull, size]
      simp only [Bool.false_eq_true, false_iff]
      omega
    · have isEmpty : q.advance.isEmpty =
        if q.putIndex = nextIndex q.size q.getIndex then true else q.isEmpty := rfl
      rw [isEmpty, left]
      by_cases met : q.putIndex = nextIndex q.size q.getIndex
      · rw [if_pos met]
        exact ⟨fun _ => flag.mp met, fun _ => rfl⟩
      · rw [if_neg met]
        exact ⟨fun never => absurd never (by simp), fun last => absurd (flag.mpr last) met⟩
  refine ⟨sound', ?_⟩
  have same : q.advance.ring = q.ring.popFront := by
    have wrap : (nextIndex q.size q.getIndex).toNat =
        if q.getIndex.toNat + 1 < q.size.toNat then q.getIndex.toNat + 1 else 0 :=
      next.trans (RingBuffer.succ_mod sound.out).symm
    rw [DataQueue.ring, count, RingBuffer.popFront]
    exact congrArg (fun out => RingBuffer.mk _ _ _ _ out) wrap
  rw [queued, queued, same]
  exact RingBuffer.contents_popFront sound.ring some

theorem Sound.clear : q.clear.Sound ∧ q.clear.queued = [] := by
  have positive := sound.positive
  obtain ⟨sound', count⟩ : q.clear.Sound ∧ q.clear.count = 0 := by
    refine Sound.of_count sound.small (Nat.zero_le _) positive ?_ ?_ ?_
    · exact (Nat.mod_eq_of_lt positive).symm
    · have isFull : q.clear.isFull = false := rfl
      have size : q.clear.size = q.size := rfl
      rw [isFull, size]
      simp only [Bool.false_eq_true, false_iff]
      omega
    · exact ⟨fun _ => rfl, fun _ => rfl⟩
  refine ⟨sound', ?_⟩
  apply List.length_eq_zero_iff.mp
  rw [queued, RingBuffer.contents_length]
  exact count

end DataQueue

/-! ## Steps -/

def DqEvent.deque : DqEvent → List (DequeEvent DataItem)
  | .pushed item => [.pushBack item]
  | .popped item => [.popFront item]
  | .reset => [.clear]
  | .failed _ => [.refused]
  | .peeked _ | .notified _ => []

def dqOperations (events : List DqEvent) : List (DequeEvent DataItem) := events.flatMap DqEvent.deque

section
variable {T : Type} [DecidableEq T] {w w' : DqWorld T} {events : List DqEvent}

structure DqRefines (before after : DataQueue) (events : List DqEvent) : Prop where
  size : after.size = before.size
  sound : after.Sound
  deque : dequeReplay before.size.toNat before.queued (dqOperations events) = some after.queued

namespace DqRefines

variable {q : DataQueue} (sound : q.Sound)
include sound

theorem quiet {events : List DqEvent} (silent : dqOperations events = []) : DqRefines q q events where
  size := rfl
  sound := sound
  deque := by
    rw [silent]
    rfl

theorem failed (e : Err) : DqRefines q q [.failed e] := ⟨rfl, sound, rfl⟩

theorem store (free : q.isFull = false) (item : DataItem) {events : List DqEvent}
    (silent : dqOperations events = []) : DqRefines q (q.store item) (.pushed item :: events) where
  size := rfl
  sound := (sound.store free item).1
  deque := by
    have room : q.queued.length < q.size.toNat := by
      rw [DataQueue.queued, RingBuffer.contents_length]
      exact sound.room free
    have list : dqOperations (.pushed item :: events) = [.pushBack item] := by
      rw [dqOperations, List.flatMap_cons, ← dqOperations, silent]
      rfl
    rw [list, (sound.store free item).2, dequeReplay_one]
    exact if_pos room

theorem advance (left : q.isEmpty = false) {events : List DqEvent} (silent : dqOperations events = []) :
    DqRefines q q.advance (.popped q.fetch :: events) where
  size := rfl
  sound := (sound.advance left).1
  deque := by
    have list : dqOperations (.popped q.fetch :: events) = [.popFront q.fetch] := by
      rw [dqOperations, List.flatMap_cons, ← dqOperations, silent]
      rfl
    rw [list, (sound.advance left).2, dequeReplay_one]
    exact if_pos rfl

theorem clear : DqRefines q q.clear [.reset] where
  size := rfl
  sound := sound.clear.1
  deque := by
    rw [sound.clear.2]
    rfl

end DqRefines

omit [DecidableEq T] in
theorem notify_silent (q : DataQueue) (event : DqNotify) : dqOperations (q.notify event) = [] := by
  rw [DataQueue.notify]
  split <;> rfl

def dqHistory (labels : List (DqAction T × List DqEvent)) : List (DequeEvent DataItem) :=
  labels.flatMap fun label => dqOperations label.2

/-- A queue of more than 32768 items, with `n` of them pushed. -/
structure Filled (size : UInt16) (item : DataItem) (n : Nat) (t : T) (w : DqWorld T)
    (labels : List (DqAction T × List DqEvent)) : Prop where
  own : w.obj.size = size
  get : w.obj.getIndex = 0
  put : w.obj.putIndex.toNat = n % 32768
  full : w.obj.isFull = true ↔ n = 32768
  nobody : ∀ side, w.waits.list side = []
  outside : w.Outside t
  history : dequeReplay size.toNat [] (dqHistory labels) = some (List.replicate n item)

theorem Filled.push {size : UInt16} {item : DataItem} {n : Nat} {t : T} {labels : List (DqAction T × List DqEvent)}
    (filled : Filled size item n t w labels) (large : 32768 < size.toNat) (less : n < 32768) :
    ∃ w' events, dqStep w (.push t item 0) = some (w', events) ∧
      Filled size item (n + 1) t w' (labels ++ [(.push t item 0, events)]) := by
  have notFull : w.obj.isFull = false := by
    apply Bool.eq_false_iff.mpr
    intro full
    have last := filled.full.mp full
    omega
  obtain ⟨q, made⟩ : ∃ q, q = w.obj.store item := ⟨_, rfl⟩
  have code : dqStep w (.push t item 0) =
      some (World.goto { w with obj := q } t .idle, .pushed item :: q.notify .push) := by
    rw [dqStep, if_pos filled.outside, dqPushLoop, notFull, dqPushStore, filled.nobody .receivers, made]
    rfl
  -- the field of 15 bits goes round before the index meets the size
  have put := filled.put
  rw [Nat.mod_eq_of_lt less] at put
  have bump : (w.obj.putIndex + 1).toNat = n + 1 := by
    have next : (w.obj.putIndex + 1).toNat = (w.obj.putIndex.toNat + 1) % 65536 := UInt16.toNat_add _ _
    rw [next, put, Nat.mod_eq_of_lt (by omega)]
  have field : (field15 (w.obj.putIndex + 1)).toNat = (n + 1) % 32768 := by
    rw [field15, UInt16.toNat_mod, bump]
    rfl
  have next : DataQueue.nextIndex w.obj.size w.obj.putIndex = field15 (w.obj.putIndex + 1) := by
    rw [DataQueue.nextIndex, if_neg]
    intro same
    have equal := congrArg UInt16.toNat same
    rw [field, filled.own] at equal
    omega
  refine ⟨_, _, code, ?_⟩
  have size' : q.size = size := by rw [made]; exact filled.own
  have get' : q.getIndex = 0 := by rw [made]; exact filled.get
  have put' : q.putIndex.toNat = (n + 1) % 32768 := by
    rw [made, ← field, ← next]
    rfl
  constructor
  · exact size'
  · exact get'
  · exact put'
  · have isFull : q.isFull = if q.putIndex = q.getIndex then true else w.obj.isFull := by rw [made]; rfl
    have met : q.putIndex = q.getIndex ↔ n + 1 = 32768 := by
      have zero : (0 : UInt16).toNat = 0 := rfl
      rw [← UInt16.toNat_inj, put', get', zero]
      omega
    have same : (World.goto { w with obj := q } t .idle).obj = q := rfl
    rw [same, isFull, notFull, ← met]
    split <;> simp_all
  · exact filled.nobody
  · exact ⟨filled.outside.1, World.goto_call _ _ _⟩
  · have silent : dqOperations (.pushed item :: q.notify .push) = [.pushBack item] := by
      rw [dqOperations, List.flatMap_cons, ← dqOperations, notify_silent]
      rfl
    rw [dqHistory, List.flatMap_append, ← dqHistory, dequeReplay_append _ _ _ _ _ filled.history, List.flatMap_cons,
      List.flatMap_nil, List.append_nil, silent, dequeReplay_one, DequeEvent.apply, if_pos, List.replicate_succ']
    rw [List.length_replicate]
    omega

end

end RtThread.Ipc
