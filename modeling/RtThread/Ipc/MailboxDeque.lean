import RtThread.Ipc.Mailbox
import RtThread.Lib.Deque
import RtThread.Lib.RingBuffer
import RtThread.Lib.Transition

/-! A mailbox is a bounded deque, whatever calls, wake-ups and timeouts come in whatever order. -/

set_option autoImplicit false
namespace RtThread.Ipc
open Lib

def Mailbox.ring (mb : Mailbox) : RingBuffer UInt32 where
  slot := mb.msgPool
  size := mb.size.toNat
  entry := mb.entry.toNat
  into := mb.inOffset.toNat
  out := mb.outOffset.toNat

def Mailbox.queued (mb : Mailbox) : List UInt32 := mb.ring.contents

def MbEvent.deque : MbEvent → DequeEvent UInt32
  | .sent value => .pushBack value
  | .urgent value => .pushFront value
  | .received value => .popFront value
  | .reset => .clear
  | .failed _ => .refused

section
variable {mb : Mailbox}

-- `++offset; if (offset >= size) offset = 0;`
theorem wrap_toNat {offset size : UInt16} (inside : offset.toNat < size.toNat) :
    (if offset + 1 ≥ size then 0 else offset + 1).toNat =
      if offset.toNat + 1 < size.toNat then offset.toNat + 1 else 0 := by
  have next := uint16_succ inside
  by_cases beyond : offset + 1 ≥ size
  · rw [if_pos beyond, if_neg]
    · rfl
    · rw [ge_iff_le, UInt16.le_iff_toNat_le, next] at beyond
      omega
  · rw [if_neg beyond, if_pos]
    · exact next
    · rw [ge_iff_le, UInt16.le_iff_toNat_le, next] at beyond
      omega

theorem ring_store (wf : mb.ring.WellFormed) (free : mb.entry.toNat < mb.size.toNat) (value : UInt32) :
    Mailbox.ring { mb.store value with entry := mb.entry + 1 } = mb.ring.pushBack value := by
  have offset := wrap_toNat wf.into_lt
  have count := uint16_succ free
  simp only [Mailbox.ring, Mailbox.store, RingBuffer.pushBack, offset, count]
  rfl

theorem ring_storeUrgent (free : mb.entry.toNat < mb.size.toNat) (value : UInt32) :
    (mb.storeUrgent value).ring = mb.ring.pushFront value := by
  have count := uint16_succ free
  have offset : (if mb.outOffset > 0 then mb.outOffset - 1 else mb.size - 1).toNat = mb.ring.before := by
    have unfolded : mb.ring.before =
        if 0 < mb.outOffset.toNat then mb.outOffset.toNat - 1 else mb.size.toNat - 1 := rfl
    rw [unfolded]
    by_cases positive : 0 < mb.outOffset.toNat
    · rw [if_pos positive, if_pos (uint16_pos.mpr positive)]
      exact uint16_pred positive
    · rw [if_neg positive, if_neg (fun above => positive (uint16_pos.mp above))]
      exact uint16_pred (by omega)
  simp only [Mailbox.ring, Mailbox.storeUrgent, RingBuffer.pushFront, offset, count]

theorem ring_advance (wf : mb.ring.WellFormed) (some : 0 < mb.entry.toNat) :
    mb.advance.ring = mb.ring.popFront := by
  have offset := wrap_toNat wf.out
  have count : (if mb.entry > 0 then mb.entry - 1 else mb.entry).toNat = mb.entry.toNat - 1 := by
    rw [if_pos (uint16_pos.mpr some)]
    exact uint16_pred some
  simp only [Mailbox.ring, Mailbox.advance, RingBuffer.popFront, offset, count]
  rfl

end

section
variable {T : Type} [DecidableEq T] {w w' : MbWorld T} {e : Option MbEvent}

structure Refines (before after : Mailbox) (e : Option MbEvent) : Prop where
  size : after.size = before.size
  wellFormed : after.ring.WellFormed
  deque : dequeReplay before.size.toNat before.queued (e.toList.map MbEvent.deque) = some after.queued

theorem Refines.quiet {mb : Mailbox} (wf : mb.ring.WellFormed) : Refines mb mb none :=
  ⟨rfl, wf, rfl⟩

theorem Refines.failed {mb : Mailbox} (wf : mb.ring.WellFormed) (code : Err) :
    Refines mb mb (some (.failed code)) :=
  ⟨rfl, wf, rfl⟩

theorem Refines.store {mb : Mailbox} (wf : mb.ring.WellFormed) (free : mb.entry.toNat < mb.size.toNat)
    (value : UInt32) :
    Refines mb { mb.store value with entry := mb.entry + 1 } (some (.sent value)) where
  size := rfl
  wellFormed := ring_store wf free value ▸ wf.pushBack value free
  deque := by
    have length : mb.queued.length < mb.size.toNat := (RingBuffer.contents_length mb.ring).symm ▸ free
    have after : Mailbox.queued { mb.store value with entry := mb.entry + 1 } = mb.queued ++ [value] := by
      rw [Mailbox.queued, ring_store wf free]
      exact RingBuffer.contents_pushBack wf value free
    rw [after, Option.toList_some, List.map_singleton, dequeReplay_one]
    exact if_pos length

theorem Refines.storeUrgent {mb : Mailbox} (wf : mb.ring.WellFormed)
    (free : mb.entry.toNat < mb.size.toNat) (value : UInt32) :
    Refines mb (mb.storeUrgent value) (some (.urgent value)) where
  size := rfl
  wellFormed := ring_storeUrgent free value ▸ wf.pushFront value free
  deque := by
    have length : mb.queued.length < mb.size.toNat := (RingBuffer.contents_length mb.ring).symm ▸ free
    have after : (mb.storeUrgent value).queued = value :: mb.queued := by
      rw [Mailbox.queued, ring_storeUrgent free]
      exact RingBuffer.contents_pushFront wf value free
    rw [after, Option.toList_some, List.map_singleton, dequeReplay_one]
    exact if_pos length

theorem Refines.advance {mb : Mailbox} (wf : mb.ring.WellFormed) (some : 0 < mb.entry.toNat) :
    Refines mb mb.advance (.some (.received mb.fetch)) where
  size := rfl
  wellFormed := ring_advance wf some ▸ wf.popFront some
  deque := by
    have before : mb.queued = mb.fetch :: mb.advance.queued := by
      rw [Mailbox.queued, Mailbox.queued, ring_advance wf some]
      exact RingBuffer.contents_popFront wf some
    rw [before, Option.toList_some, List.map_singleton, dequeReplay_one]
    exact if_pos rfl

theorem Refines.clear {mb : Mailbox} (positive : 0 < mb.size.toNat) :
    Refines mb mb.clear (some .reset) where
  size := rfl
  wellFormed := RingBuffer.clear_wellFormed (r := mb.ring) positive
  deque := rfl

theorem notFull {mb : Mailbox} (wf : mb.ring.WellFormed) (free : mb.entry ≠ mb.size) :
    mb.entry.toNat < mb.size.toNat := by
  have room : mb.entry.toNat ≤ mb.size.toNat := wf.room
  have differ : mb.entry.toNat ≠ mb.size.toNat := fun same => free (UInt16.toNat.inj same)
  omega

theorem mbSendLoop_refines (wf : w.obj.ring.WellFormed) (t : T) (value : UInt32) (timeout : Int32)
    (tickDelta tick : UInt32) :
    Refines w.obj (mbSendLoop w t value timeout tickDelta tick).1.obj
      (mbSendLoop w t value timeout tickDelta tick).2 := by
  rw [mbSendLoop]
  by_cases full : w.obj.entry = w.obj.size
  · rw [if_pos full]
    by_cases zero : timeout = 0
    · simp only [if_pos zero]
      exact .failed wf .full
    · simp only [if_neg zero]
      exact .quiet wf
  · have free := notFull wf full
    have room : (w.obj.store value).entry < rtMbEntryMax := by
      have bound := w.obj.size.toNat_lt
      have max : rtMbEntryMax.toNat = 65535 := rfl
      have same : (w.obj.store value).entry = w.obj.entry := rfl
      rw [UInt16.lt_iff_toNat_lt, max, same]
      omega
    simp only [if_neg full, mbSendStore, if_pos room, World.goto_obj, World.resumeOne_obj]
    exact .store wf free value

theorem mbRecvLoop_refines (wf : w.obj.ring.WellFormed) (t : T) (timeout : Int32)
    (tickDelta tick : UInt32) :
    Refines w.obj (mbRecvLoop w t timeout tickDelta tick).1.obj
      (mbRecvLoop w t timeout tickDelta tick).2 := by
  rw [mbRecvLoop]
  by_cases empty : w.obj.entry = 0
  · rw [if_pos empty]
    by_cases zero : timeout = 0
    · simp only [if_pos zero]
      exact .failed wf .timeout
    · simp only [if_neg zero]
      exact .quiet wf
  · have some : 0 < w.obj.entry.toNat := by
      apply Nat.pos_of_ne_zero
      exact fun zero => empty (UInt16.toNat.inj zero)
    simp only [if_neg empty, mbRecvFetch, World.goto_obj, World.resumeOne_obj]
    exact .advance wf some

theorem mbStep_refines (wf : w.obj.ring.WellFormed) {action : MbAction T}
    (step : mbStep w action = some (w', e)) : Refines w.obj w'.obj e := by
  cases action with
  | send t value timeout tick =>
    simp only [mbStep] at step
    split at step
    · cases step
    · have taken : mbSendWait w t value timeout tick = (w', e) := Option.some.inj step
      have loop := mbSendLoop_refines wf t value timeout 0 tick
      unfold mbSendWait at taken
      split at taken
      · cases taken
        exact .failed wf .full
      · rw [taken] at loop
        exact loop
  | sendWoken t tick =>
    simp only [mbStep] at step
    split at step
    · rename_i value timeout tickDelta _
      split at step
      · cases step
      · have taken : mbSendWoken w t value timeout tickDelta tick = (w', e) := Option.some.inj step
        have loop := mbSendLoop_refines wf t value (recount timeout tickDelta tick).1
          (recount timeout tickDelta tick).2 tick
        unfold mbSendWoken at taken
        split at taken
        · cases taken
          exact .failed wf _
        · rw [taken] at loop
          exact loop
    · cases step
  | urgent value =>
    have taken : mbUrgent w value = (w', e) := Option.some.inj step
    unfold mbUrgent at taken
    split at taken
    · cases taken
      exact .failed wf .full
    · rename_i full
      cases taken
      rw [World.resumeOne_obj]
      exact .storeUrgent wf (notFull wf full) value
  | recv t timeout tick =>
    simp only [mbStep] at step
    split at step
    · cases step
    · have taken : mbRecv w t timeout tick = (w', e) := Option.some.inj step
      have loop := mbRecvLoop_refines wf t timeout 0 tick
      unfold mbRecv at taken
      split at taken
      · cases taken
        exact .failed wf .timeout
      · rw [taken] at loop
        exact loop
  | recvWoken t tick =>
    simp only [mbStep] at step
    split at step
    · rename_i timeout tickDelta _
      split at step
      · cases step
      · have taken : mbRecvWoken w t timeout tickDelta tick = (w', e) := Option.some.inj step
        have loop := mbRecvLoop_refines wf t (recount timeout tickDelta tick).1
          (recount timeout tickDelta tick).2 tick
        unfold mbRecvWoken at taken
        split at taken
        · cases taken
          exact .failed wf _
        · rw [taken] at loop
          exact loop
    · cases step
  | reset =>
    cases step
    have out : w.obj.outOffset.toNat < w.obj.size.toNat := wf.out
    exact .clear (by omega)
  | timeout t =>
    simp only [mbStep] at step
    split at step
    · cases step
      exact .quiet wf
    · cases step

def mbHistory (labels : List (MbAction T × Option MbEvent)) : List (DequeEvent UInt32) :=
  labels.flatMap fun label => label.2.toList.map MbEvent.deque

omit [DecidableEq T] in
theorem mbHistory_snoc (labels : List (MbAction T × Option MbEvent))
    (label : MbAction T × Option MbEvent) :
    mbHistory (labels ++ [label]) = mbHistory labels ++ label.2.toList.map MbEvent.deque := by
  simp [mbHistory]

theorem mbRuns_refines {labels : List (MbAction T × Option MbEvent)} (wf : w.obj.ring.WellFormed)
    (run : Run (Performs mbStep) w labels w') :
    w'.obj.size = w.obj.size ∧ w'.obj.ring.WellFormed ∧
      dequeReplay w.obj.size.toNat w.obj.queued (mbHistory labels) = some w'.obj.queued := by
  induction run with
  | nil => exact ⟨rfl, wf, rfl⟩
  | snoc _ taken ih =>
    obtain ⟨size, mid, replayed⟩ := ih
    have one := mbStep_refines mid taken
    refine ⟨one.size.trans size, one.wellFormed, ?_⟩
    rw [mbHistory_snoc, dequeReplay_append _ _ _ _ _ replayed, ← size]
    exact one.deque

end

end RtThread.Ipc
