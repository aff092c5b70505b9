import RtThread.Ipc.MailboxDeque

/-! No waiter of a mailbox is stranded: its mails and its free slots are promised to the receivers
and senders that were resumed for them. -/

set_option autoImplicit false
namespace RtThread.Ipc
open Lib

def Mailbox.units (mb : Mailbox) : Side → Nat
  | .receivers => mb.entry.toNat
  | .senders => mb.size.toNat - mb.entry.toNat

section
variable {T : Type} [DecidableEq T] [Fintype T] {w w' : MbWorld T} {e : Option MbEvent} {t : T}

structure MbPromising (w : MbWorld T) : Prop where
  wellFormed : w.obj.ring.WellFormed
  tidy : Tidy MbCall.waitsIn w
  served : Served MbCall.waitsIn w.obj.units w

def fewerUnits (units : Side → Nat) (r : Side) : Side → Nat := fun q => if q = r then units q - 1 else units q

section
variable (now : MbPromising w) (awake : (w.waits.thread t).suspended = false)
include now awake

theorem MbPromising.exchange
    (r q : Side) (apart : q ≠ r) (role : ∀ s, (w.call t).waitsIn = some s → s = r) (obj : Mailbox)
    (taken : 0 < w.obj.units r ∧ obj.units r = w.obj.units r - 1)
    (given : obj.units q = w.obj.units q + 1) :
    Tidy MbCall.waitsIn ((World.resumeOne { w with obj := obj } q).goto t .idle) ∧
      Served MbCall.waitsIn obj.units ((World.resumeOne { w with obj := obj } q).goto t .idle) := by
  have sides : ∀ s, s ≠ q → s = r := by
    intro s other
    cases s <;> cases q <;> cases r <;> first | rfl | exact absurd rfl other | exact absurd rfl apart
  have tidy : Tidy MbCall.waitsIn { w.goto t .idle with obj := obj } :=
    (now.tidy.goto awake .idle).setObj obj
  have left : Served MbCall.waitsIn (fewerUnits w.obj.units r) (w.goto t .idle) := by
    apply now.served.leave r role
    · left
      simp only [fewerUnits, if_true]
      omega
    · intro s other
      simp only [fewerUnits, if_neg other]
      exact le_rfl
  have handed : Served MbCall.waitsIn obj.units
      (World.resumeOne { w.goto t .idle with obj := obj } q) := by
    apply (left.fewer obj fun _ => le_rfl).give tidy q
    · simp only [fewerUnits, if_neg apart]
      omega
    · intro s other
      rw [sides s other]
      simp only [fewerUnits, if_true]
      omega
  rw [World.resumeOne_goto]
  exact ⟨tidy.resumeOne q, handed⟩

theorem MbPromising.sendLoop
    (role : ∀ q, (w.call t).waitsIn = some q → q = .senders) (value : UInt32) (timeout : Int32)
    (tickDelta tick : UInt32) :
    MbPromising (mbSendLoop w t value timeout tickDelta tick).1 := by
  have refined := mbSendLoop_refines now.wellFormed t value timeout tickDelta tick
  have parts : Tidy MbCall.waitsIn (mbSendLoop w t value timeout tickDelta tick).1 ∧
      Served MbCall.waitsIn (mbSendLoop w t value timeout tickDelta tick).1.obj.units
        (mbSendLoop w t value timeout tickDelta tick).1 := by
    rw [mbSendLoop]
    by_cases full : w.obj.entry = w.obj.size
    · have none : w.obj.units .senders = 0 := by simp [Mailbox.units, full]
      have marked := now.served.setError .intr .senders role none
      have tidy := now.tidy.setError t .intr
      have still : ((w.waits.setError t .intr).thread t).suspended = false := by
        simpa [Waits.setError] using awake
      rw [if_pos full]
      by_cases zero : timeout = 0
      · simp only [if_pos zero]
        exact ⟨tidy.goto still .idle, marked.leave .senders role (Or.inr (Or.inl none)) fun _ _ => le_rfl⟩
      · simp only [if_neg zero]
        exact ⟨tidy.suspend still .senders _ timeout rfl, marked.suspend .senders role none _ timeout⟩
    · have free := notFull now.wellFormed full
      have room : (w.obj.store value).entry < rtMbEntryMax := by
        have bound := w.obj.size.toNat_lt
        have max : rtMbEntryMax.toNat = 65535 := rfl
        have same : (w.obj.store value).entry = w.obj.entry := rfl
        rw [UInt16.lt_iff_toNat_lt, max, same]
        omega
      have count : ((w.obj.store value).entry + 1).toNat = w.obj.entry.toNat + 1 := uint16_succ free
      have size : (w.obj.store value).size = w.obj.size := rfl
      simp only [if_neg full, mbSendStore, if_pos room, World.goto_obj, World.resumeOne_obj]
      -- the sender leaves with its slot, then the mail is given to a receiver
      exact now.exchange awake .senders .receivers (by decide) role _
        (by simp only [Mailbox.units, count, size]; omega) (by simp only [Mailbox.units, count])
  exact ⟨refined.wellFormed, parts.1, parts.2⟩

theorem MbPromising.recvLoop (role : ∀ q, (w.call t).waitsIn = some q → q = .receivers) (timeout : Int32)
    (tickDelta tick : UInt32) : MbPromising (mbRecvLoop w t timeout tickDelta tick).1 := by
  have refined := mbRecvLoop_refines now.wellFormed t timeout tickDelta tick
  have parts : Tidy MbCall.waitsIn (mbRecvLoop w t timeout tickDelta tick).1 ∧
      Served MbCall.waitsIn (mbRecvLoop w t timeout tickDelta tick).1.obj.units
        (mbRecvLoop w t timeout tickDelta tick).1 := by
    rw [mbRecvLoop]
    by_cases empty : w.obj.entry = 0
    · have none : w.obj.units .receivers = 0 := by simp [Mailbox.units, empty]
      have marked := now.served.setError .intr .receivers role none
      have tidy := now.tidy.setError t .intr
      have still : ((w.waits.setError t .intr).thread t).suspended = false := by
        simpa [Waits.setError] using awake
      rw [if_pos empty]
      by_cases zero : timeout = 0
      · simp only [if_pos zero]
        have again := marked.setError .timeout .receivers role none
        have stillAgain : (((w.waits.setError t .intr).setError t .timeout).thread t).suspended = false := by
          simpa [Waits.setError] using awake
        exact ⟨(tidy.setError t .timeout).goto stillAgain .idle,
          again.leave .receivers role (Or.inr (Or.inl none)) fun _ _ => le_rfl⟩
      · simp only [if_neg zero]
        exact ⟨tidy.suspend still .receivers _ timeout rfl,
          marked.suspend .receivers role none _ timeout⟩
    · have some : 0 < w.obj.entry.toNat := by
        apply Nat.pos_of_ne_zero
        exact fun zero => empty (UInt16.toNat.inj zero)
      have room : w.obj.entry.toNat ≤ w.obj.size.toNat := now.wellFormed.room
      have count : w.obj.advance.entry.toNat = w.obj.entry.toNat - 1 := by
        simp only [Mailbox.advance, if_pos (uint16_pos.mpr some)]
        exact uint16_pred some
      have size : w.obj.advance.size = w.obj.size := rfl
      simp only [if_neg empty, mbRecvFetch, World.goto_obj, World.resumeOne_obj]
      exact now.exchange awake .receivers .senders (by decide) role _
        ⟨some, count⟩ (by simp only [Mailbox.units, count, size]; omega)
  exact ⟨refined.wellFormed, parts.1, parts.2⟩

theorem MbPromising.fail (r : Side)
    (role : ∀ q, (w.call t).waitsIn = some q → q = r) (failed : (w.waits.thread t).error ≠ .ok) :
    MbPromising (w.goto t .idle) where
  wellFormed := now.wellFormed
  tidy := now.tidy.goto awake .idle
  served := now.served.leave r role
    (Or.inr (Or.inr ⟨le_rfl, fun inside => failed ((w.mem_woken _ r t).mp inside).2.2⟩)) fun _ _ => le_rfl

end

theorem MbPromising.urgent (now : MbPromising w) (value : UInt32) (full : w.obj.entry ≠ w.obj.size) :
    MbPromising (World.resumeOne { w with obj := w.obj.storeUrgent value } .receivers) where
  wellFormed := by
    rw [World.resumeOne_obj]
    exact (Refines.storeUrgent now.wellFormed (notFull now.wellFormed full) value).wellFormed
  tidy := (now.tidy.setObj _).resumeOne .receivers
  served := by
    have count : (w.obj.storeUrgent value).entry.toNat = w.obj.entry.toNat + 1 :=
      uint16_succ (notFull now.wellFormed full)
    have size : (w.obj.storeUrgent value).size = w.obj.size := rfl
    rw [World.resumeOne_obj]
    apply (now.served.fewer (w.obj.storeUrgent value) fun _ => le_rfl).give (now.tidy.setObj _) .receivers
    · simp only [Mailbox.units, count]
      exact le_rfl
    · intro q other
      cases q with
      | receivers => exact absurd rfl other
      | senders =>
        simp only [Mailbox.units, count, size]
        omega

theorem MbPromising.reset (now : MbPromising w) : MbPromising (mbReset w).1 := by
  have out : w.obj.outOffset.toNat < w.obj.size.toNat := now.wellFormed.out
  obtain ⟨tidy, nobody⟩ := now.tidy.resumeAll w.obj.clear
  have emptied : Refines w.obj w.obj.clear (some .reset) := Refines.clear (by omega)
  exact ⟨emptied.wellFormed, tidy, .of_nobody nobody⟩

theorem mbStep_promising (now : MbPromising w) {action : MbAction T}
    (step : mbStep w action = some (w', e)) : MbPromising w' := by
  cases action with
  | send t value timeout tick =>
    simp only [mbStep] at step
    split at step
    case isTrue => cases step
    case isFalse free =>
      rw [not_or, not_not] at free
      have role : ∀ q, (w.call t).waitsIn = some q → q = .senders := by
        intro q waits
        rw [free.2] at waits
        cases waits
      have loop := now.sendLoop (eq_false_of_ne_true free.1) role value timeout 0 tick
      have taken : mbSendWait w t value timeout tick = (w', e) := Option.some.inj step
      unfold mbSendWait at taken
      split at taken
      · cases taken
        exact now
      · rw [taken] at loop
        exact loop
  | sendWoken t tick =>
    simp only [mbStep] at step
    split at step
    case h_2 => cases step
    case h_1 value timeout tickDelta place =>
      split at step
      case isTrue => cases step
      case isFalse awake =>
        have awake := eq_false_of_ne_true awake
        have role : ∀ q, (w.call t).waitsIn = some q → q = .senders := by
          intro q waits
          rw [place] at waits
          exact (Option.some.inj waits).symm
        have loop := now.sendLoop awake role value (recount timeout tickDelta tick).1
          (recount timeout tickDelta tick).2 tick
        have taken : mbSendWoken w t value timeout tickDelta tick = (w', e) := Option.some.inj step
        unfold mbSendWoken at taken
        split at taken
        case isTrue failed =>
          cases taken
          exact now.fail awake .senders role failed
        case isFalse =>
          rw [taken] at loop
          exact loop
  | urgent value =>
    have taken : mbUrgent w value = (w', e) := Option.some.inj step
    unfold mbUrgent at taken
    split at taken
    case isTrue =>
      cases taken
      exact now
    case isFalse full =>
      cases taken
      exact now.urgent value full
  | recv t timeout tick =>
    simp only [mbStep] at step
    split at step
    case isTrue => cases step
    case isFalse free =>
      rw [not_or, not_not] at free
      have role : ∀ q, (w.call t).waitsIn = some q → q = .receivers := by
        intro q waits
        rw [free.2] at waits
        cases waits
      have loop := now.recvLoop (eq_false_of_ne_true free.1) role timeout 0 tick
      have taken : mbRecv w t timeout tick = (w', e) := Option.some.inj step
      unfold mbRecv at taken
      split at taken
      · cases taken
        exact now
      · rw [taken] at loop
        exact loop
  | recvWoken t tick =>
    simp only [mbStep] at step
    split at step
    case h_2 => cases step
    case h_1 timeout tickDelta place =>
      split at step
      case isTrue => cases step
      case isFalse awake =>
        have awake := eq_false_of_ne_true awake
        have role : ∀ q, (w.call t).waitsIn = some q → q = .receivers := by
          intro q waits
          rw [place] at waits
          exact (Option.some.inj waits).symm
        have loop := now.recvLoop awake role (recount timeout tickDelta tick).1
          (recount timeout tickDelta tick).2 tick
        have taken : mbRecvWoken w t timeout tickDelta tick = (w', e) := Option.some.inj step
        unfold mbRecvWoken at taken
        split at taken
        case isTrue failed =>
          cases taken
          exact now.fail awake .receivers role failed
        case isFalse =>
          rw [taken] at loop
          exact loop
  | reset =>
    cases step
    exact now.reset
  | timeout t =>
    simp only [mbStep] at step
    split at step
    case isTrue asleep =>
      cases step
      exact ⟨now.wellFormed, now.tidy.timeout t, now.served.timeout asleep.1⟩
    case isFalse => cases step

omit [DecidableEq T] in
theorem mbInitial_promising (pool : Nat → UInt32) (size : UInt16) (positive : 0 < size) (flag : IpcFlag)
    (priority : T → UInt8) : MbPromising (mbInitial pool size flag priority) where
  wellFormed := ⟨Nat.zero_le _, UInt16.lt_iff_toNat_lt.mp positive, by simp [mbInitial, Mailbox.ring]⟩
  tidy := ⟨Waits.initial_sound priority, fun _ _ inside => by cases inside⟩
  served := .of_nobody fun _ => rfl

theorem mbRuns_promising {labels : List (MbAction T × Option MbEvent)} (start : MbPromising w)
    (run : Run (Performs mbStep) w labels w') : MbPromising w' :=
  Run.invariant MbPromising (fun _ _ _ now step => mbStep_promising now step) start run

end

end RtThread.Ipc
