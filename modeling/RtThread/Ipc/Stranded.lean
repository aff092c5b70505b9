import Mathlib.Data.Fintype.Option
import RtThread.Ipc.MailboxWaiters
import RtThread.Ipc.MessageRuns

/-! No thread stays suspended on a mailbox or a message queue that could serve it, unless one that was
resumed for it has still to run. -/

set_option autoImplicit false
namespace RtThread.Ipc
open Lib

section
variable {T : Type} [DecidableEq T] [Fintype T]

omit [DecidableEq T] in
theorem Served.suspended {Obj Call : Type} {waitsIn : Call → Option Side} {units : Side → Nat}
    {w : World Obj Call T} (served : Served waitsIn units w) (tidy : Tidy waitsIn w) {q : Side} {t : T}
    (waits : waitsIn (w.call t) = some q) (asleep : (w.waits.thread t).suspended = true) :
    units q ≤ (w.woken waitsIn q).card := by
  obtain ⟨r, inside⟩ := tidy.sound.home t asleep
  have same : r = q := by
    rw [tidy.calls r t inside] at waits
    exact Option.some.inj waits
  apply served q
  intro nobody
  rw [← same] at nobody
  rw [nobody] at inside
  cases inside

theorem mqServed (priority : Bool) (pool : Nat → MqMessage) (msgSize maxMsgs : UInt16) (flag : IpcFlag)
    (prio : T → UInt8) {labels : List (MqAction T × Option (MqEvent T))} {w : MqWorld T}
    (run : Run (Performs (mqStep priority)) (mqInitial pool msgSize maxMsgs flag prio) labels w) :
    Tidy MqCall.waitsIn w ∧ Served MqCall.waitsIn (mqUnits w.obj w.obj.freeNodes) w := by
  cases priority with
  | false =>
    obtain ⟨_, _, _, _, good, _⟩ :=
      mqRuns_follow_all fifo_represents (mqInitial_good fifo_represents pool msgSize maxMsgs flag prio) run
    rw [good.placed.lists.2]
    exact ⟨good.tidy, good.served⟩
  | true =>
    obtain ⟨_, _, _, _, good, _⟩ :=
      mqRuns_follow_all stored_represents (mqInitial_good stored_represents pool msgSize maxMsgs flag prio) run
    rw [good.placed.lists.2]
    exact ⟨good.tidy, good.served⟩

/-- While a thread is suspended in a receive, there are no more messages than receivers that were resumed
with no error and have not run since; while one is suspended in a send, no more free slots or nodes
than such senders. -/
theorem waiters_not_stranded :
    (∀ (pool : Nat → UInt32) (size : UInt16) (flag : IpcFlag) (prio : T → UInt8)
      (labels : List (MbAction T × Option MbEvent)) (w : MbWorld T), 0 < size →
      Run (Performs mbStep) (mbInitial pool size flag prio) labels w →
      ∀ t, (w.waits.thread t).suspended = true →
        ((w.call t).waitsIn = some .receivers →
          w.obj.entry.toNat ≤ (w.woken MbCall.waitsIn .receivers).card) ∧
        ((w.call t).waitsIn = some .senders →
          size.toNat - w.obj.entry.toNat ≤ (w.woken MbCall.waitsIn .senders).card)) ∧
    (∀ (priority : Bool) (pool : Nat → MqMessage) (msgSize maxMsgs : UInt16) (flag : IpcFlag)
      (prio : T → UInt8) (labels : List (MqAction T × Option (MqEvent T))) (w : MqWorld T),
      Run (Performs (mqStep priority)) (mqInitial pool msgSize maxMsgs flag prio) labels w →
      ∀ t, (w.waits.thread t).suspended = true →
        ((w.call t).waitsIn = some .receivers →
          w.obj.entry.toNat ≤ (w.woken MqCall.waitsIn .receivers).card) ∧
        ((w.call t).waitsIn = some .senders →
          w.obj.freeNodes.length ≤ (w.woken MqCall.waitsIn .senders).card)) := by
  constructor
  · intro pool size flag prio labels w positive run t asleep
    have now := mbRuns_promising (mbInitial_promising pool size positive flag prio) run
    have fresh : (mbInitial (T := T) pool size flag prio).obj.ring.WellFormed :=
      (mbInitial_promising pool size positive flag prio).wellFormed
    have same : w.obj.size = size := (mbRuns_refines fresh run).1
    constructor
    · intro waits
      exact now.served.suspended now.tidy waits asleep
    · intro waits
      have enough := now.served.suspended now.tidy waits asleep
      simp only [Mailbox.units, same] at enough
      exact enough
  · intro priority pool msgSize maxMsgs flag prio labels w run t asleep
    obtain ⟨tidy, served⟩ := mqServed priority pool msgSize maxMsgs flag prio run
    constructor
    · intro waits
      exact served.suspended tidy waits asleep
    · intro waits
      exact served.suspended tidy waits asleep

end

/-- Two threads wait in a receive and a third sends one mail: the first of them is resumed for it. -/
def mailWaiters : List (MbAction (Option Bool)) :=
  [.recv (some false) (-1) 0, .recv (some true) (-1) 0, .send none 7 0 0]

def messageWaiters : List (MqAction (Option Bool)) :=
  [.recv (some false) 4 (-1) 0, .recv (some true) 4 (-1) 0, .send none [7] 0 0 0, .fill none, .link none]

theorem waiters_not_stranded_demo :
    (let done := (drive mbStep (mbInitial (fun _ => 0) 2 .fifo fun _ => 10) mailWaiters).get (by decide);
      done.1.obj.entry.toNat ≤ (done.1.woken MbCall.waitsIn .receivers).card) ∧
    (let start := mqInitial blankPool 4 2 .fifo fun _ => 10;
      let done := (drive (mqStep false) start messageWaiters).get (by decide);
      done.1.obj.entry.toNat ≤ (done.1.woken MqCall.waitsIn .receivers).card) := by
  constructor
  · exact (waiters_not_stranded.1 (fun _ => 0) 2 .fifo (fun _ => 10) _ _ (by decide)
      (drive_get (by decide)) (some true) (by decide)).1 (by decide)
  · exact (waiters_not_stranded.2 false blankPool 4 2 .fifo (fun _ => 10) _ _
      (drive_get (by decide)) (some true) (by decide)).1 (by decide)

end RtThread.Ipc
