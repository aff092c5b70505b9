import RtThread.Ipc.MessageSteps

/-! Runs of a message queue. Without priorities it is first in, first out, and urgent messages go in
front; with priorities it keeps the order of the `prio` fields, which is not that of the sends. -/

set_option autoImplicit false
namespace RtThread.Ipc
open Lib

namespace MessageQueue

def queued (mq : MessageQueue) : List Nat := follow mq.next mq.head mq.maxMsgs.toNat

def freeNodes (mq : MessageQueue) : List Nat := follow mq.next mq.free mq.maxMsgs.toNat

end MessageQueue

section
variable {T Q : Type} [DecidableEq T]

def mqHistory (labels : List (MqAction T × Option (MqEvent T))) : List (LineEvent T Int32 (List UInt8)) :=
  labels.flatMap fun label => label.2.toList.map MqEvent.line

omit [DecidableEq T] in
theorem mqHistory_snoc (labels : List (MqAction T × Option (MqEvent T)))
    (label : MqAction T × Option (MqEvent T)) :
    mqHistory (labels ++ [label]) = mqHistory labels ++ label.2.toList.map MqEvent.line := by
  simp [mqHistory]

variable [Fintype T] {w w' : MqWorld T} {priority : Bool} {d : Discipline Q Int32 (List UInt8)}
  {allowed : Int32 → (Nat → MqMessage) → List Nat → Prop} {rel : Q → (Nat → MqMessage) → List Nat → Prop}
  {labels : List (MqAction T × Option (MqEvent T))}

omit [DecidableEq T] in
theorem Placed.lists {linked spare : List Nat} (placed : Placed w linked spare) :
    w.obj.queued = linked ∧ w.obj.freeNodes = spare := by
  have count := placed.count
  exact ⟨placed.nodes.queue.follow _ (by omega), placed.nodes.free.follow _ (by omega)⟩

omit [DecidableEq T] in
theorem mqInitial_good (rep : Represents priority d allowed rel) (pool : Nat → MqMessage)
    (msgSize maxMsgs : UInt16) (flag : IpcFlag) (prio : T → UInt8) :
    ∃ spare, MqGood rel ⟨d.empty, fun _ => none⟩ (mqInitial pool msgSize maxMsgs flag prio) [] spare := by
  have empty : Nodes ⟨pool, msgSize, maxMsgs, 0, none, none, none, flag⟩ [] [] :=
    ⟨rfl, rfl, rfl, List.nodup_nil⟩
  obtain ⟨spare, nodes, length, _⟩ := empty.initFree maxMsgs.toNat
  obtain ⟨entry, size⟩ := initFree_counts ⟨pool, msgSize, maxMsgs, 0, none, none, none, flag⟩ maxMsgs.toNat
  refine ⟨spare, ⟨nodes, ?_, ?_, ?_, ?_, ?_, ?_⟩, rep.empty _, fun _ => rfl, ?_, .of_nobody fun _ => rfl⟩
  · exact congrArg UInt16.toNat entry
  · intro t n held
    cases held
  · intro t u n held
    cases held
  · have nobody : holders (mqInitial pool msgSize maxMsgs flag prio) = ∅ := by
      simp [holders, mqInitial, MqCall.holds]
    rw [nobody, Finset.card_empty, length]
    have max : (mqInitial pool msgSize maxMsgs flag prio).obj.maxMsgs = maxMsgs := size
    rw [max, List.length_nil]
    omega
  · intro t msg data prio urgent linking
    cases linking
  · intro t msg size buffer prio freeing
    cases freeing
  · exact ⟨Waits.initial_sound prio, fun _ _ inside => by cases inside⟩

theorem mqRuns_follow (rep : Represents priority d allowed rel) (may : MqWorld T → MqAction T → Bool)
    (allows : ∀ w action, may w action = true → ∀ t msg data prio, action = .link t →
      w.call t = .linking msg data prio false → allowed prio w.obj.node w.obj.queued)
    (start : ∃ spare, MqGood rel ⟨d.empty, fun _ => none⟩ w [] spare)
    (run : Run (Performs (guarded (mqStep priority) may)) w labels w') :
    ∃ line linked spare, lineReplay d ⟨d.empty, fun _ => none⟩ (mqHistory labels) = some line ∧
      MqGood rel line w' linked spare ∧ w'.obj.maxMsgs = w.obj.maxMsgs := by
  induction run with
  | nil =>
    obtain ⟨spare, good⟩ := start
    exact ⟨_, [], spare, rfl, good, rfl⟩
  | snoc _ taken ih =>
    obtain ⟨line, linked, spare, replayed, good, same⟩ := ih
    obtain ⟨allowed, step⟩ := guarded_eq_some taken
    have follows := mqStep_follows rep good step (by
      intro t msg data prio link linking
      rw [← good.placed.lists.1]
      exact allows _ _ allowed t msg data prio link linking)
    obtain ⟨line', linked', spare', more, kept⟩ := follows.good
    refine ⟨line', linked', spare', ?_, kept, follows.size.trans same⟩
    rw [mqHistory_snoc, lineReplay_append _ _ _ _ _ replayed]
    exact more

theorem mqRuns_follow_all (rep : Represents priority d (fun _ _ _ => True) rel)
    (start : ∃ spare, MqGood rel ⟨d.empty, fun _ => none⟩ w [] spare)
    (run : Run (Performs (mqStep priority)) w labels w') :
    ∃ line linked spare, lineReplay d ⟨d.empty, fun _ => none⟩ (mqHistory labels) = some line ∧
      MqGood rel line w' linked spare ∧ w'.obj.maxMsgs = w.obj.maxMsgs := by
  apply mqRuns_follow rep (fun _ _ => true) (fun _ _ _ _ _ _ _ _ _ => trivial) start
  exact run.mono fun _ _ _ step => step

def fifoMessages (queue : List (List UInt8)) (node : Nat → MqMessage) (linked : List Nat) : Prop :=
  queue = linked.map fun n => (node n).data

theorem fifo_represents :
    Represents false (.fifo Int32 (List UInt8)) (fun _ _ _ => True) fifoMessages where
  congr queue node node' linked same kept := by
    apply Eq.trans same
    apply List.map_congr_left
    intro n inside
    exact (kept n inside).1.symm
  allow _ _ _ _ _ _ := trivial
  empty _ := rfl
  first queue node msg rest same := by
    cases same
    exact ⟨_, rfl, rfl⟩
  prepend queue node msg linked same _ := by
    cases same
    rfl
  append queue node msg prio linked same _ _ _ := by
    cases same
    simp [fifoMessages, Discipline.fifo]

def blankPool : Nat → MqMessage := fun _ => ⟨none, 0, 0, [], false⟩

/-- With priorities: each message with the `prio` its node holds, in the order of the list. -/
def storedMessages (queue : List (Int32 × List UInt8)) (node : Nat → MqMessage) (linked : List Nat) : Prop :=
  queue = linked.map fun n => ((node n).prio, (node n).data)

/-- What a send with priorities does: the message goes in front of the first of a lower `prio`, and an
urgent one in front of all with the `prio` that is there. -/
def storedOrder : Discipline (List (Int32 × List UInt8)) Int32 (List UInt8) where
  empty := []
  append prio data queue := queue.orderedInsert (fun a b => b.1 < a.1) (prio, data)
  prepend prio data queue := (prio, data) :: queue
  first
    | [] => none
    | (_, data) :: rest => some (data, rest)

theorem stored_represents : Represents true storedOrder (fun _ _ _ => True) storedMessages where
  congr queue node node' linked same kept := by
    apply Eq.trans same
    apply List.map_congr_left
    intro n inside
    rw [(kept n inside).1, (kept n inside).2.1]
  allow _ _ _ _ _ _ := trivial
  empty _ := rfl
  first queue node msg rest same := by
    cases same
    exact ⟨_, rfl, rfl⟩
  prepend queue node msg linked same _ := by
    cases same
    rfl
  append queue node msg prio linked same _ rank _ := by
    cases same
    rw [if_pos rfl, ← rank rfl]
    have order := List.map_orderedInsert (fun n m => (node m).prio < (node n).prio)
      (fun a b : Int32 × List UInt8 => b.1 < a.1) (fun n => ((node n).prio, (node n).data)) linked msg
      (fun _ _ => Iff.rfl) fun _ _ => Iff.rfl
    exact order.symm

end

end RtThread.Ipc
