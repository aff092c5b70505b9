import RtThread.Ipc.MessageNodes
import RtThread.Lib.Ranking
import RtThread.Lib.Transition

/-! Every run of a message queue is a run of a line, whose discipline is that of the code's link
operation, and none of its waiters is stranded. -/

set_option autoImplicit false
namespace RtThread.Ipc
open Lib

/-- How the messages of the linked nodes make up the queue of a discipline: what each operation of
the code does to the one, it does to the other. -/
structure Represents {Q : Type} (priority : Bool) (d : Discipline Q Int32 (List UInt8))
    (allowed : Int32 → (Nat → MqMessage) → List Nat → Prop)
    (rel : Q → (Nat → MqMessage) → List Nat → Prop) : Prop where
  congr : ∀ q node node' linked, rel q node linked →
    (∀ n ∈ linked, (node' n).data = (node n).data ∧ (node' n).prio = (node n).prio ∧
      (node' n).urgent = (node n).urgent) → rel q node' linked
  allow : ∀ prio node node' linked, allowed prio node linked →
    (∀ n ∈ linked, (node' n).prio = (node n).prio ∧ (node' n).urgent = (node n).urgent) →
    allowed prio node' linked
  empty : ∀ node, rel d.empty node []
  first : ∀ q node msg rest, rel q node (msg :: rest) →
    ∃ q', d.first q = some ((node msg).data, q') ∧ rel q' node rest
  prepend : ∀ q node msg linked, rel q node linked → (node msg).urgent = true →
    rel (d.prepend (node msg).prio (node msg).data q) node (msg :: linked)
  append : ∀ q node msg prio linked, rel q node linked → (node msg).urgent = false →
    (priority = true → (node msg).prio = prio) → allowed prio node linked →
    rel (d.append prio (node msg).data q) node
      (if priority then linked.orderedInsert (fun n m => (node m).prio < (node n).prio) msg
        else linked ++ [msg])

def MqEvent.line {T : Type} : MqEvent T → LineEvent T Int32 (List UInt8)
  | .sent data prio => .append prio data
  | .urgent data prio => .prepend prio data
  | .taken t => .take t
  | .received t size bytes _ => .deliver t fun data => data.take size == bytes
  | .reset => .clear
  | .failed _ => .refused
  | .crashed => .broken

def MqCall.hand (node : Nat → MqMessage) : MqCall → Option (List UInt8)
  | .emptying msg _ | .freeing msg .. => some (node msg).data
  | _ => none

def mqUnits (mq : MessageQueue) (spare : List Nat) : Side → Nat
  | .receivers => mq.entry.toNat
  | .senders => spare.length

section
variable {T : Type} [DecidableEq T] [Fintype T] {w w' : MqWorld T} {t : T}

def holders (w : MqWorld T) : Finset T := Finset.univ.filter fun t => (w.call t).holds.isSome

omit [DecidableEq T] in
theorem mem_holders (w : MqWorld T) (t : T) : t ∈ holders w ↔ (w.call t).holds.isSome = true := by
  simp [holders]

structure Placed (w : MqWorld T) (linked spare : List Nat) : Prop where
  nodes : Nodes w.obj linked spare
  entry : w.obj.entry.toNat = linked.length
  apart : ∀ t n, (w.call t).holds = some n → n ∉ linked ∧ n ∉ spare
  own : ∀ t u n, (w.call t).holds = some n → (w.call u).holds = some n → t = u
  count : linked.length + spare.length + (holders w).card = w.obj.maxMsgs.toNat
  filled : ∀ t msg data prio urgent, w.call t = .linking msg data prio urgent →
    (w.obj.node msg).data = data ∧ (w.obj.node msg).urgent = urgent ∧
      (urgent = false → w.obj.next msg = none)
  emptied : ∀ t msg size buffer prio, w.call t = .freeing msg size buffer prio →
    buffer = (w.obj.node msg).data.take size

def SameHands (w w' : MqWorld T) (t : T) : Prop :=
  ∀ u, u ≠ t → w'.call u = w.call u

omit [DecidableEq T] in
theorem holders_same (same : ∀ u, (w'.call u).holds.isSome = (w.call u).holds.isSome) :
    (holders w').card = (holders w).card := by
  have sets : holders w' = holders w := by
    ext u
    rw [mem_holders, mem_holders, same u]
  rw [sets]

theorem holders_gain (others : SameHands w w' t) (before : (w.call t).holds = none)
    (after : (w'.call t).holds.isSome = true) : (holders w').card = (holders w).card + 1 := by
  have sets : holders w' = insert t (holders w) := by
    ext u
    rw [Finset.mem_insert, mem_holders, mem_holders]
    by_cases own : u = t
    · subst own
      simp [after]
    · rw [others u own]
      simp [own]
  have fresh : t ∉ holders w := by simp [mem_holders, before]
  rw [sets, Finset.card_insert_of_notMem fresh]

theorem holders_lose (others : SameHands w w' t) (before : (w.call t).holds.isSome = true)
    (after : (w'.call t).holds = none) : (holders w).card = (holders w').card + 1 :=
  holders_gain (fun u other => (others u other).symm) after before

theorem MqCall.hand_none {call : MqCall} (empty : call.holds = none) (node : Nat → MqMessage) :
    call.hand node = none := by
  cases call <;> first | rfl | cases empty

theorem MqCall.waitsIn_none {call : MqCall} {n : Nat} (holds : call.holds = some n) :
    call.waitsIn = none := by
  cases call <;> first | rfl | cases holds

section steps
variable {Q : Type} {rel : Q → (Nat → MqMessage) → List Nat → Prop} {line : Line Q T (List UInt8)}
  {linked spare : List Nat}

structure MqGood (rel : Q → (Nat → MqMessage) → List Nat → Prop) (line : Line Q T (List UInt8))
    (w : MqWorld T) (linked spare : List Nat) : Prop where
  placed : Placed w linked spare
  queue : rel line.queue w.obj.node linked
  hands : ∀ t, line.hand t = (w.call t).hand w.obj.node
  tidy : Tidy MqCall.waitsIn w
  served : Served MqCall.waitsIn (mqUnits w.obj spare) w

/-- What a step of thread `t` does to the nodes: those in the lists afterwards were there before or
in the hand of `t`, and so is the one in its hand afterwards; no other thread's node is touched. -/
structure Moves (w w' : MqWorld T) (t : T) (linked spare linked' spare' : List Nat) : Prop where
  others : SameHands w w' t
  nodes : Nodes w'.obj linked' spare'
  entry : w'.obj.entry.toNat = linked'.length
  size : w'.obj.maxMsgs = w.obj.maxMsgs
  origin : ∀ n, n ∈ linked' ∨ n ∈ spare' → n ∈ linked ∨ n ∈ spare ∨ (w.call t).holds = some n
  mine : ∀ n, (w'.call t).holds = some n →
    (n ∉ linked' ∧ n ∉ spare') ∧ (n ∈ linked ∨ n ∈ spare ∨ (w.call t).holds = some n)
  count : linked'.length + spare'.length + (holders w').card =
    linked.length + spare.length + (holders w).card
  same : ∀ n, n ∉ linked → n ∉ spare → (w.call t).holds ≠ some n →
    (w'.obj.node n).data = (w.obj.node n).data ∧ (w'.obj.node n).urgent = (w.obj.node n).urgent ∧
      w'.obj.next n = w.obj.next n
  filled : ∀ msg data prio urgent, w'.call t = .linking msg data prio urgent →
    (w'.obj.node msg).data = data ∧ (w'.obj.node msg).urgent = urgent ∧
      (urgent = false → w'.obj.next msg = none)
  emptied : ∀ msg size buffer prio, w'.call t = .freeing msg size buffer prio →
    buffer = (w'.obj.node msg).data.take size

omit [DecidableEq T] in
theorem Placed.setWaits (placed : Placed w linked spare) (waits : Waits Side T) :
    Placed { w with waits := waits } linked spare :=
  ⟨placed.nodes, placed.entry, placed.apart, placed.own, placed.count, placed.filled, placed.emptied⟩

omit [DecidableEq T] in
theorem Placed.stranger (placed : Placed w linked spare) {u : T} (other : u ≠ t) {n : Nat}
    (held : (w.call u).holds = some n) :
    n ∉ linked ∧ n ∉ spare ∧ (w.call t).holds ≠ some n := by
  obtain ⟨outside, notSpare⟩ := placed.apart u n held
  exact ⟨outside, notSpare, fun mine => other (placed.own u t n held mine)⟩

theorem Placed.step (placed : Placed w linked spare) {linked' spare' : List Nat}
    (moves : Moves w w' t linked spare linked' spare') : Placed w' linked' spare' where
  nodes := moves.nodes
  entry := moves.entry
  apart u n held := by
    by_cases own : u = t
    · exact (moves.mine n (own ▸ held)).1
    · rw [moves.others u own] at held
      obtain ⟨outside, notSpare, notMine⟩ := placed.stranger own held
      have nowhere : ¬(n ∈ linked' ∨ n ∈ spare') := by
        intro inside
        rcases moves.origin n inside with before | before | before
        · exact outside before
        · exact notSpare before
        · exact notMine before
      exact not_or.mp nowhere
  own u v n heldU heldV := by
    by_cases ownU : u = t <;> by_cases ownV : v = t
    · rw [ownU, ownV]
    · rw [moves.others v ownV] at heldV
      obtain ⟨outside, notSpare, notMine⟩ := placed.stranger ownV heldV
      rcases (moves.mine n (ownU ▸ heldU)).2 with before | before | before
      · exact absurd before outside
      · exact absurd before notSpare
      · exact absurd before notMine
    · rw [moves.others u ownU] at heldU
      obtain ⟨outside, notSpare, notMine⟩ := placed.stranger ownU heldU
      rcases (moves.mine n (ownV ▸ heldV)).2 with before | before | before
      · exact absurd before outside
      · exact absurd before notSpare
      · exact absurd before notMine
    · rw [moves.others u ownU] at heldU
      rw [moves.others v ownV] at heldV
      exact placed.own u v n heldU heldV
  count := by
    rw [moves.count, moves.size]
    exact placed.count
  filled u msg data prio urgent place := by
    by_cases own : u = t
    · exact moves.filled msg data prio urgent (own ▸ place)
    · rw [moves.others u own] at place
      have held : (w.call u).holds = some msg := by rw [place]; rfl
      obtain ⟨outside, notSpare, notMine⟩ := placed.stranger own held
      obtain ⟨data', urgent', next'⟩ := moves.same msg outside notSpare notMine
      rw [data', urgent', next']
      exact placed.filled u msg data prio urgent place
  emptied u msg size buffer prio place := by
    by_cases own : u = t
    · exact moves.emptied msg size buffer prio (own ▸ place)
    · rw [moves.others u own] at place
      have held : (w.call u).holds = some msg := by rw [place]; rfl
      obtain ⟨outside, notSpare, notMine⟩ := placed.stranger own held
      rw [(moves.same msg outside notSpare notMine).1]
      exact placed.emptied u msg size buffer prio place

theorem MqCall.hand_congr {call : MqCall} {node node' : Nat → MqMessage}
    (same : ∀ n, call.holds = some n → (node' n).data = (node n).data) :
    call.hand node' = call.hand node := by
  cases call <;> first
    | exact congrArg some (same _ rfl)
    | rfl

theorem MqGood.step (good : MqGood rel line w linked spare) {linked' spare' : List Nat}
    {line' : Line Q T (List UInt8)} (moves : Moves w w' t linked spare linked' spare')
    (queue : rel line'.queue w'.obj.node linked')
    (otherHands : ∀ u, u ≠ t → line'.hand u = line.hand u)
    (hand : line'.hand t = (w'.call t).hand w'.obj.node) (tidy : Tidy MqCall.waitsIn w')
    (served : Served MqCall.waitsIn (mqUnits w'.obj spare') w') :
    MqGood rel line' w' linked' spare' where
  placed := good.placed.step moves
  queue := queue
  hands u := by
    by_cases own : u = t
    · rw [own, hand]
    · rw [otherHands u own, good.hands u, moves.others u own]
      apply (MqCall.hand_congr _).symm
      intro n held
      obtain ⟨outside, notSpare, notMine⟩ := good.placed.stranger own held
      exact (moves.same n outside notSpare notMine).1
  tidy := tidy
  served := served

theorem MqGood.quiet (good : MqGood rel line w linked spare) (obj : w'.obj = w.obj)
    (others : SameHands w w' t) (before : (w.call t).holds = none) (after : (w'.call t).holds = none)
    (tidy : Tidy MqCall.waitsIn w') (served : Served MqCall.waitsIn (mqUnits w.obj spare) w') :
    MqGood rel line w' linked spare := by
  have moves : Moves w w' t linked spare linked spare := by
    constructor
    · exact others
    · rw [obj]
      exact good.placed.nodes
    · rw [obj]
      exact good.placed.entry
    · rw [obj]
    · intro n inside
      exact inside.imp_right Or.inl
    · intro n held
      rw [after] at held
      cases held
    · rw [holders_same (w := w)]
      intro u
      by_cases own : u = t
      · rw [own, before, after]
      · rw [others u own]
    · intro n _ _ _
      rw [obj]
      exact ⟨rfl, rfl, rfl⟩
    · intro msg data prio urgent place
      rw [place] at after
      cases after
    · intro msg size buffer prio place
      rw [place] at after
      cases after
  apply good.step moves _ (fun _ _ => rfl) _ tidy
  · rw [obj]
    exact served
  · rw [obj]
    exact good.queue
  · rw [good.hands t, MqCall.hand_none before, MqCall.hand_none after]

theorem MqGood.alloc (good : MqGood rel line w linked spare) {msg : Nat} (head : w.obj.free = some msg)
    (before : (w.call t).holds = none) (awake : (w.waits.thread t).suspended = false)
    (role : ∀ q, (w.call t).waitsIn = some q → q = .senders) (data : List UInt8) (prio : Int32)
    (urgent : Bool) :
    ∃ rest, MqGood rel line (World.goto { w with obj := { w.obj with free := (w.obj.node msg).next } } t
      (.filling msg data prio urgent)) linked rest := by
  obtain ⟨rest, rfl, nodes, notLinked, notRest⟩ := good.placed.nodes.alloc head
  have moves : Moves w (World.goto { w with obj := { w.obj with free := (w.obj.node msg).next } } t
      (.filling msg data prio urgent)) t linked (msg :: rest) linked rest := by
    constructor
    · exact fun u other => World.goto_call_other _ other _
    · exact nodes
    · exact good.placed.entry
    · rfl
    · rintro n (inside | inside)
      · exact Or.inl inside
      · exact Or.inr (Or.inl (List.mem_cons_of_mem msg inside))
    · intro n held
      rw [World.goto_call] at held
      cases held
      exact ⟨⟨notLinked, notRest⟩, Or.inr (Or.inl List.mem_cons_self)⟩
    · have more : (holders (World.goto { w with obj := { w.obj with free := (w.obj.node msg).next } } t
          (.filling msg data prio urgent))).card = (holders w).card + 1 :=
        holders_gain (fun u other => World.goto_call_other _ other _) before
          (by rw [World.goto_call]; rfl)
      rw [more, List.length_cons]
      omega
    · exact fun _ _ _ _ => ⟨rfl, rfl, rfl⟩
    · intro m data' prio' urgent' place
      rw [World.goto_call] at place
      cases place
    · intro m size buffer prio' place
      rw [World.goto_call] at place
      cases place
  refine ⟨rest, good.step moves good.queue (fun _ _ => rfl) ?_
    ((good.tidy.setObj { w.obj with free := (w.obj.node msg).next }).goto awake _) ?_⟩
  · rw [good.hands t, MqCall.hand_none before, World.goto_call]
    rfl
  · -- the sender has its free node
    apply (good.served.fewer { w.obj with free := (w.obj.node msg).next } fun _ => le_rfl).leave .senders role
    · left
      exact le_rfl
    · intro q other
      cases q with
      | receivers => exact le_rfl
      | senders => exact absurd rfl other

end steps

end

end RtThread.Ipc
