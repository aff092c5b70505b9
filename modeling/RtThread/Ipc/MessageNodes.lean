import RtThread.Ipc.MessageQueue
import RtThread.Lib.Segment

/-! The nodes of a message queue: which of them are queued and which are free, and what each
operation of the code does to the two lists. -/

set_option autoImplicit false
namespace RtThread.Ipc
open Lib

def MqMessage.data (m : MqMessage) : List UInt8 := m.bytes.take m.length

def MessageQueue.next (mq : MessageQueue) (n : Nat) : Option Nat := (mq.node n).next

structure Nodes (mq : MessageQueue) (linked spare : List Nat) : Prop where
  queue : Segment mq.next mq.head linked none
  tail : mq.tail = linked.getLast?
  free : Segment mq.next mq.free spare none
  nodup : (linked ++ spare).Nodup

namespace MessageQueue
variable (mq : MessageQueue) (n : Nat)

@[simp] theorem setNext_next (x : Option Nat) : (mq.setNext n x).next n = x := by
  simp [setNext, next]

theorem setNext_other (x : Option Nat) {m : Nat} (other : m ≠ n) : (mq.setNext n x).next m = mq.next m := by
  simp [setNext, next, other]

@[simp] theorem setNext_data (x : Option Nat) (m : Nat) :
    ((mq.setNext n x).node m).data = (mq.node m).data := by
  by_cases own : m = n
  · subst own
    simp [setNext, MqMessage.data]
  · simp [setNext, own]

@[simp] theorem setNext_prio (x : Option Nat) (m : Nat) :
    ((mq.setNext n x).node m).prio = (mq.node m).prio := by
  by_cases own : m = n
  · subst own
    simp [setNext]
  · simp [setNext, own]

@[simp] theorem setNext_urgent (x : Option Nat) (m : Nat) :
    ((mq.setNext n x).node m).urgent = (mq.node m).urgent := by
  by_cases own : m = n
  · subst own
    simp [setNext]
  · simp [setNext, own]

theorem setPrio_next (prio : Int32) : (mq.setPrio n prio).next = mq.next := by
  funext m
  by_cases own : m = n
  · subst own
    simp [setPrio, next]
  · simp [setPrio, next, own]

theorem fill_next (data : List UInt8) (urgent : Bool) : (mq.fill n data urgent).next = mq.next := by
  funext m
  by_cases own : m = n
  · subst own
    simp [fill, next]
  · simp [fill, next, own]

theorem fill_other (data : List UInt8) (urgent : Bool) {m : Nat} (other : m ≠ n) :
    (mq.fill n data urgent).node m = mq.node m := by
  simp [fill, other]

theorem fill_data (data : List UInt8) (urgent : Bool) :
    ((mq.fill n data urgent).node n).data = data ∧ ((mq.fill n data urgent).node n).urgent = urgent := by
  simp [fill, MqMessage.data]

end MessageQueue

section
variable {mq : MessageQueue} {linked spare : List Nat} {msg : Nat}

section
variable (nodes : Nodes mq linked spare)
include nodes

theorem Nodes.apart {n : Nat} (inside : n ∈ linked) : n ∉ spare :=
  fun also => (List.nodup_append.mp nodes.nodup).2.2 n inside n also rfl

theorem Nodes.linked_nodup : linked.Nodup :=
  (List.nodup_append.mp nodes.nodup).1

theorem Nodes.free_nodup : spare.Nodup :=
  (List.nodup_append.mp nodes.nodup).2.1

theorem Nodes.write (fresh : msg ∉ linked ∧ msg ∉ spare)
    (mq' : MessageQueue) (head : mq'.head = mq.head) (tail : mq'.tail = mq.tail)
    (freeHead : mq'.free = mq.free) (same : ∀ n, n ≠ msg → mq'.next n = mq.next n) :
    Nodes mq' linked spare where
  queue := by
    rw [head]
    exact nodes.queue.congr fun n inside => same n fun own => fresh.1 (own ▸ inside)
  tail := by rw [tail, nodes.tail]
  free := by
    rw [freeHead]
    exact nodes.free.congr fun n inside => same n fun own => fresh.2 (own ▸ inside)
  nodup := nodes.nodup

theorem Nodes.alloc (head : mq.free = some msg) :
    ∃ rest, spare = msg :: rest ∧ Nodes { mq with free := (mq.node msg).next } linked rest ∧
      msg ∉ linked ∧ msg ∉ rest := by
  cases spare with
  | nil =>
    have none : mq.free = none := nodes.free
    rw [none] at head
    cases head
  | cons n rest =>
    have first : mq.free = some n := nodes.free.1
    rw [first] at head
    cases head
    have nodup := nodes.free_nodup
    rw [List.nodup_cons] at nodup
    have outside : msg ∉ linked := fun inside => nodes.apart inside List.mem_cons_self
    refine ⟨rest, rfl, ⟨nodes.queue, nodes.tail, nodes.free.2, ?_⟩, outside, nodup.1⟩
    have sub : (linked ++ rest).Sublist (linked ++ msg :: rest) :=
      (List.Sublist.refl linked).append (List.sublist_cons_self msg rest)
    exact nodes.nodup.sublist sub

theorem Nodes.unlink (head : mq.head = some msg) :
    ∃ rest, linked = msg :: rest ∧ Nodes (mq.unlink msg) rest spare ∧ msg ∉ rest ∧ msg ∉ spare := by
  cases linked with
  | nil =>
    have none : mq.head = none := nodes.queue
    rw [none] at head
    cases head
  | cons n rest =>
    have first : mq.head = some n := nodes.queue.1
    rw [first] at head
    cases head
    have nodup := nodes.linked_nodup
    rw [List.nodup_cons] at nodup
    refine ⟨rest, rfl, ⟨nodes.queue.2, ?_, nodes.free, ?_⟩, nodup.1, nodes.apart List.mem_cons_self⟩
    · have tail : (mq.unlink msg).tail = if mq.tail = some msg then none else mq.tail := rfl
      rw [tail, nodes.tail]
      cases last : rest.getLast? with
      | none =>
        have empty : rest = [] := List.getLast?_eq_none_iff.mp last
        simp [empty]
      | some m =>
        have member : m ∈ rest := List.mem_of_getLast? last
        have whole : (msg :: rest).getLast? = some m := by
          rw [List.getLast?_cons, last]
          rfl
        have other : some m ≠ some msg := fun same => nodup.1 (Option.some.inj same ▸ member)
        rw [whole, if_neg other]
    · exact (List.nodup_cons.mp nodes.nodup).2

theorem Nodes.release (fresh : msg ∉ linked ∧ msg ∉ spare) :
    Nodes (mq.release msg) linked (msg :: spare) where
  queue := nodes.queue.congr fun n inside =>
    mq.setNext_other msg mq.free fun own => fresh.1 (own ▸ inside)
  tail := nodes.tail
  free := by
    refine ⟨rfl, ?_⟩
    have link : (mq.release msg).next msg = mq.free := mq.setNext_next msg mq.free
    rw [link]
    exact nodes.free.congr fun n inside =>
      mq.setNext_other msg mq.free fun own => fresh.2 (own ▸ inside)
  nodup := by
    rw [List.nodup_middle]
    refine List.nodup_cons.mpr ⟨?_, nodes.nodup⟩
    rw [List.mem_append, not_or]
    exact fresh

end

theorem Nodes.nodup_around (before after : List Nat) (nodes : Nodes mq (before ++ after) spare)
    (fresh : msg ∉ before ++ after ∧ msg ∉ spare) : (before ++ msg :: after ++ spare).Nodup := by
  have moved : (msg :: (before ++ after ++ spare)).Nodup := by
    refine List.nodup_cons.mpr ⟨?_, nodes.nodup⟩
    rw [List.mem_append, not_or]
    exact fresh
  have perm : (msg :: (before ++ after ++ spare)).Perm (before ++ msg :: after ++ spare) :=
    (List.perm_middle.append_right spare).symm
  exact perm.nodup_iff.mp moved

theorem Nodes.linkUrgent (nodes : Nodes mq linked spare) (fresh : msg ∉ linked ∧ msg ∉ spare) :
    Nodes (mq.linkUrgent msg) (msg :: linked) spare := by
  have same : ∀ n, n ≠ msg → (mq.linkUrgent msg).next n = mq.next n :=
    fun n other => mq.setNext_other msg mq.head other
  have link : (mq.linkUrgent msg).next msg = mq.head := mq.setNext_next msg mq.head
  constructor
  · refine ⟨rfl, ?_⟩
    rw [link]
    exact nodes.queue.congr fun n inside => same n fun own => fresh.1 (own ▸ inside)
  · have tail : (mq.linkUrgent msg).tail = if mq.tail = none then some msg else mq.tail := rfl
    rw [tail, nodes.tail, List.getLast?_cons]
    cases last : linked.getLast? with
    | none => rfl
    | some m => rfl
  · exact nodes.free.congr fun n inside => same n fun own => fresh.2 (own ▸ inside)
  · exact nodup_around [] linked nodes fresh

theorem Nodes.link (nodes : Nodes mq linked spare) (fresh : msg ∉ linked ∧ msg ∉ spare)
    (ends : mq.next msg = none) : Nodes (mq.link msg) (linked ++ [msg]) spare := by
  have nodup : (linked ++ [msg] ++ spare).Nodup := by
    have around : (linked ++ msg :: [] ++ spare).Nodup :=
      nodup_around linked [] (by simpa using nodes) (by simpa using fresh)
    simpa using around
  cases last : mq.tail with
  | none =>
    have empty : linked = [] := by
      have tail := nodes.tail
      rw [last] at tail
      exact List.getLast?_eq_none_iff.mp tail.symm
    subst empty
    have none : mq.head = none := nodes.queue
    have linkedTo : mq.link msg = { mq with tail := some msg, head := some msg } := by
      simp [MessageQueue.link, last, none]
    rw [linkedTo]
    exact ⟨⟨rfl, ends⟩, rfl, nodes.free, nodup⟩
  | some p =>
    obtain ⟨before, rfl⟩ : ∃ before, linked = before ++ [p] := by
      have tail := nodes.tail
      rw [last] at tail
      exact ⟨linked.dropLast, (List.dropLast_append_getLast? p tail.symm).symm⟩
    have someHead : mq.head ≠ none := by
      intro none
      have queue := nodes.queue
      rw [none] at queue
      have := queue.empty
      simp at this
    have linkedTo : mq.link msg = { mq.setNext p (some msg) with tail := some msg } := by
      simp only [MessageQueue.link, last]
      rw [if_neg (by simpa [MessageQueue.setNext] using someHead)]
    have same : ∀ n, n ≠ p → (mq.link msg).next n = mq.next n := by
      intro n other
      rw [linkedTo]
      exact mq.setNext_other p (some msg) other
    have pLinked : p ∈ before ++ [p] := List.mem_append_right before (List.mem_singleton_self p)
    have differ : msg ≠ p := fun own => fresh.1 (own ▸ pLinked)
    have pBefore : p ∉ before := by
      have := nodes.linked_nodup
      rw [List.nodup_append] at this
      exact fun inside => this.2.2 p inside p (List.mem_singleton_self p) rfl
    constructor
    · have head : (mq.link msg).head = mq.head := by
        rw [linkedTo]
        rfl
      obtain ⟨first, _⟩ := nodes.queue.last
      rw [head]
      have inserted : Segment (mq.link msg).next mq.head (before ++ [p, msg] ++ []) none := by
        have nothing : Segment mq.next none [] none := rfl
        apply first.insert nothing
        · exact ⟨fun inside => fresh.1 (List.mem_append_left _ inside), by simp, pBefore, by simp, differ⟩
        · rw [linkedTo]
          exact mq.setNext_next p (some msg)
        · rw [same msg differ, ends]
        · exact fun m other _ => same m other
      simpa using inserted
    · rw [linkedTo, List.getLast?_concat]
    · have freeHead : (mq.link msg).free = mq.free := by
        rw [linkedTo]
        rfl
      rw [freeHead]
      exact nodes.free.congr fun n inside => same n fun own => nodes.apart pLinked (own ▸ inside)
    · exact nodup

structure SameMessages (node node' : Nat → MqMessage) : Prop where
  data : ∀ n, (node' n).data = (node n).data
  prio : ∀ n, (node' n).prio = (node n).prio
  urgent : ∀ n, (node' n).urgent = (node n).urgent

theorem SameMessages.refl (node : Nat → MqMessage) : SameMessages node node :=
  ⟨fun _ => rfl, fun _ => rfl, fun _ => rfl⟩

theorem SameMessages.trans {first second third : Nat → MqMessage} (before : SameMessages first second)
    (after : SameMessages second third) : SameMessages first third where
  data n := (after.data n).trans (before.data n)
  prio n := (after.prio n).trans (before.prio n)
  urgent n := (after.urgent n).trans (before.urgent n)

theorem setNext_messages (mq : MessageQueue) (n : Nat) (x : Option Nat) :
    SameMessages mq.node (mq.setNext n x).node :=
  ⟨mq.setNext_data n x, mq.setNext_prio n x, mq.setNext_urgent n x⟩

theorem link_messages (mq : MessageQueue) (msg : Nat) : SameMessages mq.node (mq.link msg).node := by
  cases tail : mq.tail with
  | none =>
    have same : (mq.link msg).node = mq.node := by simp only [MessageQueue.link, tail]
    rw [same]
    exact .refl mq.node
  | some p =>
    have same : (mq.link msg).node = (mq.setNext p (some msg)).node := by
      simp only [MessageQueue.link, tail]
    rw [same]
    exact setNext_messages mq p (some msg)

theorem linkUrgent_messages (mq : MessageQueue) (msg : Nat) : SameMessages mq.node (mq.linkUrgent msg).node :=
  setNext_messages mq msg mq.head

theorem release_messages (mq : MessageQueue) (msg : Nat) : SameMessages mq.node (mq.release msg).node :=
  setNext_messages mq msg mq.free

theorem scan_messages (mq : MessageQueue) (msg : Nat) (prev start : Option Nat) (fuel : Nat) :
    SameMessages mq.node (mq.scan msg prev start fuel).node := by
  induction fuel generalizing prev start with
  | zero => cases start <;> exact .refl mq.node
  | succ fuel ih =>
    cases start with
    | none => exact .refl mq.node
    | some node =>
      simp only [MessageQueue.scan]
      split
      · cases prev with
        | none => exact setNext_messages { mq with head := some msg } msg (some node)
        | some p => exact (setNext_messages mq p (some msg)).trans (setNext_messages _ msg (some node))
      · split
        · split
          · exact setNext_messages mq node (some msg)
          · exact .refl mq.node
        · exact ih (some node) (mq.node node).next

theorem setPrio_messages (mq : MessageQueue) (n : Nat) (prio : Int32) :
    (∀ m, ((mq.setPrio n prio).node m).data = (mq.node m).data ∧
      ((mq.setPrio n prio).node m).urgent = (mq.node m).urgent) ∧
    ((mq.setPrio n prio).node n).prio = prio ∧
    ∀ m, m ≠ n → ((mq.setPrio n prio).node m).prio = (mq.node m).prio := by
  refine ⟨fun m => ?_, by simp [MessageQueue.setPrio], fun m other => by simp [MessageQueue.setPrio, other]⟩
  by_cases own : m = n
  · subst own
    simp [MessageQueue.setPrio, MqMessage.data]
  · simp [MessageQueue.setPrio, own]

theorem Nodes.link_other (nodes : Nodes mq linked spare) {n : Nat} (outside : n ∉ linked) :
    (mq.link msg).next n = mq.next n := by
  cases last : mq.tail with
  | none =>
    have same : (mq.link msg).node = mq.node := by simp only [MessageQueue.link, last]
    simp only [MessageQueue.next, same]
  | some p =>
    have inside : p ∈ linked := by
      have tail := nodes.tail
      rw [last] at tail
      exact List.mem_of_getLast? tail.symm
    have same : (mq.link msg).next = (mq.setNext p (some msg)).next := by
      funext m
      simp only [MessageQueue.next, MessageQueue.link, last]
    rw [same]
    exact mq.setNext_other p (some msg) fun own => outside (own ▸ inside)

theorem linkUrgent_other (mq : MessageQueue) {n : Nat} (other : n ≠ msg) :
    (mq.linkUrgent msg).next n = mq.next n :=
  mq.setNext_other msg mq.head other

theorem scan_other (mq : MessageQueue) {n : Nat} (other : n ≠ msg) (fuel : Nat) (prev start : Option Nat)
    (rest : List Nat) (held : Segment mq.next start rest none) (outside : n ∉ rest)
    (behind : prev ≠ some n) : (mq.scan msg prev start fuel).next n = mq.next n := by
  induction fuel generalizing prev start rest with
  | zero => cases start <;> rfl
  | succ fuel ih =>
    cases start with
    | none => rfl
    | some node =>
      cases rest with
      | nil => cases held
      | cons first rest =>
        obtain ⟨same, held⟩ := held
        cases same
        have notFirst : n ≠ node := fun own => outside (own ▸ List.mem_cons_self)
        simp only [MessageQueue.scan]
        split
        · cases prev with
          | none => exact MessageQueue.setNext_other _ msg _ other
          | some p =>
            have notPrev : n ≠ p := fun own => behind (own ▸ rfl)
            exact (MessageQueue.setNext_other _ msg _ other).trans
              (MessageQueue.setNext_other _ p _ notPrev)
        · split
          · split
            · exact mq.setNext_other node (some msg) notFirst
            · rfl
          · exact ih (some node) _ rest held (fun inside => outside (List.mem_cons_of_mem node inside))
              fun same => notFirst (Option.some.inj same).symm

/-- `msg` hung in front of the first node of a lower priority. -/
def MessageQueue.ranked (mq : MessageQueue) (msg : Nat) (rest : List Nat) : List Nat :=
  rest.orderedInsert (fun n m => (mq.node m).prio < (mq.node n).prio) msg

-- Induction on the nodes in front of which the scan still may stop; `visited` lies behind it.
theorem Nodes.scan (visited rest : List Nat) (nodes : Nodes mq (visited ++ rest) spare)
    (fresh : msg ∉ visited ++ rest ∧ msg ∉ spare) (ends : mq.next msg = none) (some : rest ≠ [])
    (fuel : Nat) (enough : rest.length ≤ fuel) :
    Nodes (mq.scan msg visited.getLast? rest.head? fuel) (visited ++ mq.ranked msg rest) spare := by
  induction rest generalizing visited fuel with
  | nil => exact absurd rfl some
  | cons x tail ih =>
    obtain ⟨fuel, rfl⟩ : ∃ less, fuel = less + 1 := ⟨fuel - 1, by
      rw [List.length_cons] at enough
      omega⟩
    obtain ⟨mid, front, back⟩ := nodes.queue.split
    have start : mid = Option.some x := back.1
    subst start
    have differ : x ≠ msg := fun own => fresh.1 (List.mem_append_right _ (own ▸ List.mem_cons_self))
    have xSpare : x ∉ spare := nodes.apart (List.mem_append_right _ List.mem_cons_self)
    simp only [List.head?_cons, MessageQueue.scan]
    by_cases lower : (mq.node x).prio < (mq.node msg).prio
    · -- in front of x
      have list : visited ++ mq.ranked msg (x :: tail) = visited ++ msg :: x :: tail := by
        simp [MessageQueue.ranked, lower]
      have nodup := nodup_around visited (x :: tail) nodes fresh
      have last : (visited ++ msg :: x :: tail).getLast? = (visited ++ x :: tail).getLast? := by
        simp [List.getLast?_append, List.getLast?_cons]
      rw [if_pos lower, list]
      cases before : visited.getLast? with
      | none =>
        have empty : visited = [] := List.getLast?_eq_none_iff.mp before
        subst empty
        have same : ∀ n, n ≠ msg → (({ mq with head := Option.some msg } : MessageQueue).setNext msg
            (Option.some x)).next n = mq.next n :=
          fun n other => MessageQueue.setNext_other _ msg (Option.some x) other
        constructor
        · refine ⟨rfl, ?_⟩
          rw [MessageQueue.setNext_next]
          exact back.congr fun n inside => same n fun own => fresh.1 (own ▸ inside)
        · exact nodes.tail.trans last.symm
        · exact nodes.free.congr fun n inside => same n fun own => fresh.2 (own ▸ inside)
        · exact nodup
      | some p =>
        obtain ⟨before', rfl⟩ : ∃ before', visited = before' ++ [p] :=
          ⟨visited.dropLast, (List.dropLast_append_getLast? p before).symm⟩
        have pFront : p ∈ before' ++ [p] ++ x :: tail := by simp
        have pMsg : msg ≠ p := fun own => fresh.1 (own ▸ pFront)
        have unique := nodes.linked_nodup
        rw [List.append_assoc, List.nodup_append] at unique
        have pBefore : p ∉ before' := fun inside => unique.2.2 p inside p (by simp) rfl
        have pAfter : p ∉ x :: tail := (List.nodup_cons.mp unique.2.1).1
        have same : ∀ n, n ≠ p → n ≠ msg →
            ((mq.setNext p (Option.some msg)).setNext msg (Option.some x)).next n = mq.next n := by
          intro n notP notMsg
          rw [MessageQueue.setNext_other _ msg _ notMsg, MessageQueue.setNext_other _ p _ notP]
        have inserted : Segment ((mq.setNext p (Option.some msg)).setNext msg (Option.some x)).next
            mq.head (before' ++ [p, msg] ++ x :: tail) none := by
          apply front.last.1.insert back
          · exact ⟨fun inside => fresh.1 (by simp [inside]),
              fun inside => fresh.1 (List.mem_append_right _ inside), pBefore, pAfter, pMsg⟩
          · rw [MessageQueue.setNext_other _ msg _ pMsg.symm, MessageQueue.setNext_next]
          · exact MessageQueue.setNext_next ..
          · exact same
        have front' : Segment ((mq.setNext p (Option.some msg)).setNext msg (Option.some x)).next mq.head
            (before' ++ [p] ++ msg :: x :: tail) none := by simpa using inserted
        constructor
        · exact front'
        · exact nodes.tail.trans last.symm
        · refine nodes.free.congr fun n inside => same n ?_ fun own => fresh.2 (own ▸ inside)
          exact fun own => nodes.apart pFront (own ▸ inside)
        · exact nodup
    · rw [if_neg lower]
      cases tail with
      | nil =>
        -- x is the last node: msg goes behind the tail
        have stop : (mq.node x).next = none := back.2
        have list : visited ++ mq.ranked msg [x] = visited ++ [x] ++ [msg] := by
          simp [MessageQueue.ranked, lower]
        have tail : mq.tail = Option.some x := by rw [nodes.tail, List.getLast?_concat]
        have head : mq.head ≠ none := by
          intro none
          have queue := nodes.queue
          rw [none] at queue
          have := queue.empty
          simp at this
        have linked := nodes.link fresh ends
        have code : mq.link msg = { mq.setNext x (Option.some msg) with tail := Option.some msg } := by
          simp only [MessageQueue.link, tail]
          rw [if_neg (by simpa [MessageQueue.setNext] using head)]
        rw [if_pos stop, if_pos differ, list, ← code]
        exact linked
      | cons y more =>
        have next : (mq.node x).next = Option.some y := back.2.1
        have list : visited ++ mq.ranked msg (x :: y :: more) =
            visited ++ [x] ++ mq.ranked msg (y :: more) := by
          simp [MessageQueue.ranked, lower]
        have further := ih (visited ++ [x]) (by simpa using nodes) (by simpa using fresh)
          (by simp) fuel (by simpa using enough)
        rw [if_neg (by rw [next]; simp), list, next]
        simpa using further

theorem Nodes.linkPrio (nodes : Nodes mq linked spare) (fresh : msg ∉ linked ∧ msg ∉ spare)
    (ends : mq.next msg = none) (prio : Int32) (enough : linked.length ≤ mq.maxMsgs.toNat) :
    Nodes (mq.linkPrio msg prio) ((mq.setPrio msg prio).ranked msg linked) spare := by
  have marked : Nodes (mq.setPrio msg prio) linked spare :=
    nodes.write fresh _ rfl rfl rfl fun n _ => congrFun (mq.setPrio_next msg prio) n
  have markedEnds : (mq.setPrio msg prio).next msg = none := by rw [mq.setPrio_next, ends]
  cases linked with
  | nil =>
    have head : mq.head = none := nodes.queue
    -- the scan meets msg itself, the only node
    have code : mq.linkPrio msg prio =
        { mq.setPrio msg prio with head := some msg, tail := some msg } := by
      have stop : ((mq.setPrio msg prio).node msg).next = none := markedEnds
      have headless : (mq.setPrio msg prio).head = none := head
      have own : ¬((mq.setPrio msg prio).node msg).prio < ((mq.setPrio msg prio).node msg).prio :=
        Int32.lt_irrefl
      simp [MessageQueue.linkPrio, MessageQueue.scan, headless, stop, own]
    rw [code]
    exact ⟨⟨rfl, markedEnds⟩, rfl, marked.free,
      nodup_around [] [] nodes fresh⟩
  | cons n rest =>
    have head : (mq.setPrio msg prio).head = some n := nodes.queue.1
    have code : mq.linkPrio msg prio =
        (mq.setPrio msg prio).scan msg none (some n) (mq.maxMsgs.toNat + 1) := by
      have someHead : (mq.setPrio msg prio).head ≠ none := by simp [head]
      simp only [MessageQueue.linkPrio, if_neg someHead]
      rw [head]
      rfl
    rw [code]
    exact scan [] (n :: rest) marked fresh markedEnds (by simp) _ (by omega)

theorem Nodes.linkPrio_other (nodes : Nodes mq linked spare) (ends : mq.next msg = none) (prio : Int32)
    {n : Nat} (outside : n ∉ linked) (other : n ≠ msg) : (mq.linkPrio msg prio).next n = mq.next n := by
  rw [← mq.setPrio_next msg prio]
  cases linked with
  | nil =>
    have head : (mq.setPrio msg prio).head = none := nodes.queue
    simp only [MessageQueue.linkPrio, if_pos head]
    refine scan_other { mq.setPrio msg prio with head := some msg } other _ none (some msg) [msg] ?_ ?_ ?_
    · refine ⟨rfl, ?_⟩
      have link : (mq.setPrio msg prio).next msg = none := by rw [mq.setPrio_next, ends]
      exact link
    · simpa using other
    · simp
  | cons first rest =>
    have head : (mq.setPrio msg prio).head = some first := nodes.queue.1
    have someHead : (mq.setPrio msg prio).head ≠ none := by simp [head]
    simp only [MessageQueue.linkPrio, if_neg someHead]
    refine scan_other (mq.setPrio msg prio) other _ none _ (first :: rest) ?_ outside (by simp)
    rw [mq.setPrio_next]
    exact nodes.queue

theorem Nodes.releaseAll_other (nodes : Nodes mq linked spare) (fuel : Nat) {n : Nat}
    (outside : n ∉ linked) : (mq.releaseAll fuel).next n = mq.next n := by
  induction fuel generalizing mq linked spare with
  | zero => rfl
  | succ fuel ih =>
    cases head : mq.head with
    | none => simp [MessageQueue.releaseAll, head]
    | some msg =>
      obtain ⟨rest, rfl, unlinked, fresh, notSpare⟩ := nodes.unlink head
      have cut : Nodes { mq.unlink msg with entry := mq.entry } rest spare :=
        ⟨unlinked.queue, unlinked.tail, unlinked.free, unlinked.nodup⟩
      have freed := cut.release ⟨fresh, notSpare⟩
      have code : mq.releaseAll (fuel + 1) =
          (({ mq.unlink msg with entry := mq.entry } : MessageQueue).release msg).releaseAll fuel := by
        simp only [MessageQueue.releaseAll, head]
        rfl
      rw [List.mem_cons, not_or] at outside
      rw [code, ih freed outside.2]
      exact MessageQueue.setNext_other _ msg _ outside.1

theorem releaseAll_size (mq : MessageQueue) (fuel : Nat) : (mq.releaseAll fuel).maxMsgs = mq.maxMsgs := by
  induction fuel generalizing mq with
  | zero => rfl
  | succ fuel ih =>
    cases head : mq.head with
    | none => simp [MessageQueue.releaseAll, head]
    | some msg =>
      simp only [MessageQueue.releaseAll, head]
      exact (ih _).trans rfl

theorem scan_counts (mq : MessageQueue) (msg : Nat) (prev start : Option Nat) (fuel : Nat) :
    (mq.scan msg prev start fuel).entry = mq.entry ∧ (mq.scan msg prev start fuel).maxMsgs = mq.maxMsgs := by
  induction fuel generalizing prev start with
  | zero => cases start <;> exact ⟨rfl, rfl⟩
  | succ fuel ih =>
    cases start with
    | none => exact ⟨rfl, rfl⟩
    | some node =>
      simp only [MessageQueue.scan]
      split
      · cases prev <;> exact ⟨rfl, rfl⟩
      · split
        · split <;> exact ⟨rfl, rfl⟩
        · exact ih (some node) _

theorem initFree_counts (mq : MessageQueue) (count : Nat) :
    (mq.initFree count).entry = mq.entry ∧ (mq.initFree count).maxMsgs = mq.maxMsgs := by
  induction count with
  | zero => exact ⟨rfl, rfl⟩
  | succ count ih => exact ih

structure Linked (mq mq' : MessageQueue) (msg : Nat) (linked linked' spare : List Nat) : Prop where
  nodes : Nodes mq' linked' spare
  members : ∀ n, n ∈ linked' ↔ n = msg ∨ n ∈ linked
  length : linked'.length = linked.length + 1
  entry : mq'.entry = mq.entry
  size : mq'.maxMsgs = mq.maxMsgs
  messages : ∀ n, (mq'.node n).data = (mq.node n).data ∧ (mq'.node n).urgent = (mq.node n).urgent
  prio : ∀ n, n ≠ msg → (mq'.node n).prio = (mq.node n).prio
  links : ∀ n, n ∉ linked → n ≠ msg → mq'.next n = mq.next n

theorem Nodes.linkUrgent_linked (nodes : Nodes mq linked spare) (fresh : msg ∉ linked ∧ msg ∉ spare) :
    Linked mq (mq.linkUrgent msg) msg linked (msg :: linked) spare where
  nodes := nodes.linkUrgent fresh
  members _ := List.mem_cons
  length := List.length_cons
  entry := rfl
  size := rfl
  messages n := ⟨(linkUrgent_messages mq msg).data n, (linkUrgent_messages mq msg).urgent n⟩
  prio n _ := (linkUrgent_messages mq msg).prio n
  links _ _ other := linkUrgent_other mq other

theorem Nodes.link_linked (nodes : Nodes mq linked spare) (fresh : msg ∉ linked ∧ msg ∉ spare)
    (ends : mq.next msg = none) : Linked mq (mq.link msg) msg linked (linked ++ [msg]) spare where
  nodes := nodes.link fresh ends
  members n := by
    rw [List.mem_append, List.mem_singleton]
    exact or_comm
  length := List.length_append
  entry := by
    unfold MessageQueue.link
    cases mq.tail <;> rfl
  size := by
    unfold MessageQueue.link
    cases mq.tail <;> rfl
  messages n := ⟨(link_messages mq msg).data n, (link_messages mq msg).urgent n⟩
  prio n _ := (link_messages mq msg).prio n
  links _ outside _ := nodes.link_other outside

theorem linkPrio_scan (mq : MessageQueue) (msg : Nat) (prio : Int32) :
    ∃ head, mq.linkPrio msg prio = MessageQueue.scan { mq.setPrio msg prio with head := head } msg none head
      (mq.maxMsgs.toNat + 1) := by
  by_cases empty : (mq.setPrio msg prio).head = none
  · refine ⟨some msg, ?_⟩
    simp only [MessageQueue.linkPrio, if_pos empty]
    rfl
  · refine ⟨(mq.setPrio msg prio).head, ?_⟩
    simp only [MessageQueue.linkPrio, if_neg empty]
    rfl

theorem linkPrio_messages (mq : MessageQueue) (msg : Nat) (prio : Int32) :
    SameMessages (mq.setPrio msg prio).node (mq.linkPrio msg prio).node := by
  obtain ⟨head, code⟩ := linkPrio_scan mq msg prio
  rw [code]
  exact scan_messages { mq.setPrio msg prio with head := head } msg none head _

theorem Nodes.linkPrio_linked (nodes : Nodes mq linked spare) (fresh : msg ∉ linked ∧ msg ∉ spare)
    (ends : mq.next msg = none) (prio : Int32) (enough : linked.length ≤ mq.maxMsgs.toNat) :
    Linked mq (mq.linkPrio msg prio) msg linked ((mq.setPrio msg prio).ranked msg linked) spare where
  nodes := nodes.linkPrio fresh ends prio enough
  members n := List.mem_orderedInsert _
  length := List.orderedInsert_length ..
  entry := by
    obtain ⟨head, code⟩ := linkPrio_scan mq msg prio
    rw [code]
    exact (scan_counts _ msg none head _).1
  size := by
    obtain ⟨head, code⟩ := linkPrio_scan mq msg prio
    rw [code]
    exact (scan_counts _ msg none head _).2
  messages n := by
    have scanned := linkPrio_messages mq msg prio
    have marked := (setPrio_messages mq msg prio).1 n
    exact ⟨(scanned.data n).trans marked.1, (scanned.urgent n).trans marked.2⟩
  prio n other :=
    ((linkPrio_messages mq msg prio).prio n).trans ((setPrio_messages mq msg prio).2.2 n other)
  links _ outside other := nodes.linkPrio_other ends prio outside other

theorem Nodes.releaseAll (nodes : Nodes mq linked spare) (fuel : Nat) (enough : linked.length ≤ fuel) :
    Nodes (mq.releaseAll fuel) [] (linked.reverse ++ spare) ∧ SameMessages mq.node (mq.releaseAll fuel).node := by
  induction fuel generalizing mq linked spare with
  | zero =>
    have empty : linked = [] := List.length_eq_zero_iff.mp (by omega)
    subst empty
    exact ⟨nodes, .refl mq.node⟩
  | succ fuel ih =>
    cases head : mq.head with
    | none =>
      have empty : linked = [] := by
        have queue := nodes.queue
        rw [head] at queue
        exact queue.empty
      subst empty
      simpa [MessageQueue.releaseAll, head] using And.intro nodes (SameMessages.refl mq.node)
    | some msg =>
      obtain ⟨rest, rfl, unlinked, outside, notSpare⟩ := nodes.unlink head
      have cut : Nodes { mq.unlink msg with entry := mq.entry } rest spare :=
        ⟨unlinked.queue, unlinked.tail, unlinked.free, unlinked.nodup⟩
      have freed := cut.release ⟨outside, notSpare⟩
      obtain ⟨done, messages⟩ := ih freed (by
        rw [List.length_cons] at enough
        omega)
      have code : mq.releaseAll (fuel + 1) =
          (({ mq.unlink msg with entry := mq.entry } : MessageQueue).release msg).releaseAll fuel := by
        simp only [MessageQueue.releaseAll, head]
        rfl
      rw [code, List.reverse_cons, List.append_assoc]
      exact ⟨done, (release_messages { mq.unlink msg with entry := mq.entry } msg).trans messages⟩

theorem Nodes.initFree (nodes : Nodes mq [] []) (count : Nat) :
    ∃ spare, Nodes (mq.initFree count) [] spare ∧ spare.length = count ∧ ∀ n ∈ spare, n < count := by
  induction count with
  | zero => exact ⟨[], nodes, rfl, by simp⟩
  | succ count ih =>
    obtain ⟨spare, freed, length, below⟩ := ih
    have fresh : count ∉ spare := fun inside => absurd (below count inside) (Nat.lt_irrefl count)
    refine ⟨count :: spare, freed.release ⟨by simp, fresh⟩, by simp [length], ?_⟩
    intro n inside
    rcases List.mem_cons.mp inside with rfl | old
    · omega
    · have := below n old
      omega

end

end RtThread.Ipc
