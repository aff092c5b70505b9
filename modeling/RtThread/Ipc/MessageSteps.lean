import RtThread.Ipc.MessageLine

/-! The step lemma of message queues: each locked section, copy, wake-up and timeout keeps the
invariant, and the line follows what it reports. -/

set_option autoImplicit false
namespace RtThread.Ipc
open Lib

section
variable {T Q : Type} [DecidableEq T] [Fintype T] {w w' : MqWorld T} {t : T} {priority : Bool}
  {d : Discipline Q Int32 (List UInt8)} {allowed : Int32 → (Nat → MqMessage) → List Nat → Prop}
  {rel : Q → (Nat → MqMessage) → List Nat → Prop} {line : Line Q T (List UInt8)}
  {linked spare : List Nat}

structure MqFollows (d : Discipline Q Int32 (List UInt8)) (rel : Q → (Nat → MqMessage) → List Nat → Prop)
    (line : Line Q T (List UInt8)) (w : MqWorld T) (result : MqWorld T × Option (MqEvent T)) : Prop where
  good : ∃ line' linked' spare', lineReplay d line (result.2.toList.map MqEvent.line) = some line' ∧
    MqGood rel line' result.1 linked' spare'
  size : result.1.obj.maxMsgs = w.obj.maxMsgs

theorem MqGood.fill (rep : Represents priority d allowed rel) (good : MqGood rel line w linked spare)
    {msg : Nat} {data : List UInt8} {prio : Int32} {urgent : Bool}
    (place : w.call t = .filling msg data prio urgent) :
    MqFollows d rel line w (mqFill w t msg data prio urgent) := by
  have held : (w.call t).holds = some msg := by rw [place]; rfl
  have fresh := good.placed.apart t msg held
  have awake := good.tidy.awake (MqCall.waitsIn_none held)
  have node : ∀ n, n ≠ msg →
      ((if urgent then w.obj else w.obj.setNext msg none).fill msg data urgent).node n = w.obj.node n := by
    intro n other
    rw [MessageQueue.fill_other _ _ _ _ other]
    split
    · rfl
    · simp [MessageQueue.setNext, other]
  have kept : ∀ n ∈ linked, n ≠ msg := fun n inside own => fresh.1 (own ▸ inside)
  refine ⟨⟨line, linked, spare, rfl, ?_⟩, ?_⟩
  · have moves : Moves w (mqFill w t msg data prio urgent).1 t linked spare linked spare := by
      constructor
      · exact fun u other => World.goto_call_other _ other _
      · apply good.placed.nodes.write fresh
        · cases urgent <;> rfl
        · cases urgent <;> rfl
        · cases urgent <;> rfl
        · exact fun n other => congrArg MqMessage.next (node n other)
      · cases urgent <;> exact good.placed.entry
      · cases urgent <;> rfl
      · exact fun n inside => inside.imp_right Or.inl
      · intro n mine
        have own : some msg = some n := by
          rw [mqFill, World.goto_call] at mine
          exact mine
        cases own
        exact ⟨fresh, Or.inr (Or.inr held)⟩
      · rw [holders_same (w := w)]
        intro u
        by_cases own : u = t
        · rw [own, held, mqFill, World.goto_call]
          rfl
        · rw [mqFill, World.goto_call_other _ own]
      · intro n _ _ notMine
        have other : n ≠ msg := fun own => notMine (own ▸ held)
        have same := node n other
        exact ⟨congrArg MqMessage.data same, congrArg MqMessage.urgent same,
          congrArg MqMessage.next same⟩
      · intro m data' prio' urgent' linking
        have own : MqCall.linking msg data prio urgent = .linking m data' prio' urgent' := by
          rw [← linking, mqFill, World.goto_call]
        cases own
        have written := (if urgent then w.obj else w.obj.setNext msg none).fill_data msg data urgent
        refine ⟨written.1, written.2, fun normal => ?_⟩
        have link := congrFun
          ((if urgent then w.obj else w.obj.setNext msg none).fill_next msg data urgent) msg
        rw [normal] at link ⊢
        exact link.trans (w.obj.setNext_next msg none)
      · intro m size buffer prio' freeing
        rw [mqFill, World.goto_call] at freeing
        cases freeing
    apply good.step moves
    · apply rep.congr _ _ _ _ good.queue
      intro n inside
      have same := node n (kept n inside)
      exact ⟨congrArg MqMessage.data same, congrArg MqMessage.prio same, congrArg MqMessage.urgent same⟩
    · exact fun _ _ => rfl
    · rw [good.hands t, place, mqFill, World.goto_call]
      rfl
    · exact (good.tidy.setObj ((if urgent then w.obj else w.obj.setNext msg none).fill msg data urgent)).goto
        awake _
    · apply (good.served.fewer _ fun _ => le_rfl).pass
      · rw [place]
        rfl
      · intro q
        cases urgent <;> exact le_rfl
  · cases urgent <;> rfl

theorem MqGood.copy (good : MqGood rel line w linked spare) {msg size : Nat}
    (place : w.call t = .emptying msg size) : MqFollows d rel line w (mqEmpty w t msg size) := by
  have held : (w.call t).holds = some msg := by rw [place]; rfl
  have fresh := good.placed.apart t msg held
  have awake := good.tidy.awake (MqCall.waitsIn_none held)
  refine ⟨⟨line, linked, spare, rfl, ?_⟩, rfl⟩
  have moves : Moves w (mqEmpty w t msg size).1 t linked spare linked spare := by
    constructor
    · exact fun u other => World.goto_call_other _ other _
    · exact good.placed.nodes
    · exact good.placed.entry
    · rfl
    · exact fun n inside => inside.imp_right Or.inl
    · intro n mine
      have own : some msg = some n := by
        rw [mqEmpty, World.goto_call] at mine
        exact mine
      cases own
      exact ⟨fresh, Or.inr (Or.inr held)⟩
    · rw [holders_same (w := w)]
      intro u
      by_cases own : u = t
      · rw [own, held, mqEmpty, World.goto_call]
        rfl
      · rw [mqEmpty, World.goto_call_other _ own]
    · exact fun _ _ _ _ => ⟨rfl, rfl, rfl⟩
    · intro m data prio urgent linking
      rw [mqEmpty, World.goto_call] at linking
      cases linking
    · intro m size' buffer prio freeing
      rw [mqEmpty, World.goto_call] at freeing
      cases freeing
      -- the first min(sent length, receive size) bytes
      have least : (w.obj.node msg).data.take size =
          (w.obj.node msg).bytes.take (min size (w.obj.node msg).length) := List.take_take ..
      rw [mqEmpty, World.goto_obj, least]
      congr 1
      split
      · omega
      · omega
  apply good.step moves good.queue (fun _ _ => rfl)
  · rw [good.hands t, place, mqEmpty, World.goto_call]
    rfl
  · exact good.tidy.goto awake _
  · exact good.served.pass (by rw [place]; rfl) _ fun _ => le_rfl

theorem MqGood.unlink (rep : Represents priority d allowed rel) (good : MqGood rel line w linked spare)
    (before : (w.call t).holds = none) (awake : (w.waits.thread t).suspended = false)
    (role : ∀ q, (w.call t).waitsIn = some q → q = .receivers) (some : w.obj.entry ≠ 0) (size : Nat) :
    ∃ msg, w.obj.head = Option.some msg ∧
      MqFollows d rel line w ({ w with obj := w.obj.unlink msg }.goto t (.emptying msg size),
        Option.some (.taken t)) := by
  have positive : 0 < w.obj.entry.toNat := Nat.pos_of_ne_zero fun zero => some (UInt16.toNat.inj zero)
  obtain ⟨msg, head⟩ : ∃ msg, w.obj.head = Option.some msg := by
    cases linked with
    | nil =>
      have count := good.placed.entry
      rw [count] at positive
      cases positive
    | cons msg rest => exact ⟨msg, good.placed.nodes.queue.1⟩
  obtain ⟨rest, rfl, nodes, notRest, notSpare⟩ := good.placed.nodes.unlink head
  obtain ⟨queue, first, left⟩ := rep.first line.queue w.obj.node msg rest good.queue
  have entry : (w.obj.unlink msg).entry.toNat = rest.length := by
    have count := good.placed.entry
    rw [List.length_cons] at count
    simp only [MessageQueue.unlink, if_pos (uint16_pos.mpr positive)]
    rw [uint16_pred positive]
    omega
  have hand : line.hand t = none := by rw [good.hands t, MqCall.hand_none before]
  refine ⟨msg, head, ⟨⟨queue, Function.update line.hand t (Option.some (w.obj.node msg).data)⟩, rest, spare,
    ?_, ?_⟩, rfl⟩
  · rw [Option.toList_some, List.map_singleton, lineReplay_one]
    simp only [MqEvent.line, LineEvent.apply, hand, first]
  · have moves : Moves w ({ w with obj := w.obj.unlink msg }.goto t (.emptying msg size)) t
        (msg :: rest) spare rest spare := by
      constructor
      · exact fun u other => World.goto_call_other _ other _
      · exact nodes
      · exact entry
      · rfl
      · exact fun n inside => inside.imp (List.mem_cons_of_mem msg) Or.inl
      · intro n mine
        rw [World.goto_call] at mine
        cases mine
        exact ⟨⟨notRest, notSpare⟩, Or.inl List.mem_cons_self⟩
      · have more : (holders ({ w with obj := w.obj.unlink msg }.goto t (.emptying msg size))).card =
            (holders w).card + 1 :=
          holders_gain (fun u other => World.goto_call_other _ other _) before
            (by rw [World.goto_call]; rfl)
        rw [more, List.length_cons]
        omega
      · exact fun _ _ _ _ => ⟨rfl, rfl, rfl⟩
      · intro m data prio urgent linking
        rw [World.goto_call] at linking
        cases linking
      · intro m size' buffer prio freeing
        rw [World.goto_call] at freeing
        cases freeing
    apply good.step moves left
    · exact fun u other => Function.update_of_ne other ..
    · rw [World.goto_call]
      exact Function.update_self ..
    · exact (good.tidy.setObj (w.obj.unlink msg)).goto awake _
    · apply (good.served.fewer (w.obj.unlink msg) fun _ => le_rfl).leave .receivers role
      · left
        have count := good.placed.entry
        rw [List.length_cons] at count
        simp only [mqUnits, World.goto_obj, entry]
        omega
      · intro q other
        cases q with
        | receivers => exact absurd rfl other
        | senders => exact le_rfl

theorem MqGood.free (rep : Represents priority d allowed rel) (good : MqGood rel line w linked spare)
    {msg size : Nat} {buffer : List UInt8} {prio : Int32}
    (place : w.call t = .freeing msg size buffer prio) :
    MqFollows d rel line w (mqFree w t msg size buffer prio) := by
  have held : (w.call t).holds = some msg := by rw [place]; rfl
  have fresh := good.placed.apart t msg held
  have awake := good.tidy.awake (MqCall.waitsIn_none held)
  have messages := release_messages w.obj msg
  have hand : line.hand t = some (w.obj.node msg).data := by
    rw [good.hands t, place]
    rfl
  have accepted : ((w.obj.node msg).data.take size == buffer) = true := by
    rw [good.placed.emptied t msg size buffer prio place]
    exact beq_self_eq_true _
  have calls : ∀ u, (mqFree w t msg size buffer prio).1.call u =
      (World.goto w t .idle).call u := by
    intro u
    simp only [mqFree, World.goto, World.resumeOne_call]
  refine ⟨⟨{ line with hand := Function.update line.hand t none }, linked, msg :: spare, ?_, ?_⟩,
    by simp [mqFree, MessageQueue.release, MessageQueue.setNext]⟩
  · rw [mqFree, Option.toList_some, List.map_singleton, lineReplay_one]
    simp only [MqEvent.line, LineEvent.apply, hand, accepted, if_true]
  · have obj : (mqFree w t msg size buffer prio).1.obj = w.obj.release msg := by simp [mqFree]
    have idle : (mqFree w t msg size buffer prio).1.call t = .idle := by rw [calls, World.goto_call]
    have others : SameHands w (mqFree w t msg size buffer prio).1 t := fun u other => by
      rw [calls, World.goto_call_other _ other]
    have moves : Moves w (mqFree w t msg size buffer prio).1 t linked spare linked (msg :: spare) := by
      constructor
      · exact others
      · rw [obj]
        exact good.placed.nodes.release fresh
      · rw [obj]
        exact good.placed.entry
      · rw [obj]
        rfl
      · rintro n (inside | inside)
        · exact Or.inl inside
        · rcases List.mem_cons.mp inside with rfl | old
          · exact Or.inr (Or.inr held)
          · exact Or.inr (Or.inl old)
      · intro n mine
        rw [idle] at mine
        cases mine
      · have less := holders_lose others (by rw [held]; rfl) (by rw [idle]; rfl)
        rw [less, List.length_cons]
        omega
      · intro n _ _ notMine
        have other : n ≠ msg := fun own => notMine (own ▸ held)
        rw [obj]
        exact ⟨messages.data n, messages.urgent n, w.obj.setNext_other msg w.obj.free other⟩
      · intro m data prio urgent linking
        rw [idle] at linking
        cases linking
      · intro m size buffer prio freeing
        rw [idle] at freeing
        cases freeing
    have tidy : Tidy MqCall.waitsIn { w.goto t .idle with obj := w.obj.release msg } :=
      (good.tidy.goto awake .idle).setObj _
    have code : (mqFree w t msg size buffer prio).1 =
        World.resumeOne { w.goto t .idle with obj := w.obj.release msg } .senders :=
      World.resumeOne_goto ..
    apply good.step moves
    · rw [obj]
      exact rep.congr _ _ _ _ good.queue fun n _ => ⟨messages.data n, messages.prio n, messages.urgent n⟩
    · exact fun u other => Function.update_of_ne other ..
    · rw [idle]
      exact Function.update_self ..
    · rw [code]
      exact tidy.resumeOne .senders
    · have left := good.served.pass (by rw [place]; rfl) .idle (fun _ => le_rfl)
      rw [obj, code]
      apply (left.fewer (w.obj.release msg) fun _ => le_rfl).give tidy .senders
      · simp [mqUnits]
      · intro q other
        cases q with
        | receivers => exact le_rfl
        | senders => exact absurd rfl other

theorem MqGood.hang (good : MqGood rel line w linked spare) {msg : Nat} {linked' : List Nat}
    (held : (w.call t).holds = some msg) (empty : (w.call t).hand w.obj.node = none) {obj : MessageQueue}
    (hung : Linked w.obj obj msg linked linked' spare) {queue : Q} (represents : rel queue obj.node linked') :
    obj.entry < rtMqEntryMax ∧
      MqGood rel { line with queue := queue }
        ((World.resumeOne { w with obj := { obj with entry := obj.entry + 1 } } .receivers).goto t .idle)
        linked' spare := by
  have awake := good.tidy.awake (MqCall.waitsIn_none held)
  have count := good.placed.count
  have entry := good.placed.entry
  have bound := w.obj.maxMsgs.toNat_lt
  -- the thread's own node is not in the queue, so a node is missing there
  have someone : 0 < (holders w).card :=
    Finset.card_pos.mpr ⟨t, (mem_holders w t).mpr (by rw [held]; rfl)⟩
  have max : rtMqEntryMax.toNat = 65535 := rfl
  have room : obj.entry.toNat < rtMqEntryMax.toNat := by
    rw [hung.entry]
    omega
  have entry' : (obj.entry + 1).toNat = linked'.length := by
    rw [uint16_succ room, hung.entry, hung.length]
    omega
  have code : (World.resumeOne { w with obj := { obj with entry := obj.entry + 1 } } .receivers).goto t .idle =
      World.resumeOne { w.goto t .idle with obj := { obj with entry := obj.entry + 1 } } .receivers :=
    World.resumeOne_goto ..
  have tidy : Tidy MqCall.waitsIn { w.goto t .idle with obj := { obj with entry := obj.entry + 1 } } :=
    (good.tidy.goto awake .idle).setObj _
  rw [code]
  refine ⟨UInt16.lt_iff_toNat_lt.mpr room, ?_⟩
  have idle : (World.resumeOne { w.goto t .idle with obj := { obj with entry := obj.entry + 1 } }
      .receivers).call t = .idle := by
    rw [World.resumeOne_call]
    exact w.goto_call t .idle
  have others : SameHands w
      (World.resumeOne { w.goto t .idle with obj := { obj with entry := obj.entry + 1 } } .receivers) t := by
    intro u other
    rw [World.resumeOne_call]
    exact w.goto_call_other other .idle
  have moves : Moves w
      (World.resumeOne { w.goto t .idle with obj := { obj with entry := obj.entry + 1 } } .receivers) t
      linked spare linked' spare := by
    constructor
    · exact others
    · rw [World.resumeOne_obj]
      exact ⟨hung.nodes.queue, hung.nodes.tail, hung.nodes.free, hung.nodes.nodup⟩
    · rw [World.resumeOne_obj]
      exact entry'
    · rw [World.resumeOne_obj]
      exact hung.size
    · rintro n (inside | inside)
      · rcases (hung.members n).mp inside with rfl | before
        · exact Or.inr (Or.inr held)
        · exact Or.inl before
      · exact Or.inr (Or.inl inside)
    · intro n mine
      rw [idle] at mine
      cases mine
    · have less := holders_lose others (by rw [held]; rfl) (by rw [idle]; rfl)
      rw [less, hung.length]
      omega
    · intro n outside _ notMine
      have other : n ≠ msg := fun own => notMine (own ▸ held)
      rw [World.resumeOne_obj]
      exact ⟨(hung.messages n).1, (hung.messages n).2, hung.links n outside other⟩
    · intro m data prio urgent linking
      rw [idle] at linking
      cases linking
    · intro m size buffer prio freeing
      rw [idle] at freeing
      cases freeing
  apply good.step moves
  · rw [World.resumeOne_obj]
    exact represents
  · exact fun _ _ => rfl
  · rw [good.hands t, idle, empty]
    rfl
  · exact tidy.resumeOne .receivers
  · have left := good.served.pass (MqCall.waitsIn_none held) .idle fun _ => le_rfl
    rw [World.resumeOne_obj]
    apply (left.fewer { obj with entry := obj.entry + 1 } fun _ => le_rfl).give tidy .receivers
    · have old := hung.length
      simp only [mqUnits, entry']
      omega
    · intro q other
      cases q with
      | receivers => exact absurd rfl other
      | senders => exact le_rfl

/-- The second locked section of a send or an urgent send; with priorities the message queue has to
allow it. -/
theorem MqGood.link (rep : Represents priority d allowed rel) (good : MqGood rel line w linked spare)
    {msg : Nat} {data : List UInt8} {prio : Int32} {urgent : Bool}
    (place : w.call t = .linking msg data prio urgent)
    (may : urgent = false → allowed prio w.obj.node linked) :
    MqFollows d rel line w (mqLink priority w t msg data prio urgent) := by
  have held : (w.call t).holds = some msg := by rw [place]; rfl
  have empty : (w.call t).hand w.obj.node = none := by rw [place]; rfl
  have fresh := good.placed.apart t msg held
  obtain ⟨filled, mark, ends⟩ := good.placed.filled t msg data prio urgent place
  -- the queue seen with the nodes as the link operation leaves them
  have seen : ∀ obj linked', Linked w.obj obj msg linked linked' spare → rel line.queue obj.node linked := by
    intro obj linked' hung
    apply rep.congr _ _ _ _ good.queue
    intro n inside
    have other : n ≠ msg := fun own => fresh.1 (own ▸ inside)
    exact ⟨(hung.messages n).1, hung.prio n other, (hung.messages n).2⟩
  cases urgent with
  | true =>
    have hung := good.placed.nodes.linkUrgent_linked fresh
    have represents := rep.prepend _ _ msg _ (seen _ _ hung) (by rw [(hung.messages msg).2, mark])
    rw [(hung.messages msg).1, filled, (linkUrgent_messages w.obj msg).prio] at represents
    obtain ⟨room, done⟩ := good.hang held empty hung represents
    simp only [mqLink, if_true, if_pos room]
    refine ⟨⟨_, _, _, ?_, done⟩, ?_⟩
    · rw [Option.toList_some, List.map_singleton, lineReplay_one]
      rfl
    · rw [World.goto_obj, World.resumeOne_obj]
      exact hung.size
  | false =>
    have all : ∀ obj linked', Linked w.obj obj msg linked linked' spare →
        linked' = (if priority then linked.orderedInsert
          (fun n m => (obj.node m).prio < (obj.node n).prio) msg else linked ++ [msg]) →
        (priority = true → (obj.node msg).prio = prio) →
        (if priority then w.obj.linkPrio msg prio else w.obj.link msg) = obj →
        MqFollows d rel line w (mqLink priority w t msg data prio false) := by
      intro obj linked' hung list rank code
      have allows : allowed prio obj.node linked := by
        apply rep.allow _ _ _ _ (may rfl)
        intro n inside
        have other : n ≠ msg := fun own => fresh.1 (own ▸ inside)
        exact ⟨hung.prio n other, (hung.messages n).2⟩
      have represents := rep.append _ _ msg prio _ (seen _ _ hung)
        (by rw [(hung.messages msg).2, mark]) rank allows
      rw [(hung.messages msg).1, filled, ← list] at represents
      obtain ⟨room, done⟩ := good.hang held empty hung represents
      simp only [mqLink, Bool.false_eq_true, if_false, code, if_pos room]
      refine ⟨⟨_, _, _, ?_, done⟩, ?_⟩
      · rw [Option.toList_some, List.map_singleton, lineReplay_one]
        rfl
      · rw [World.goto_obj, World.resumeOne_obj]
        exact hung.size
    cases priority with
    | true =>
      have enough : linked.length ≤ w.obj.maxMsgs.toNat := by
        have count := good.placed.count
        omega
      have messages := linkPrio_messages w.obj msg prio
      apply all _ _ (good.placed.nodes.linkPrio_linked fresh (ends rfl) prio enough) _ _ rfl
      · have order : (fun n m => ((w.obj.linkPrio msg prio).node m).prio <
            ((w.obj.linkPrio msg prio).node n).prio) = fun n m =>
            ((w.obj.setPrio msg prio).node m).prio < ((w.obj.setPrio msg prio).node n).prio := by
          funext n m
          rw [messages.prio n, messages.prio m]
        simp only [if_true, MessageQueue.ranked, messages.prio]
      · intro _
        rw [messages.prio]
        exact (setPrio_messages w.obj msg prio).2.1
    | false =>
      exact all _ _ (good.placed.nodes.link_linked fresh (ends rfl)) rfl (fun none => by cases none) rfl

theorem MqGood.reset (rep : Represents priority d allowed rel) (good : MqGood rel line w linked spare) :
    MqFollows d rel line w (mqReset w) := by
  have enough : linked.length ≤ w.obj.maxMsgs.toNat := by
    have count := good.placed.count
    omega
  obtain ⟨nodes, messages⟩ := good.placed.nodes.releaseAll _ enough
  obtain ⟨tidy, nobody⟩ := good.tidy.resumeAll { w.obj.releaseAll w.obj.maxMsgs.toNat with entry := 0 }
  have size := releaseAll_size w.obj w.obj.maxMsgs.toNat
  have place : Placed (mqReset w).1 [] (linked.reverse ++ spare) := by
    constructor
    · exact ⟨nodes.queue, nodes.tail, nodes.free, nodes.nodup⟩
    · rfl
    · intro t n held
      obtain ⟨outside, notSpare⟩ := good.placed.apart t n held
      refine ⟨List.not_mem_nil, ?_⟩
      rw [List.mem_append, List.mem_reverse, not_or]
      exact ⟨outside, notSpare⟩
    · exact good.placed.own
    · have count := good.placed.count
      have same : holders (mqReset w).1 = holders w := rfl
      have max : (mqReset w).1.obj.maxMsgs = w.obj.maxMsgs := size
      rw [same, max, List.length_append, List.length_reverse, List.length_nil]
      omega
    · intro t msg data prio urgent linking
      obtain ⟨filled, mark, ends⟩ := good.placed.filled t msg data prio urgent linking
      have held : (w.call t).holds = some msg := by
        have here : w.call t = .linking msg data prio urgent := linking
        rw [here]
        rfl
      have outside := (good.placed.apart t msg held).1
      refine ⟨(messages.data msg).trans filled, (messages.urgent msg).trans mark, fun normal => ?_⟩
      exact (good.placed.nodes.releaseAll_other _ outside).trans (ends normal)
    · intro t msg size buffer prio freeing
      rw [good.placed.emptied t msg size buffer prio freeing]
      exact congrArg (List.take size) (messages.data msg).symm
  refine ⟨⟨{ line with queue := d.empty }, [], linked.reverse ++ spare, ?_, ?_⟩, size⟩
  · rw [mqReset, Option.toList_some, List.map_singleton, lineReplay_one]
    rfl
  · refine ⟨place, rep.empty _, fun t => ?_, tidy, .of_nobody nobody⟩
    rw [good.hands t]
    exact (MqCall.hand_congr fun n _ => messages.data n).symm

theorem MqGood.pause (good : MqGood rel line w linked spare) {mid : MqWorld T} {call : MqCall}
    {e : Option (MqEvent T)} (obj : mid.obj = w.obj) (calls : mid.call = w.call)
    (before : (w.call t).holds = none) (after : call.holds = none)
    (tidy : Tidy MqCall.waitsIn (mid.goto t call))
    (served : Served MqCall.waitsIn (mqUnits w.obj spare) (mid.goto t call))
    (quiet : ∀ v, e = some v → ∃ code, v = .failed code) :
    MqFollows d rel line w (mid.goto t call, e) := by
  have others : SameHands w (mid.goto t call) t := by
    intro u other
    rw [World.goto_call_other _ other, calls]
  have kept : MqGood rel line (mid.goto t call) linked spare :=
    good.quiet obj others before (by rw [World.goto_call, after]) tidy served
  refine ⟨⟨line, linked, spare, ?_, kept⟩, congrArg _ obj⟩
  cases e with
  | none => rfl
  | some v =>
    obtain ⟨code, rfl⟩ := quiet v rfl
    rfl

theorem MqGood.sendLoop (good : MqGood rel line w linked spare)
    (awake : (w.waits.thread t).suspended = false) (before : (w.call t).holds = none)
    (role : ∀ q, (w.call t).waitsIn = some q → q = .senders) (data : List UInt8)
    (prio timeout : Int32) (tickDelta tick : UInt32) :
    MqFollows d rel line w (mqSendLoop w t data prio timeout tickDelta tick) := by
  cases head : w.obj.free with
  | none =>
    have nothing : spare = [] := by
      have free := good.placed.nodes.free
      rw [head] at free
      exact free.empty
    have units : mqUnits w.obj spare .senders = 0 := by rw [nothing]; rfl
    have marked := good.served.setError .intr .senders role units
    have tidy := good.tidy.setError t .intr
    have still : ((w.waits.setError t .intr).thread t).suspended = false := by
      simpa [Waits.setError] using awake
    simp only [mqSendLoop, head]
    by_cases zero : timeout = 0
    · rw [if_pos zero]
      apply good.pause
      · rfl
      · rfl
      · exact before
      · rfl
      · exact tidy.goto still .idle
      · exact marked.leave .senders role (Or.inr (Or.inl units)) fun _ _ => le_rfl
      · intro v same
        cases same
        exact ⟨_, rfl⟩
    · rw [if_neg zero]
      apply good.pause
      · rfl
      · rfl
      · exact before
      · rfl
      · exact tidy.suspend still .senders _ timeout rfl
      · exact marked.suspend .senders role units _ timeout
      · intro v same
        cases same
  | some msg =>
    obtain ⟨rest, done⟩ := good.alloc head before awake role data prio false
    simp only [mqSendLoop, head]
    exact ⟨⟨line, linked, rest, rfl, done⟩, rfl⟩

theorem MqGood.recvLoop (rep : Represents priority d allowed rel) (good : MqGood rel line w linked spare)
    (awake : (w.waits.thread t).suspended = false) (before : (w.call t).holds = none)
    (role : ∀ q, (w.call t).waitsIn = some q → q = .receivers) (size : Nat) (timeout : Int32)
    (tickDelta tick : UInt32) : MqFollows d rel line w (mqRecvLoop w t size timeout tickDelta tick) := by
  rw [mqRecvLoop]
  by_cases empty : w.obj.entry = 0
  · have units : mqUnits w.obj spare .receivers = 0 := by
      rw [mqUnits, empty]
      rfl
    have marked := good.served.setError .intr .receivers role units
    have tidy := good.tidy.setError t .intr
    have still : ((w.waits.setError t .intr).thread t).suspended = false := by
      simpa [Waits.setError] using awake
    rw [if_pos empty]
    by_cases zero : timeout = 0
    · have again := marked.setError .timeout .receivers role units
      have stillAgain : (((w.waits.setError t .intr).setError t .timeout).thread t).suspended = false := by
        simpa [Waits.setError] using awake
      simp only [if_pos zero]
      apply good.pause
      · rfl
      · rfl
      · exact before
      · rfl
      · exact (tidy.setError t .timeout).goto stillAgain .idle
      · exact again.leave .receivers role (Or.inr (Or.inl units)) fun _ _ => le_rfl
      · intro v same
        cases same
        exact ⟨_, rfl⟩
    · simp only [if_neg zero]
      apply good.pause
      · rfl
      · rfl
      · exact before
      · rfl
      · exact tidy.suspend still .receivers _ timeout rfl
      · exact marked.suspend .receivers role units _ timeout
      · intro v same
        cases same
  · obtain ⟨msg, head, done⟩ := good.unlink rep before awake role empty size
    simp only [if_neg empty, head]
    exact done

theorem MqGood.fail (good : MqGood rel line w linked spare) (awake : (w.waits.thread t).suspended = false)
    (before : (w.call t).holds = none) (r : Side) (role : ∀ q, (w.call t).waitsIn = some q → q = r)
    (failed : (w.waits.thread t).error ≠ .ok) (code : Err) :
    MqFollows d rel line w (w.goto t .idle, some (.failed code)) := by
  apply good.pause
  · rfl
  · rfl
  · exact before
  · rfl
  · exact good.tidy.goto awake .idle
  · apply good.served.leave r role _ fun _ _ => le_rfl
    exact Or.inr (Or.inr ⟨le_rfl, fun inside => failed ((w.mem_woken _ r t).mp inside).2.2⟩)
  · intro v same
    cases same
    exact ⟨_, rfl⟩

theorem MqGood.refuse (good : MqGood rel line w linked spare) (code : Err) :
    MqFollows d rel line w (w, some (.failed code)) :=
  ⟨⟨line, linked, spare, rfl, good⟩, rfl⟩

theorem MqGood.urgent (good : MqGood rel line w linked spare)
    (awake : (w.waits.thread t).suspended = false) (idle : w.call t = .idle) (data : List UInt8) :
    MqFollows d rel line w (mqUrgent w t data) := by
  unfold mqUrgent
  split
  · exact good.refuse .error
  · cases head : w.obj.free with
    | none => exact good.refuse .full
    | some msg =>
      obtain ⟨rest, done⟩ := good.alloc head (by rw [idle]; rfl) awake
        (by
          intro q waits
          rw [idle] at waits
          cases waits) data 0 true
      exact ⟨⟨line, linked, rest, rfl, done⟩, rfl⟩

theorem mqStep_follows (rep : Represents priority d allowed rel) (good : MqGood rel line w linked spare)
    {action : MqAction T} {result : MqWorld T × Option (MqEvent T)}
    (step : mqStep priority w action = some result)
    (may : ∀ t msg data prio, action = .link t → w.call t = .linking msg data prio false →
      allowed prio w.obj.node linked) : MqFollows d rel line w result := by
  cases action with
  | send t data prio timeout tick =>
    simp only [mqStep] at step
    split at step
    case isTrue => cases step
    case isFalse free =>
      rw [not_or, not_not] at free
      cases step
      unfold mqSendWait
      split
      · exact good.refuse .error
      · split
        · exact good.refuse .full
        · apply good.sendLoop (eq_false_of_ne_true free.1)
          · rw [free.2]
            rfl
          · intro q waits
            rw [free.2] at waits
            cases waits
  | sendWoken t tick =>
    simp only [mqStep] at step
    split at step
    case h_2 => cases step
    case h_1 data prio timeout tickDelta place =>
      split at step
      case isTrue => cases step
      case isFalse awake =>
        cases step
        have awake := eq_false_of_ne_true awake
        have before : (w.call t).holds = none := by rw [place]; rfl
        have role : ∀ q, (w.call t).waitsIn = some q → q = .senders := by
          intro q waits
          rw [place] at waits
          exact (Option.some.inj waits).symm
        unfold mqSendWoken
        split
        case isTrue failed => exact good.fail awake before .senders role failed _
        case isFalse => exact good.sendLoop awake before role ..
  | urgent t data =>
    simp only [mqStep] at step
    split at step
    case isTrue => cases step
    case isFalse free =>
      rw [not_or, not_not] at free
      cases step
      exact good.urgent (eq_false_of_ne_true free.1) free.2 data
  | fill t =>
    simp only [mqStep] at step
    split at step
    case h_2 => cases step
    case h_1 place =>
      cases step
      exact good.fill rep place
  | link t =>
    simp only [mqStep] at step
    split at step
    case h_2 => cases step
    case h_1 msg data prio urgent place =>
      cases step
      apply good.link rep place
      rintro rfl
      exact may t msg data prio rfl place
  | recv t size timeout tick =>
    simp only [mqStep] at step
    split at step
    case isTrue => cases step
    case isFalse free =>
      rw [not_or, not_not] at free
      cases step
      unfold mqRecv
      split
      · exact good.refuse .timeout
      · apply good.recvLoop rep (eq_false_of_ne_true free.1)
        · rw [free.2]
          rfl
        · intro q waits
          rw [free.2] at waits
          cases waits
  | recvWoken t tick =>
    simp only [mqStep] at step
    split at step
    case h_2 => cases step
    case h_1 size timeout tickDelta place =>
      split at step
      case isTrue => cases step
      case isFalse awake =>
        cases step
        have awake := eq_false_of_ne_true awake
        have before : (w.call t).holds = none := by rw [place]; rfl
        have role : ∀ q, (w.call t).waitsIn = some q → q = .receivers := by
          intro q waits
          rw [place] at waits
          exact (Option.some.inj waits).symm
        unfold mqRecvWoken
        split
        case isTrue failed => exact good.fail awake before .receivers role failed _
        case isFalse => exact good.recvLoop rep awake before role ..
  | empty t =>
    simp only [mqStep] at step
    split at step
    case h_2 => cases step
    case h_1 place =>
      cases step
      exact good.copy place
  | free t =>
    simp only [mqStep] at step
    split at step
    case h_2 => cases step
    case h_1 place =>
      cases step
      exact good.free rep place
  | reset =>
    cases step
    exact good.reset rep
  | timeout t =>
    simp only [mqStep] at step
    split at step
    case isTrue asleep =>
      cases step
      refine ⟨⟨line, linked, spare, rfl, ?_⟩, rfl⟩
      exact ⟨good.placed.setWaits _, good.queue, good.hands, good.tidy.timeout t, good.served.timeout asleep.1⟩
    case isFalse => cases step

end

end RtThread.Ipc
