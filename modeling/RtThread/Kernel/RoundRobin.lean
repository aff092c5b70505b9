import Mathlib.Data.List.Chain
import RtThread.Kernel.ReadyQueue

/-! Threads that share the highest priority and only yield or use up their
time slices.

`rt_schedule` clears the yield mark of the outgoing thread before it queues
the thread again, and so queues it at the head of its list. The next switch
takes it from there: two threads take turns, and the others never run.
-/

set_option autoImplicit false

namespace RtThread.Kernel

open RtThread.Lib Sched
open Function (update_of_ne update_self)

/-- The current thread `x` shares the highest priority `p` with `y` and then `rest` in the ready list. -/
structure Pair (priorityMax : Nat) (k : Sched) (p : Nat) (rest : List Tid) (x y : Tid) : Prop where
  settled : Settled priorityMax k
  clear : k.fault = none
  current : k.current = some x
  running : (k.thread x).stat = .running
  unlocked : k.lockNest = 0
  priority : (k.thread x).currentPriority = p
  queue : k.queue (.ready p) = y :: rest
  highest : ∀ t, (k.thread t).stat = .ready → p ≤ (k.thread t).currentPriority

section
variable {priorityMax : Nat} {k : Sched} {p : Nat} {rest : List Tid} {x y : Tid}

section
variable (pair : Pair priorityMax k p rest x y)
include pair

theorem Pair.ready : (k.thread y).stat = .ready ∧ (k.thread y).currentPriority = p := by
  have member : y ∈ k.queue (.ready p) := by rw [pair.queue]; exact List.mem_cons_self
  exact (pair.settled.toHeld.ready ((pair.settled.linked _ y).mp member)).2

theorem Pair.apart : x ≠ y := by
  intro same
  have ready := pair.ready.1
  rw [← same, pair.running] at ready
  cases ready

theorem Pair.unlinked : x ∉ rest := by
  have out := pair.settled.toHeld.not_mem (pair.settled.toHeld.running pair.running).1 (.ready p)
  rw [pair.queue] at out
  exact fun member => out (List.mem_cons_of_mem y member)

theorem Pair.bitmap (limit : priorityMax ≤ 256) :
    k.bitmap.group ≠ 0#32 ∧ k.bitmap.highest priorityMax = p := by
  have marks := pair.settled.marks
  have some : k.queue (.ready p) ≠ [] := by rw [pair.queue]; simp
  have bound := pair.settled.toHeld.occupied some
  have group : k.bitmap.group ≠ 0#32 := fun zero => marks.group_zero priorityMax limit zero bound some
  obtain ⟨occupied, least⟩ := marks.highest priorityMax limit (fun _ => pair.settled.toHeld.occupied) group
  obtain ⟨t, member⟩ := List.exists_mem_of_ne_nil _ occupied
  obtain ⟨-, ready, priority⟩ := pair.settled.toHeld.ready ((pair.settled.linked _ t).mp member)
  have above := pair.highest t ready
  rw [priority] at above
  exact ⟨group, Nat.le_antisymm (least p some) above⟩

theorem Pair.rtSchedule_eq (limit : priorityMax ≤ 256) :
    rtSchedule priorityMax k =
      if (k.thread x).yield then switchTo priorityMax (k.setYield x false) x y true
      else stayOn priorityMax (k.setYield x false) x := by
  obtain ⟨group, highest⟩ := pair.bitmap limit
  have keeps : keepsCpu (k.thread x) p = !(k.thread x).yield := by simp [keepsCpu, pair.priority]
  simp only [rtSchedule, if_pos (And.intro pair.unlocked group), pair.current, highest, pair.queue, if_pos pair.running,
    keeps]
  cases (k.thread x).yield <;> rfl

theorem Pair.mark (remaining : Nat) (yield : Bool) :
    Pair priorityMax (k.setThread x { k.thread x with remainingTick := remaining, yield := yield }) p rest x y where
  settled := (pair.settled.mark x { k.thread x with remainingTick := remaining, yield := yield } rfl rfl rfl rfl rfl rfl).1
  clear := pair.clear
  current := pair.current
  running := by simpa using pair.running
  unlocked := pair.unlocked
  priority := by simpa using pair.priority
  queue := pair.queue
  highest t ready := by
    by_cases own : t = x
    · subst own
      simpa using pair.priority.ge
    · rw [setThread_thread, update_of_ne own] at ready ⊢
      exact pair.highest t ready

theorem Pair.stay (limit : priorityMax ≤ 256) (goes : (k.thread x).yield = false) :
    Pair priorityMax (rtSchedule priorityMax k) p rest x y := by
  have settled := (pair.settled.schedule limit pair.current).1
  have shape := pair.rtSchedule_eq limit
  rw [goes, if_neg Bool.false_ne_true] at shape
  obtain ⟨-, thread, queue, same⟩ := pair.settled.toHeld.stay_yield limit pair.current pair.running
  rw [← shape] at thread queue same
  refine ⟨settled, same.fault.trans pair.clear, same.current.trans pair.current, ?_, same.lockNest.trans pair.unlocked, ?_,
    ?_, fun t ready => ?_⟩
  · rw [thread]; simpa using pair.running
  · rw [thread]; simpa using pair.priority
  · rw [queue]; exact pair.queue
  · rw [thread] at ready ⊢
    by_cases own : t = x
    · subst own
      simpa using pair.priority.ge
    · rw [update_of_ne own] at ready ⊢
      exact pair.highest t ready

theorem Pair.switch (limit : priorityMax ≤ 256) (yields : (k.thread x).yield = true) :
    Pair priorityMax (rtSchedule priorityMax k) p rest y x := by
  have settled := (pair.settled.schedule limit pair.current).1
  have apart := pair.apart
  have shape := pair.rtSchedule_eq limit
  rw [yields, if_pos rfl] at shape
  have started := pair.settled.toHeld.setYield x false
  have ready : ((k.setYield x false).thread y).stat = .ready := (setYield_stat k x y false).trans pair.ready.1
  obtain ⟨-, current, lockNest, fault, thread, queue⟩ := started.switchReady limit pair.current
    ((setYield_stat k x x false).trans pair.running) ready
  rw [← shape] at current lockNest fault thread queue
  have still : (k.setYield x false).thread y = k.thread y := by
    rw [setYield_thread, update_of_ne apart.symm]
  have priority : ((k.setYield x false).thread x).currentPriority = p := (setYield_priority k x x false).trans pair.priority
  have link : (k.thread y).tlist = some (.ready p) :=
    (pair.settled.linked _ y).mp (by rw [pair.queue]; exact List.mem_cons_self)
  refine ⟨settled, fault.trans pair.clear, current, ?_, lockNest.trans pair.unlocked, ?_, ?_, fun t ready => ?_⟩
  · rw [thread]; simp
  · rw [thread, update_self]
    exact (setYield_priority k x y false).trans pair.ready.2
  · -- the yield mark is gone when the thread is queued
    have joined : joinReady ((k.setYield x false).thread x) x ((k.setYield x false).queue (.ready p)) = x :: y :: rest := by
      rw [show (k.setYield x false).queue (.ready p) = y :: rest from pair.queue]
      simp [joinReady]
    rw [queue, still, link, if_pos rfl, priority, update_self, joined, List.erase_cons_tail (by simpa using apart),
      List.erase_cons_head]
  · rw [thread] at ready ⊢
    by_cases into : t = y
    · subst into
      simp at ready
    · rw [update_of_ne into] at ready ⊢
      by_cases out : t = x
      · subst out
        rw [update_self]
        exact priority.ge
      · rw [update_of_ne out, setYield_thread, update_of_ne out] at ready ⊢
        exact pair.highest t ready

theorem Pair.schedule (limit : priorityMax ≤ 256) :
    Pair priorityMax (rtSchedule priorityMax k) p rest x y ∨ Pair priorityMax (rtSchedule priorityMax k) p rest y x := by
  cases yields : (k.thread x).yield with
  | false => exact .inl (pair.stay limit yields)
  | true => exact .inr (pair.switch limit yields)

theorem Pair.yield :
    Pair priorityMax (rtThreadYield k x) p rest x y ∧ ((rtThreadYield k x).thread x).yield = true :=
  ⟨pair.mark _ true, by simp [rtThreadYield]⟩

theorem Pair.tick (limit : priorityMax ≤ 256) :
    Pair priorityMax (rtTickIncrease priorityMax k x) p rest x y ∨
      Pair priorityMax (rtTickIncrease priorityMax k x) p rest y x := by
  unfold rtTickIncrease
  split
  · exact pair.yield.1.schedule limit
  · generalize countDown (k.thread x).remainingTick = remaining
    exact .inl (pair.mark remaining (k.thread x).yield)

end

end

/-! ## Runs -/

/-- The running thread yields or uses up its slice; interrupts may end in `rt_schedule`. -/
def Action.turns : Action → Bool
  | .yield | .proceed | .tick | .preempt => true
  | _ => false

def noteDispatch (s s' : Machine) (dispatched : List Tid) : List Tid :=
  if s'.system.sched.current = s.system.sched.current then dispatched
  else dispatched ++ s'.system.sched.current.toList

def Turn (priorityMax : Nat) (idle : Tid) (before : Machine × List Tid) (action : Action) (after : Machine × List Tid) :
    Prop :=
  Step priorityMax idle before.1 action after.1 ∧ action.turns = true ∧ after.2 = noteDispatch before.1 after.1 before.2

/-- The current thread `c` shares the highest priority with the ready threads `others`, and each of
them is in its own code or in a call that ends in `rt_schedule`. -/
structure Contend (s : Machine) (c : Tid) (others : List Tid) : Prop extends Runs s c where
  running : (s.system.sched.thread c).stat = .running
  unlocked : s.system.sched.lockNest = 0
  list : s.system.sched.queue (.ready (s.system.sched.thread c).currentPriority) = others
  highest : ∀ t, (s.system.sched.thread t).stat = .ready →
    (s.system.sched.thread c).currentPriority ≤ (s.system.sched.thread t).currentPriority
  between : ∀ t ∈ c :: others, s.pc t = .user ∨ s.pc t = .schedule

/-- In every run from `s`, a thread that gives up the CPU ends behind all the others of priority `p`. -/
def Behind (priorityMax : Nat) (idle : Tid) (s : Machine) (c : Tid) (p : Nat) : Prop :=
  ∀ actions mid a after from_, Run (Turn priorityMax idle) (s, [c]) actions mid → Turn priorityMax idle mid a after →
    mid.1.system.sched.current = some from_ → after.1.system.sched.current ≠ some from_ →
    (after.1.system.sched.queue (.ready p)).getLast? = some from_

/-- In every run from `s`, between two consecutive dispatches of a thread each other of `threads` is
dispatched exactly once. -/
def Evenly (priorityMax : Nat) (idle : Tid) (s : Machine) (c : Tid) (threads : List Tid) : Prop :=
  ∀ actions after, Run (Turn priorityMax idle) (s, [c]) actions after →
    ∀ before between rest t, after.2 = before ++ t :: (between ++ t :: rest) → t ∉ between →
      ∀ u ∈ threads, u ≠ t → between.count u = 1

/-- `x` and `y` take turns while `rest` waits. -/
structure TakeTurns (priorityMax : Nat) (s : Machine) (p : Nat) (rest : List Tid) (x y : Tid) : Prop where
  pair : Pair priorityMax s.system.sched p rest x y
  between : ∀ t, t = x ∨ t = y → s.pc t = .user ∨ s.pc t = .schedule

section
variable {priorityMax : Nat} {idle : Tid} {fuel : Nat} {s s' : Machine} {p : Nat} {rest : List Tid} {x y : Tid}
  {action : Action}

theorem TakeTurns.goto {k : System} {pc : Pc} (turns : TakeTurns priorityMax s p rest x y) {x' y' : Tid}
    (pair : Pair priorityMax k.sched p rest x' y') (same : ∀ t, t = x' ∨ t = y' → t = x ∨ t = y)
    (here : pc = .user ∨ pc = .schedule) : TakeTurns priorityMax (s.goto k x pc) p rest x' y' where
  pair := pair
  between t mem := by
    show Function.update s.pc x pc t = _ ∨ Function.update s.pc x pc t = _
    by_cases own : t = x
    · rw [own, update_self]; exact here
    · rw [update_of_ne own]; exact turns.between t (same t mem)

theorem TakeTurns.become {k : System} (turns : TakeTurns priorityMax s p rest x y) {x' y' : Tid}
    (pair : Pair priorityMax k.sched p rest x' y') (same : ∀ t, t = x' ∨ t = y' → t = x ∨ t = y) :
    TakeTurns priorityMax (s.become k) p rest x' y' :=
  ⟨pair, fun t mem => turns.between t (same t mem)⟩

theorem TakeTurns.step (turns : TakeTurns priorityMax s p rest x y) (limit : priorityMax ≤ 256)
    (effect : Effect priorityMax idle fuel s action s') (turning : action.turns = true) :
    TakeTurns priorityMax s' p rest x y ∨ TakeTurns priorityMax s' p rest y x := by
  have pair := turns.pair
  have own : ∀ {c}, Runs s c → c = x := fun runs => Option.some.inj (runs.current.symm.trans pair.current)
  have swap : ∀ t, t = y ∨ t = x → t = x ∨ t = y := fun t => Or.symm
  -- the two threads are in no other call
  have elsewhere : ∀ {c pc}, Runs s c → s.pc c = pc → pc = .user ∨ pc = .schedule := by
    intro c pc runs here
    rw [own runs] at here
    exact here ▸ turns.between x (.inl rfl)
  cases effect with
  | yield c calls =>
    obtain rfl := own calls.toRuns
    exact .inl (turns.goto pair.yield.1 (fun _ => id) (.inr rfl))
  | schedule c runs here =>
    obtain rfl := own runs
    rcases pair.schedule limit with stays | switched
    · exact .inl (turns.goto stays (fun _ => id) (.inl rfl))
    · exact .inr (turns.goto switched swap (.inl rfl))
  | tick c runs =>
    obtain rfl := own runs
    have ticked := pair.tick limit
    generalize rtTickIncrease priorityMax s.system.sched c = k at ticked ⊢
    rcases ticked with stays | switched
    · exact .inl (turns.become stays fun _ => id)
    · exact .inr (turns.become switched swap)
  | preempt c runs =>
    rcases pair.schedule limit with stays | switched
    · exact .inl (turns.become stays fun _ => id)
    · exact .inr (turns.become switched swap)
  | takeSchedule c m runs here | takeCheck c m runs here
  | sleepMark c runs here | sleepSchedule c runs here
  | sleepReturn c runs here | resumeRemove c t runs here
  | resumeInsert c t runs here => exact absurd (elsewhere runs here) (by simp)
  | _ => cases turning

theorem turn_of (trace : List Tid) (done : perform priorityMax idle fuel s action = some s') (turning : action.turns = true)
    (clear : s'.system.sched.fault = none) :
    Turn priorityMax idle (s, trace) action (s', noteDispatch s s' trace) :=
  ⟨⟨fuel, done, by rw [clear]; simp⟩, turning, rfl⟩

theorem noteDispatch_same {trace : List Tid} (same : s'.system.sched.current = s.system.sched.current) :
    noteDispatch s s' trace = trace := if_pos same

theorem noteDispatch_switch {trace : List Tid} (turns : TakeTurns priorityMax s p rest x y)
    (switched : TakeTurns priorityMax s' p rest y x) : noteDispatch s s' trace = trace ++ [y] := by
  unfold noteDispatch
  rw [turns.pair.current, switched.pair.current, if_neg]
  · rfl
  · exact fun same => turns.pair.apart (Option.some.inj same).symm

section
variable (turns : TakeTurns priorityMax s p rest x y)
include turns

theorem TakeTurns.perform_schedule (idle : Tid) (fuel : Nat) (here : s.pc x = .schedule) :
    perform priorityMax idle fuel s .proceed = some (s.goto (dispatch priorityMax s.system) x .user) := by
  simp [perform, Machine.run, Machine.clear, turns.pair.clear, turns.pair.current, proceed, here, dispatch]

theorem TakeTurns.perform_yield (idle : Tid) (fuel : Nat) (here : s.pc x = .user) :
    perform priorityMax idle fuel s .yield =
      some (s.goto (s.system.setSched (rtThreadYield s.system.sched x)) x .schedule) := by
  simp [perform, Machine.call, Machine.run, Machine.clear, turns.pair.clear, turns.pair.current, here]

theorem TakeTurns.switch (limit : priorityMax ≤ 256) (idle : Tid)
    (trace : List Tid) (here : s.pc x = .schedule) (yields : (s.system.sched.thread x).yield = true) :
    ∃ after, Turn priorityMax idle (s, trace) .proceed after ∧ TakeTurns priorityMax after.1 p rest y x ∧
      after.2 = trace ++ [y] := by
  have switched : TakeTurns priorityMax (s.goto (dispatch priorityMax s.system) x .user) p rest y x :=
    turns.goto (turns.pair.switch limit yields) (fun _ => Or.symm) (.inl rfl)
  have turn := turn_of trace (turns.perform_schedule idle 0 here) rfl switched.pair.clear
  exact ⟨_, turn, switched, noteDispatch_switch turns switched⟩

theorem TakeTurns.yields (idle : Tid) (trace : List Tid)
    (here : s.pc x = .user) :
    ∃ mid, Turn priorityMax idle (s, trace) .yield (mid, trace) ∧ TakeTurns priorityMax mid p rest x y ∧
      mid.pc x = .schedule ∧ (mid.system.sched.thread x).yield = true := by
  obtain ⟨marked, yields⟩ := turns.pair.yield
  have first : TakeTurns priorityMax (s.goto (s.system.setSched (rtThreadYield s.system.sched x)) x .schedule) p rest x y :=
    turns.goto marked (fun _ => id) (.inr rfl)
  have turn := turn_of trace (turns.perform_yield idle 0 here) rfl first.pair.clear
  rw [noteDispatch_same (first.pair.current.trans turns.pair.current.symm)] at turn
  exact ⟨_, turn, first, by simp [Machine.goto], yields⟩

theorem TakeTurns.exists_switch (limit : priorityMax ≤ 256) (idle : Tid)
    (trace : List Tid) :
    ∃ actions mid a after, Run (Turn priorityMax idle) (s, trace) actions mid ∧ Turn priorityMax idle mid a after ∧
      TakeTurns priorityMax mid.1 p rest x y ∧ TakeTurns priorityMax after.1 p rest y x ∧ after.2 = trace ++ [y] := by
  -- a call of `rt_thread_yield` in its own code does
  have calls : ∀ {s : Machine}, TakeTurns priorityMax s p rest x y → s.pc x = .user →
      ∃ mid a after, Run (Turn priorityMax idle) (s, trace) [.yield] mid ∧ Turn priorityMax idle mid a after ∧
        TakeTurns priorityMax mid.1 p rest x y ∧ TakeTurns priorityMax after.1 p rest y x ∧ after.2 = trace ++ [y] := by
    intro s turns here
    obtain ⟨mid, first, marked, pending, yields⟩ := turns.yields idle trace here
    obtain ⟨after, turn, switched, dispatched⟩ := marked.switch limit idle trace pending yields
    exact ⟨_, _, after, .snoc (.nil _) first, turn, marked, switched, dispatched⟩
  rcases turns.between x (.inl rfl) with here | here
  · obtain ⟨mid, a, after, run, rest⟩ := calls turns here
    exact ⟨_, mid, a, after, run, rest⟩
  cases yields : (s.system.sched.thread x).yield with
  | true =>
    obtain ⟨after, turn, switched, dispatched⟩ := turns.switch limit idle trace here yields
    exact ⟨_, _, _, after, .nil _, turn, turns, switched, dispatched⟩
  | false =>
    -- an interrupt has taken the mark: the call returns first
    have stays : TakeTurns priorityMax (s.goto (dispatch priorityMax s.system) x .user) p rest x y :=
      turns.goto (turns.pair.stay limit yields) (fun _ => id) (.inl rfl)
    have turn := turn_of trace (turns.perform_schedule idle 0 here) rfl stays.pair.clear
    rw [noteDispatch_same (stays.pair.current.trans turns.pair.current.symm)] at turn
    obtain ⟨mid, a, after, run, last⟩ := calls stays (by simp [Machine.goto])
    exact ⟨_, mid, a, after, Run.trans (.snoc (.nil _) turn) run, last⟩

end

/-- The dispatched threads are `x` and `y` by turns, `x` the latest. -/
structure ByTurns (x y : Tid) (trace : List Tid) : Prop where
  chain : trace.IsChain (· ≠ ·)
  two : ∀ u ∈ trace, u = x ∨ u = y
  last : trace.getLast? = some x

theorem ByTurns.switch {trace : List Tid} (turns : ByTurns x y trace) (apart : x ≠ y) : ByTurns y x (trace ++ [y]) where
  chain := by
    apply List.IsChain.append turns.chain (.singleton y)
    intro u last v first
    obtain rfl : v = y := by simpa using first.symm
    obtain rfl : u = x := by simpa [turns.last] using last.symm
    exact apart
  two u member := by
    rcases List.mem_append.mp member with old | new
    · exact (turns.two u old).symm
    · exact .inl (List.mem_singleton.mp new)
  last := by simp

theorem ByTurns.count {before between rest : List Tid} {t u : Tid}
    (turns : ByTurns x y (before ++ t :: (between ++ t :: rest))) (fresh : t ∉ between) (mem : u = x ∨ u = y)
    (other : u ≠ t) : between.count u = 1 := by
  have here : t = x ∨ t = y := turns.two t (by simp)
  have same : ∀ v ∈ between, v = u := by
    intro v member
    have two := turns.two v (by simp [member])
    have apart : v ≠ t := fun same => fresh (same ▸ member)
    rcases here with rfl | rfl <;> rcases mem with rfl | rfl <;> rcases two with rfl | rfl <;>
      first | rfl | exact absurd rfl other | exact absurd rfl apart
  have chain := (List.isChain_append.mp turns.chain).2.1
  match between with
  | [] => simp at chain
  | [v] => simp [same v]
  | v :: w :: more =>
    obtain rfl := same v (by simp)
    obtain rfl := same w (by simp)
    simp at chain

theorem TakeTurns.run (turns : TakeTurns priorityMax s p rest x y) (limit : priorityMax ≤ 256) {actions : List Action}
    {after : Machine × List Tid} (run : Run (Turn priorityMax idle) (s, [x]) actions after) :
    ∃ x' y', (x' = x ∧ y' = y ∨ x' = y ∧ y' = x) ∧ TakeTurns priorityMax after.1 p rest x' y' ∧ ByTurns x' y' after.2 := by
  refine run.invariant (fun after => ∃ x' y', (x' = x ∧ y' = y ∨ x' = y ∧ y' = x) ∧
    TakeTurns priorityMax after.1 p rest x' y' ∧ ByTurns x' y' after.2) ?_
    ⟨x, y, .inl ⟨rfl, rfl⟩, turns, .singleton x, by simp, rfl⟩
  rintro ⟨mid, trace⟩ a ⟨s', trace'⟩ ⟨x', y', two, turns, dispatched⟩ ⟨⟨fuel, done, -⟩, turning, noted⟩
  dsimp only at turns dispatched noted done
  rcases turns.step limit (perform_effect done) turning with stays | switched
  · rw [noteDispatch_same (stays.pair.current.trans turns.pair.current.symm)] at noted
    exact ⟨x', y', two, stays, noted ▸ dispatched⟩
  · rw [noteDispatch_switch turns switched] at noted
    refine ⟨y', x', ?_, switched, noted ▸ dispatched.switch turns.pair.apart⟩
    exact two.symm.imp (fun ⟨first, second⟩ => ⟨second, first⟩) fun ⟨first, second⟩ => ⟨second, first⟩

theorem TakeTurns.behind (turns : TakeTurns priorityMax s p [] x y) (limit : priorityMax ≤ 256) (idle : Tid) :
    Behind priorityMax idle s x p := by
  intro actions mid a after from_ run taken before changed
  obtain ⟨⟨fuel, done, -⟩, turning, -⟩ := taken
  obtain ⟨x', y', -, here, -⟩ := turns.run limit run
  obtain rfl := Option.some.inj (before.symm.trans here.pair.current)
  rcases here.step limit (perform_effect done) turning with stays | switched
  · exact absurd stays.pair.current changed
  · rw [switched.pair.queue]
    rfl

theorem TakeTurns.evenly (turns : TakeTurns priorityMax s p [] x y) (limit : priorityMax ≤ 256) (idle : Tid) :
    Evenly priorityMax idle s x [x, y] := by
  intro actions after run before between rest t shape fresh u member other
  obtain ⟨x', y', two, -, dispatched⟩ := turns.run limit run
  rw [shape] at dispatched
  refine dispatched.count fresh ?_ other
  rcases two with ⟨rfl, rfl⟩ | ⟨rfl, rfl⟩
  · simpa using member
  · simpa [or_comm] using member

theorem TakeTurns.not_behind {z : Tid} {more : List Tid} (turns : TakeTurns priorityMax s p (z :: more) x y)
    (limit : priorityMax ≤ 256) (idle : Tid) : ¬ Behind priorityMax idle s x p := by
  intro behind
  obtain ⟨actions, mid, a, after, run, turn, before, switched, -⟩ := turns.exists_switch limit idle [x]
  have last := behind actions mid a after x run turn before.pair.current fun same =>
    turns.pair.apart (Option.some.inj (switched.pair.current.symm.trans same)).symm
  -- the thread that left the CPU heads the list
  rw [switched.pair.queue, List.getLast?_cons_cons] at last
  exact turns.pair.unlinked (List.mem_of_getLast? last)

theorem TakeTurns.not_evenly {z : Tid} {more : List Tid} (turns : TakeTurns priorityMax s p (z :: more) x y)
    (limit : priorityMax ≤ 256) (idle : Tid) : ¬ Evenly priorityMax idle s x (x :: y :: z :: more) := by
  intro evenly
  obtain ⟨first, mid, a, after, run, turn, -, switched, dispatched⟩ := turns.exists_switch limit idle [x]
  obtain ⟨second, mid', a', after', run', turn', -, -, dispatched'⟩ := switched.exists_switch limit idle after.2
  have whole : Run (Turn priorityMax idle) (s, [x]) (first ++ [a] ++ second ++ [a']) after' :=
    .snoc (Run.trans (.snoc run turn) run') turn'
  have trace : after'.2 = [] ++ x :: ([y] ++ x :: []) := by rw [dispatched', dispatched]; rfl
  have out := turns.pair.unlinked
  have apart := turns.pair.apart
  have third : z ≠ x := fun same => out (same ▸ List.mem_cons_self)
  have once := evenly _ after' whole [] [y] [] x trace (by simpa using apart) z (by simp) third
  -- the third thread is not dispatched between the two dispatches of the first
  have never : z ≠ y := fun same => by
    have nodup := turns.pair.settled.nodup (.ready p)
    rw [turns.pair.queue, same] at nodup
    simp at nodup
  rw [List.count_eq_zero_of_not_mem (by simpa using never)] at once
  cases once

theorem Contend.takeTurns {c : Tid} (contend : Contend s c (y :: rest)) (sound : Sound priorityMax s) :
    TakeTurns priorityMax s (s.system.sched.thread c).currentPriority rest c y where
  pair :=
    { settled := sound.good.sane.settled
      clear := contend.clear
      current := contend.current
      running := contend.running
      unlocked := contend.unlocked
      priority := rfl
      queue := contend.list
      highest := contend.highest }
  between t mem := contend.between t (by rcases mem with rfl | rfl <;> simp)

theorem Settled.highest_le {k : Sched} (settled : Settled priorityMax k) (limit : priorityMax ≤ 256)
    {t : Tid} (ready : (k.thread t).stat = .ready) : k.bitmap.highest priorityMax ≤ (k.thread t).currentPriority := by
  have some := List.ne_nil_of_mem (settled.toHeld.ready_mem id ready)
  have group : k.bitmap.group ≠ 0#32 := fun zero =>
    settled.marks.group_zero priorityMax limit zero (settled.bound t) some
  exact (settled.marks.highest priorityMax limit (fun _ => settled.toHeld.occupied) group).2 _ some

end

/-- Among threads that share the highest priority and only yield or use up their time slices, the one
that gives up the CPU is queued behind the others, and each is dispatched once between two dispatches of
another, in every run, exactly when they are two. -/
theorem roundRobin_two {priorityMax : Nat} (idle : Tid) (limit : priorityMax ≤ 256) (priority tick : Tid → Nat)
    (priorities : ∀ t, priority t < priorityMax) (actions : List Action) (s : Machine)
    (run : Reaches priorityMax idle (fun _ a => a.whole = true) (Machine.initial priority tick) actions s)
    (c : Tid) (others : List Tid) (contend : Contend s c others) (shared : others ≠ []) :
    (Behind priorityMax idle s c (s.system.sched.thread c).currentPriority ↔ (c :: others).length = 2) ∧
      (Evenly priorityMax idle s c (c :: others) ↔ (c :: others).length = 2) := by
  have sound := Reaches.sound run (fun _ _ => id) limit (initial_sound priorities)
  match others with
  | [] => exact absurd rfl shared
  | [y] =>
    have turns := contend.takeTurns sound
    exact ⟨iff_of_true (turns.behind limit idle) rfl, iff_of_true (turns.evenly limit idle) rfl⟩
  | y :: z :: more =>
    have turns := contend.takeTurns sound
    exact ⟨iff_of_false (turns.not_behind limit idle) (by simp), iff_of_false (turns.not_evenly limit idle) (by simp)⟩

/-- Threads 1 to 3 at one priority, thread 0 the idle thread. -/
def sharedPriority (t : Tid) : Nat := if t = 0 then 31 else 10

theorem sharedPriority_lt (t : Tid) : sharedPriority t < 32 := by
  unfold sharedPriority
  split <;> decide

def sharing (threads : List Tid) : Option Machine :=
  execute 32 0 (fun _ a => a.whole) 0 (Machine.initial sharedPriority fun _ => 5) (threads.map .startup ++ [.start])

theorem sharing_two : (sharing [0, 1, 2]).isSome = true := by decide +kernel

theorem sharing_three : (sharing [0, 1, 2, 3]).isSome = true := by decide +kernel

theorem sharing_reaches {threads : List Tid} (some : (sharing threads).isSome = true) :
    Reaches 32 0 (fun _ a => a.whole = true) (Machine.initial sharedPriority fun _ => 5)
      (threads.map .startup ++ [.start]) ((sharing threads).get some) :=
  reaches_get (fun _ _ => id) some

theorem sharing_highest {threads : List Tid} (some : (sharing threads).isSome = true)
    (highest : ((sharing threads).get some).system.sched.bitmap.highest 32 = 10) (t : Tid)
    (ready : (((sharing threads).get some).system.sched.thread t).stat = .ready) :
    10 ≤ (((sharing threads).get some).system.sched.thread t).currentPriority := by
  have sound := Reaches.sound (sharing_reaches some) (fun _ _ => id) (by decide) (initial_sound sharedPriority_lt)
  rw [← highest]
  exact sound.good.sane.settled.highest_le (by decide) ready

theorem sharing_two_contend : Contend ((sharing [0, 1, 2]).get sharing_two) 2 [1] where
  clear := by decide +kernel
  current := by decide +kernel
  running := by decide +kernel
  unlocked := by decide +kernel
  list := by decide +kernel
  highest t ready := by
    rw [show (((sharing [0, 1, 2]).get sharing_two).system.sched.thread 2).currentPriority = 10 by decide +kernel]
    exact sharing_highest sharing_two (by decide +kernel) t ready
  between := by decide +kernel

theorem sharing_three_contend : Contend ((sharing [0, 1, 2, 3]).get sharing_three) 3 [2, 1] where
  clear := by decide +kernel
  current := by decide +kernel
  running := by decide +kernel
  unlocked := by decide +kernel
  list := by decide +kernel
  highest t ready := by
    rw [show (((sharing [0, 1, 2, 3]).get sharing_three).system.sched.thread 3).currentPriority = 10 by decide +kernel]
    exact sharing_highest sharing_three (by decide +kernel) t ready
  between := by decide +kernel

theorem roundRobin_two_threads : Evenly 32 0 ((sharing [0, 1, 2]).get sharing_two) 2 [2, 1] :=
  (roundRobin_two 0 (by decide) sharedPriority (fun _ => 5) sharedPriority_lt _ _ (sharing_reaches sharing_two) 2 [1]
    sharing_two_contend (by simp)).2.mpr rfl

/-- Three threads share the highest priority: the one that yields is not queued behind the others, and
not all of them get their turn. -/
theorem roundRobin_three : ∃ actions s,
    Reaches 32 0 (fun _ a => a.whole = true) (Machine.initial sharedPriority fun _ => 5) actions s ∧
      Contend s 3 [2, 1] ∧ ¬ Behind 32 0 s 3 (s.system.sched.thread 3).currentPriority ∧ ¬ Evenly 32 0 s 3 [3, 2, 1] := by
  have sound := Reaches.sound (sharing_reaches sharing_three) (fun _ _ => id) (by decide) (initial_sound sharedPriority_lt)
  have turns := sharing_three_contend.takeTurns sound
  exact ⟨_, _, sharing_reaches sharing_three, sharing_three_contend, turns.not_behind (by decide) 0,
    turns.not_evenly (by decide) 0⟩

end RtThread.Kernel
