import RtThread.Kernel.SchedulerInv

/-! What `rt_schedule` does, case by case. -/

set_option autoImplicit false

namespace RtThread.Kernel

open Sched
open Function (update update_of_ne update_self)

section
variable {priorityMax : Nat} {k : Sched} {c next : Tid}

theorem Held.setYield (held : Held priorityMax k Nobody) (t : Tid) (yield : Bool) :
    Held priorityMax (k.setYield t yield) Nobody := by
  have fits := held.fits t id
  refine held.adjust rfl (fun _ _ => Iff.rfl) (fun _ => ⟨?_, ?_, ?_⟩) (fun loose => loose.elim)
    (held.masks t) (held.bound t)
  · simpa using fits.links
  · simpa using fits.running
  · simpa using fits.timer

theorem Held.running (held : Held priorityMax k Nobody) (running : (k.thread c).stat = .running) :
    (k.thread c).tlist = none ∧ (k.thread c).timer = false := by
  have fits := held.fits c id
  have links := fits.links
  rw [running] at links
  refine ⟨links, ?_⟩
  rw [← Bool.not_eq_true]
  intro active
  have := fits.timer active
  rw [running] at this
  cases this

theorem rtListRemove_unlinked (unlinked : (k.thread c).tlist = none) : k.rtListRemove c = k := by
  simp [rtListRemove, unlinked]

theorem setThread_self_eq {t : Tid} {value : Thread} (same : value = k.thread t) : k.setThread t value = k := by
  subst same
  unfold setThread
  rw [Function.update_eq_self]

theorem Held.stay (held : Held priorityMax k Nobody) (limit : priorityMax ≤ 256) (current : k.current = some c)
    (running : (k.thread c).stat = .running) :
    Held priorityMax (stayOn priorityMax k c) Nobody ∧ (stayOn priorityMax k c).thread = k.thread ∧
      (stayOn priorityMax k c).queue = k.queue ∧ SameRest k (stayOn priorityMax k c) := by
  obtain ⟨unlinked, timer⟩ := held.running running
  have started : (k.thread c).stat.started = true := by simp [running, Stat.started]
  have removed := held.remove limit started
  have rest := rtScheduleRemoveThread_rest priorityMax k c
  have back := removed.run (.inl rfl) (rest.current.trans current) (by simpa using timer)
  refine ⟨back.congr fun u => without_with Nobody c u id, ?_, ?_, ⟨rest.current, rest.lockNest, rest.fault⟩⟩
  · unfold stayOn
    simp only [setStat_thread, rtScheduleRemoveThread_thread, update_self, Function.update_idem]
    rw [← running, ← unlinked]
    exact Function.update_eq_self c k.thread
  · show (rtScheduleRemoveThread priorityMax k c).queue = k.queue
    rw [rtScheduleRemoveThread_queue, rtListRemove_unlinked unlinked]

theorem Held.setCurrent {S : Tid → Prop} (held : Held priorityMax k S) (next : Tid)
    (idle : ∀ u, ¬ S u → (k.thread u).stat ≠ .running) : Held priorityMax (k.setCurrent next) S where
  linked := held.linked
  nodup := held.nodup
  fits u tight := by
    have fits := held.fits u tight
    exact ⟨fits.links, fun running => absurd running (idle u tight), fits.timer⟩
  loose := held.loose
  masks := held.masks
  bound := held.bound
  marks := held.marks

section
variable (held : Held priorityMax k Nobody)
include held

theorem Held.dispatch (limit : priorityMax ≤ 256) (current : k.current = some next)
    (ready : (k.thread next).stat = .ready) :
    Held priorityMax ((rtScheduleRemoveThread priorityMax k next).setStat next .running) Nobody := by
  have started : (k.thread next).stat.started = true := by simp [ready, Stat.started]
  have removed := held.remove limit started
  have timer : (k.thread next).timer = false := by
    rw [← Bool.not_eq_true]
    intro active
    have := (held.fits next id).timer active
    rw [ready] at this
    cases this
  have rest := rtScheduleRemoveThread_rest priorityMax k next
  exact (removed.run (.inl rfl) (rest.current.trans current) (by simpa using timer)).congr
    fun u => without_with Nobody next u id

theorem Held.not_running (current : k.current = some c)
    (away : (k.thread c).stat ≠ .running) (u : Tid) : (k.thread u).stat ≠ .running := by
  intro running
  have := (held.fits u id).running running
  rw [current] at this
  exact away (Option.some.inj this ▸ running)

theorem Held.switchAway (limit : priorityMax ≤ 256) (current : k.current = some c)
    (away : (k.thread c).stat ≠ .running) (ready : (k.thread next).stat = .ready) :
    let k' := switchTo priorityMax k c next false
    Held priorityMax k' Nobody ∧ k'.current = some next ∧ k'.lockNest = k.lockNest ∧ k'.fault = k.fault ∧
      k'.thread = update k.thread next { k.thread next with tlist := none, stat := .running } ∧
      k'.queue = (k.rtListRemove next).queue := by
  intro k'
  have moved := held.setCurrent next fun u _ => held.not_running current away u
  have rest := rtScheduleRemoveThread_rest priorityMax (k.setCurrent next) next
  have removed : (k.setCurrent next).rtListRemove next =
      (k.rtListRemove next).setCurrent next := by
    unfold Sched.rtListRemove
    rw [setCurrent_thread]
    cases (k.thread next).tlist <;> rfl
  refine ⟨moved.dispatch limit rfl ready, rest.current, rest.lockNest, rest.fault, ?_, ?_⟩
  · simp [k', switchTo]
  · show (rtScheduleRemoveThread priorityMax (k.setCurrent next) next).queue = _
    rw [rtScheduleRemoveThread_queue, removed, setCurrent_queue]

theorem Held.switchReady (limit : priorityMax ≤ 256) (current : k.current = some c)
    (running : (k.thread c).stat = .running) (ready : (k.thread next).stat = .ready) :
    let k' := switchTo priorityMax k c next true
    let parked := { k.thread c with stat := .ready, tlist := some (.ready (k.thread c).currentPriority) }
    let joined := update k.queue (.ready (k.thread c).currentPriority)
      (joinReady (k.thread c) c (k.queue (.ready (k.thread c).currentPriority)))
    Held priorityMax k' Nobody ∧ k'.current = some next ∧ k'.lockNest = k.lockNest ∧ k'.fault = k.fault ∧
      k'.thread = update (update k.thread c parked) next
        { k.thread next with tlist := none, stat := .running } ∧
      ∀ q, k'.queue q = if (k.thread next).tlist = some q then (joined q).erase next else joined q := by
  intro k' parked joined
  obtain ⟨unlinked, timer⟩ := held.running running
  have apart : next ≠ c := by rintro rfl; rw [running] at ready; cases ready
  -- the outgoing thread is loose while the current thread changes
  have loosened : Held priorityMax k (With Nobody c) := by
    have same : Held priorityMax (k.setThread c (k.thread c)) (With Nobody c) :=
      held.adjust rfl (fun u other => by simp [With, Nobody, other]) (fun tight => absurd (.inl rfl) tight)
        (fun _ => ⟨unlinked, by simp [running, Stat.started]⟩) (held.masks c) (held.bound c)
    rwa [setThread_self_eq rfl] at same
  have moved := loosened.setCurrent next fun u tight => by
    intro run
    have := (held.fits u id).running run
    rw [current] at this
    exact tight (.inl (Option.some.inj this).symm)
  have other : (k.setCurrent next).current ≠ some c := fun same => apart (Option.some.inj same)
  have ready' := (moved.insertOther limit (.inl rfl) other timer).congr fun u => without_with Nobody c u id
  have inserted := rtScheduleInsertThread_other priorityMax other unlinked
  have shape : k' = (rtScheduleRemoveThread priorityMax
    (rtScheduleInsertThread priorityMax (k.setCurrent next) c) next).setStat next .running := rfl
  generalize rtScheduleInsertThread priorityMax (k.setCurrent next) c = mid at ready' inserted shape
  have still : mid.thread next = k.thread next := by
    rw [inserted.thread]
    exact update_of_ne apart _ _
  have rest := inserted.rest.trans (rtScheduleRemoveThread_rest priorityMax mid next)
  refine ⟨?_, ?_, ?_, ?_, ?_, fun q => ?_⟩
  · rw [shape]
    exact ready'.dispatch limit inserted.rest.current (by rw [still]; exact ready)
  · rw [shape]; exact rest.current
  · rw [shape]; exact rest.lockNest
  · rw [shape]; exact rest.fault
  · rw [shape]
    simp only [setStat_thread, rtScheduleRemoveThread_thread, update_self, Function.update_idem, still,
      inserted.thread]
    rfl
  · rw [shape]
    show (rtScheduleRemoveThread priorityMax mid next).queue q = _
    rw [rtScheduleRemoveThread_queue, rtListRemove_queue, still, inserted.queue]
    rfl

end

end

def Stat.active : Stat → Bool
  | .ready | .running => true
  | _ => false

def Queue.aside : Queue → Bool
  | .ready _ => false
  | _ => true

/-- `k'` differs from `k` only in which of the active threads runs and where the ready ones stand. -/
structure SameWaits (k k' : Sched) : Prop where
  stat : ∀ t, (k'.thread t).stat = (k.thread t).stat ∨
    ((k.thread t).stat.active = true ∧ (k'.thread t).stat.active = true)
  priority : ∀ t, (k'.thread t).currentPriority = (k.thread t).currentPriority
  initPriority : ∀ t, (k'.thread t).initPriority = (k.thread t).initPriority
  timer : ∀ t, (k'.thread t).timer = (k.thread t).timer
  queue : ∀ q, q.aside = true → k'.queue q = k.queue q
  link : ∀ t q, q.aside = true → ((k'.thread t).tlist = some q ↔ (k.thread t).tlist = some q)

theorem SameWaits.refl (k : Sched) : SameWaits k k :=
  ⟨fun _ => .inl rfl, fun _ => rfl, fun _ => rfl, fun _ => rfl, fun _ _ => rfl, fun _ _ _ => Iff.rfl⟩

theorem SameWaits.trans {k₁ k₂ k₃ : Sched} (first : SameWaits k₁ k₂) (rest : SameWaits k₂ k₃) :
    SameWaits k₁ k₃ where
  stat t := by
    rcases rest.stat t with same | ⟨active, active'⟩
    · rw [same]; exact first.stat t
    · rcases first.stat t with same | ⟨before, -⟩
      · rw [same] at active; exact .inr ⟨active, active'⟩
      · exact .inr ⟨before, active'⟩
  priority t := (rest.priority t).trans (first.priority t)
  initPriority t := (rest.initPriority t).trans (first.initPriority t)
  timer t := (rest.timer t).trans (first.timer t)
  queue q aside := (rest.queue q aside).trans (first.queue q aside)
  link t q aside := (rest.link t q aside).trans (first.link t q aside)

theorem SameWaits.suspended {k k' : Sched} (same : SameWaits k k') (t : Tid) :
    (k'.thread t).stat.suspended = (k.thread t).stat.suspended := by
  rcases same.stat t with same | ⟨before, after⟩
  · rw [same]
  · cases h : (k.thread t).stat <;> cases h' : (k'.thread t).stat <;> simp_all [Stat.active, Stat.suspended]

section
variable {priorityMax : Nat} {k : Sched} {c next : Tid}

/-- What `rt_schedule` guarantees when the scheduler is unlocked and some thread is ready. -/
structure Scheduled (k : Sched) (c : Tid) (k' : Sched) (next : Tid) : Prop where
  current : k'.current = some next
  chosen : next = c ∧ (k.thread c).stat = .running ∨ next ≠ c ∧ (k.thread next).stat = .ready
  running : (k'.thread next).stat = .running
  highest : ∀ t, (k'.thread t).stat = .ready → (k'.thread next).currentPriority ≤ (k'.thread t).currentPriority

theorem setYield_stat (k : Sched) (c u : Tid) (yield : Bool) :
    ((k.setYield c yield).thread u).stat = (k.thread u).stat := by
  by_cases same : u = c
  · subst same; simp
  · simp [same]

theorem setYield_priority (k : Sched) (c u : Tid) (yield : Bool) :
    ((k.setYield c yield).thread u).currentPriority = (k.thread u).currentPriority := by
  by_cases same : u = c
  · subst same; simp
  · simp [same]

theorem sameWaits_setYield (k : Sched) (c : Tid) (yield : Bool) : SameWaits k (k.setYield c yield) := by
  have keep : ∀ u, (k.setYield c yield).thread u = { k.thread u with yield := ((k.setYield c yield).thread u).yield } := by
    intro u
    by_cases same : u = c
    · subst same; simp
    · simp [same]
  refine ⟨fun t => .inl ?_, fun t => ?_, fun t => ?_, fun t => ?_, fun q _ => rfl, fun t q _ => ?_⟩ <;> rw [keep t]

theorem Held.occupied (held : Held priorityMax k Nobody) {p : Nat} (some : k.queue (.ready p) ≠ []) :
    p < priorityMax := by
  obtain ⟨t, member⟩ := List.exists_mem_of_ne_nil _ some
  obtain ⟨-, -, rfl⟩ := held.ready ((held.linked _ t).mp member)
  exact held.bound t

theorem Held.stay_yield (held : Held priorityMax k Nobody) (limit : priorityMax ≤ 256) (current : k.current = some c)
    (running : (k.thread c).stat = .running) :
    let k' := stayOn priorityMax (k.setYield c false) c
    Held priorityMax k' Nobody ∧ k'.thread = update k.thread c { k.thread c with yield := false } ∧
      k'.queue = k.queue ∧ SameRest k k' := by
  obtain ⟨held', thread, queue, rest⟩ := (held.setYield c false).stay limit current (by simpa using running)
  exact ⟨held', thread, queue, ⟨rest.current, rest.lockNest, rest.fault⟩⟩

theorem sameWaits_update (k : Sched) {k' : Sched} (c : Tid) (value : Thread)
    (thread : k'.thread = update k.thread c value)
    (stat : value.stat = (k.thread c).stat ∨ ((k.thread c).stat.active = true ∧ value.stat.active = true))
    (priority : value.currentPriority = (k.thread c).currentPriority)
    (initPriority : value.initPriority = (k.thread c).initPriority) (timer : value.timer = (k.thread c).timer)
    (link : ∀ q, q.aside = true → (value.tlist = some q ↔ (k.thread c).tlist = some q))
    (queue : ∀ q, q.aside = true → k'.queue q = k.queue q) : SameWaits k k' := by
  have other : ∀ t, t ≠ c → k'.thread t = k.thread t := fun t apart => by
    rw [thread, update_of_ne apart]
  have own : k'.thread c = value := by rw [thread, update_self]
  constructor
  case stat =>
    intro t
    by_cases same : t = c
    · subst same; rw [own]; exact stat
    · rw [other t same]; exact .inl rfl
  case priority =>
    intro t
    by_cases same : t = c
    · subst same; rw [own]; exact priority
    · rw [other t same]
  case initPriority =>
    intro t
    by_cases same : t = c
    · subst same; rw [own]; exact initPriority
    · rw [other t same]
  case timer =>
    intro t
    by_cases same : t = c
    · subst same; rw [own]; exact timer
    · rw [other t same]
  case queue => exact queue
  case link =>
    intro t q aside
    by_cases same : t = c
    · subst same; rw [own]; exact link q aside
    · rw [other t same]

theorem Held.sameWaits_away (held : Held priorityMax k Nobody) (ready : (k.thread next).stat = .ready) {k' : Sched}
    (thread : k'.thread = update k.thread next { k.thread next with tlist := none, stat := .running })
    (queue : k'.queue = (k.rtListRemove next).queue) : SameWaits k k' := by
  have link := (held.fits next id).links
  rw [ready] at link
  refine sameWaits_update k next _ thread (.inr ⟨by rw [ready]; rfl, rfl⟩) rfl rfl rfl (fun q aside => ?_)
    (fun q aside => ?_)
  · have apart : Queue.ready (k.thread next).currentPriority ≠ q := by rintro rfl; cases aside
    show none = some q ↔ (k.thread next).tlist = some q
    rw [link, Option.some.injEq]
    exact iff_of_false (by simp) apart
  · have apart : Queue.ready (k.thread next).currentPriority ≠ q := by rintro rfl; cases aside
    rw [queue, rtListRemove_queue, link, if_neg]
    exact fun same => apart (Option.some.inj same)

section
variable (held : Held priorityMax k Nobody) (limit : priorityMax ≤ 256) (current : k.current = some c)
include held limit current

theorem Held.scheduled_away
    (away : (k.thread c).stat ≠ .running) (ready : (k.thread next).stat = .ready) (apart : next ≠ c)
    (highest : ∀ t, (k.thread t).stat = .ready → (k.thread next).currentPriority ≤ (k.thread t).currentPriority) :
    let k' := switchTo priorityMax k c next false
    Held priorityMax k' Nobody ∧ SameWaits k k' ∧ k'.lockNest = k.lockNest ∧ k'.fault = k.fault ∧
      Scheduled k c k' next := by
  obtain ⟨held', current', lockNest, fault, thread, queue⟩ := held.switchAway limit current away ready
  have same := held.sameWaits_away ready thread queue
  refine ⟨held', same, lockNest, fault, current', .inr ⟨apart, ready⟩, by rw [thread]; simp, fun t ready' => ?_⟩
  rw [same.priority, same.priority]
  by_cases own : t = next
  · exact Nat.le_of_eq (by rw [own])
  · rw [thread, update_of_ne own] at ready'
    exact highest t ready'

theorem Held.scheduled_ready (running : (k.thread c).stat = .running) (ready : (k.thread next).stat = .ready)
    (behind : (k.thread next).currentPriority ≤ (k.thread c).currentPriority)
    (highest : ∀ t, (k.thread t).stat = .ready → (k.thread next).currentPriority ≤ (k.thread t).currentPriority) :
    let k' := switchTo priorityMax k c next true
    Held priorityMax k' Nobody ∧ SameWaits k k' ∧ k'.lockNest = k.lockNest ∧ k'.fault = k.fault ∧
      Scheduled k c k' next := by
  obtain ⟨held', current', lockNest, fault, thread, queue⟩ := held.switchReady limit current running ready
  have apart : next ≠ c := by rintro rfl; rw [running] at ready; cases ready
  have unlinked := (held.running running).1
  have link := (held.fits next id).links
  rw [ready] at link
  have parked : SameWaits k (k.setThread c
      { k.thread c with stat := .ready, tlist := some (.ready (k.thread c).currentPriority) }) := by
    refine sameWaits_update k c _ rfl (.inr ⟨by rw [running]; rfl, rfl⟩) rfl rfl rfl (fun q aside => ?_)
      (fun q _ => rfl)
    have other : Queue.ready (k.thread c).currentPriority ≠ q := by rintro rfl; cases aside
    rw [unlinked]
    exact iff_of_false (fun same => other (Option.some.inj same)) (by simp)
  have moved : SameWaits (k.setThread c
      { k.thread c with stat := .ready, tlist := some (.ready (k.thread c).currentPriority) })
      (switchTo priorityMax k c next true) := by
    have still : (k.setThread c { k.thread c with
        stat := .ready, tlist := some (.ready (k.thread c).currentPriority) }).thread next = k.thread next :=
      update_of_ne apart _ _
    refine sameWaits_update _ next _ thread ?_ ?_ ?_ ?_ (fun q aside => ?_) (fun q aside => ?_)
    · rw [still, ready]; exact .inr ⟨rfl, rfl⟩
    · rw [still]
    · rw [still]
    · rw [still]
    · have other : Queue.ready (k.thread next).currentPriority ≠ q := by rintro rfl; cases aside
      rw [still, link]
      exact iff_of_false (by simp) (fun same => other (Option.some.inj same))
    · have other : Queue.ready (k.thread next).currentPriority ≠ q := by rintro rfl; cases aside
      have own : q ≠ .ready (k.thread c).currentPriority := by rintro rfl; cases aside
      rw [queue, link, if_neg (fun same => other (Option.some.inj same)), update_of_ne own]
      rfl
  have same := parked.trans moved
  refine ⟨held', same, lockNest, fault, current', .inr ⟨apart, ready⟩, by rw [thread]; simp, fun t ready' => ?_⟩
  rw [same.priority, same.priority]
  by_cases own : t = next
  · exact Nat.le_of_eq (by rw [own])
  · by_cases out : t = c
    · rw [out]; exact behind
    · rw [thread, update_of_ne own, update_of_ne out] at ready'
      exact highest t ready'

theorem Held.scheduled_stay (running : (k.thread c).stat = .running)
    (first : ∀ t, (k.thread t).stat = .ready → (k.thread c).currentPriority ≤ (k.thread t).currentPriority) :
    let k' := stayOn priorityMax (k.setYield c false) c
    Held priorityMax k' Nobody ∧ SameWaits k k' ∧ k'.lockNest = k.lockNest ∧ k'.fault = k.fault ∧
      Scheduled k c k' c := by
  obtain ⟨held', thread, queue, rest⟩ := held.stay_yield limit current running
  have same := sameWaits_update k c _ thread (.inl rfl) rfl rfl rfl (fun _ _ => Iff.rfl) (fun q _ => by rw [queue])
  refine ⟨held', same, rest.lockNest, rest.fault, rest.current.trans current, .inl ⟨rfl, running⟩, ?_, fun t ready => ?_⟩
  · rw [thread]; simpa using running
  · rw [same.priority, same.priority]
    refine first t ?_
    by_cases own : t = c
    · rw [thread, own, update_self] at ready
      rw [own]; exact ready
    · rwa [thread, update_of_ne own] at ready

end

/-- `rt_schedule` from a state between calls: it does nothing while the scheduler is locked or
nobody is ready, and otherwise leaves the CPU with a thread of the highest priority. -/
theorem Held.schedule (held : Held priorityMax k Nobody) (limit : priorityMax ≤ 256) (current : k.current = some c)
    (busy : (k.thread c).stat ≠ .ready) :
    let k' := rtSchedule priorityMax k
    Held priorityMax k' Nobody ∧ SameWaits k k' ∧ k'.lockNest = k.lockNest ∧ k'.fault = k.fault ∧
      (k' = k ∧ (k.lockNest ≠ 0 ∨ ∀ t, (k.thread t).stat ≠ .ready) ∨ k.lockNest = 0 ∧ ∃ next, Scheduled k c k' next) := by
  intro k'
  by_cases go : k.lockNest = 0 ∧ k.bitmap.group ≠ 0#32
  case neg =>
    have skipped : k' = k := if_neg go
    rw [skipped]
    refine ⟨held, .refl k, rfl, rfl, .inl ⟨rfl, ?_⟩⟩
    by_cases locked : k.lockNest ≠ 0
    · exact .inl locked
    · refine .inr fun t ready => ?_
      have zero : k.bitmap.group = 0#32 := by simpa [not_not.mp locked] using go
      exact held.marks.group_zero priorityMax limit zero (held.bound t)
        (List.ne_nil_of_mem (held.ready_mem id ready))
  case pos =>
    obtain ⟨occupied, least⟩ := held.marks.highest priorityMax limit (fun _ => held.occupied) go.2
    have highest : ∀ t, (k.thread t).stat = .ready → k.bitmap.highest priorityMax ≤ (k.thread t).currentPriority :=
      fun t ready => least _ (List.ne_nil_of_mem (held.ready_mem id ready))
    obtain ⟨next, rest, list⟩ := List.exists_cons_of_ne_nil occupied
    have member : next ∈ k.queue (.ready (k.bitmap.highest priorityMax)) := by rw [list]; exact List.mem_cons_self
    obtain ⟨-, ready, priority⟩ := held.ready ((held.linked _ next).mp member)
    have apart : next ≠ c := by rintro rfl; exact busy ready
    have shape : k' = if (k.thread c).stat = .running then
        (if keepsCpu (k.thread c) (k.bitmap.highest priorityMax) then stayOn priorityMax (k.setYield c false) c
          else switchTo priorityMax (k.setYield c false) c next true)
        else switchTo priorityMax k c next false := by
      simp only [k', rtSchedule, if_pos go, current, list, if_neg apart]
    rw [← priority] at highest shape
    have finish : ∀ {k'' : Sched} {n : Tid}, (Held priorityMax k'' Nobody ∧ SameWaits k k'' ∧ k''.lockNest = k.lockNest ∧
        k''.fault = k.fault ∧ Scheduled k c k'' n) → (Held priorityMax k'' Nobody ∧ SameWaits k k'' ∧
          k''.lockNest = k.lockNest ∧ k''.fault = k.fault ∧ (k'' = k ∧ (k.lockNest ≠ 0 ∨
            ∀ t, (k.thread t).stat ≠ .ready) ∨ k.lockNest = 0 ∧ ∃ next, Scheduled k c k'' next)) :=
      fun ⟨held, same, lockNest, fault, scheduled⟩ =>
        ⟨held, same, lockNest, fault, .inr ⟨go.1, _, scheduled⟩⟩
    rw [shape]
    by_cases running : (k.thread c).stat = .running
    · rw [if_pos running]
      by_cases keeps : keepsCpu (k.thread c) (k.thread next).currentPriority = true
      · rw [if_pos keeps]
        refine finish (held.scheduled_stay limit current running fun t ready' => ?_)
        have ahead : (k.thread c).currentPriority ≤ (k.thread next).currentPriority := by
          simp only [keepsCpu, Bool.or_eq_true, decide_eq_true_eq, Bool.and_eq_true] at keeps
          omega
        exact Nat.le_trans ahead (highest t ready')
      · rw [if_neg keeps]
        have behind : (k.thread next).currentPriority ≤ (k.thread c).currentPriority := by
          simp only [keepsCpu, Bool.or_eq_true, decide_eq_true_eq, not_or] at keeps
          omega
        obtain ⟨held', same, lockNest, fault, scheduled⟩ := (held.setYield c false).scheduled_ready limit current
          ((setYield_stat k c c false).trans running) ((setYield_stat k c next false).trans ready)
          (by rwa [setYield_priority, setYield_priority])
          (fun t ready' => by
            rw [setYield_stat] at ready'
            rw [setYield_priority, setYield_priority]
            exact highest t ready')
        have chosen := scheduled.chosen
        rw [setYield_stat, setYield_stat] at chosen
        exact finish ⟨held', (sameWaits_setYield k c false).trans same, lockNest, fault,
          ⟨scheduled.current, chosen, scheduled.running, scheduled.highest⟩⟩
    · rw [if_neg running]
      exact finish (held.scheduled_away limit current running ready apart highest)

end

end RtThread.Kernel
