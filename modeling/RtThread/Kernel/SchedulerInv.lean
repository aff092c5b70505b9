import RtThread.Kernel.SchedulerLists

/-! The invariant of the ready queue.

Inside a call some threads are between lists. `Held` is the invariant with a
set of such loose threads; no thread is loose between calls.
-/

set_option autoImplicit false

namespace RtThread.Kernel

open Sched
open Function (update_of_ne update_self)

/-- The lists a thread in state `stat` can be linked into. A closed thread is out of every list
until it is queued for the idle thread to clean up. -/
def Stat.Links (stat : Stat) (priority : Nat) (link : Option Queue) : Prop :=
  match stat with
  | .init => link = none
  | .ready => link = some (.ready priority)
  | .running => link = none
  | .close => ∀ q ∈ link, q = .defunct
  | .suspend _ => ∀ q ∈ link, ∀ p, q ≠ .ready p ∧ q ≠ .defunct

def Stat.started : Stat → Bool
  | .init | .close => false
  | _ => true

theorem Stat.started_of_suspended {stat : Stat} (suspended : stat.suspended = true) : stat.started = true := by
  cases stat <;> first | rfl | cases suspended

structure Fits (k : Sched) (t : Tid) : Prop where
  links : (k.thread t).stat.Links (k.thread t).currentPriority (k.thread t).tlist
  running : (k.thread t).stat = .running → k.current = some t
  timer : (k.thread t).timer = true → (k.thread t).stat.suspended = true

section
variable (priorityMax : Nat)

/-- `Held k S`: the lists, states and bitmap of `k` agree, the threads in `S` being loose. -/
structure Held (k : Sched) (S : Tid → Prop) : Prop where
  linked : ∀ q t, t ∈ k.queue q ↔ (k.thread t).tlist = some q
  nodup : ∀ q, (k.queue q).Nodup
  fits : ∀ t, ¬ S t → Fits k t
  loose : ∀ t, S t → (k.thread t).tlist = none ∧ (k.thread t).stat.started = true
  masks : ∀ t, (k.thread t).stat.started = true →
    (k.thread t).mask = ReadyBitmap.maskOf priorityMax (k.thread t).currentPriority
  bound : ∀ t, (k.thread t).currentPriority < priorityMax
  marks : k.bitmap.Marks priorityMax fun p => k.queue (.ready p) ≠ []

/-- `S` with `t` added. -/
def With (S : Tid → Prop) (t : Tid) : Tid → Prop := fun u => u = t ∨ S u

/-- `S` without `t`. -/
def Without (S : Tid → Prop) (t : Tid) : Tid → Prop := fun u => u ≠ t ∧ S u

def Nobody : Tid → Prop := fun _ => False

variable {priorityMax} {k : Sched} {S : Tid → Prop} {t : Tid}

theorem Held.congr {S' : Tid → Prop} (held : Held priorityMax k S) (same : ∀ u, S u ↔ S' u) :
    Held priorityMax k S' :=
  (funext fun u => propext (same u) : S = S') ▸ held

theorem Held.ready {p : Nat} (held : Held priorityMax k S) (link : (k.thread t).tlist = some (.ready p)) :
    ¬ S t ∧ (k.thread t).stat = .ready ∧ (k.thread t).currentPriority = p := by
  have tight : ¬ S t := fun loose => by simp [(held.loose t loose).1] at link
  have fits := (held.fits t tight).links
  rw [link] at fits
  refine ⟨tight, ?_⟩
  cases status : (k.thread t).stat with
  | ready => rw [status] at fits; exact ⟨rfl, (Queue.ready.inj (Option.some.inj fits)).symm⟩
  | init | running => rw [status] at fits; cases fits
  | close => rw [status] at fits; cases fits _ rfl
  | suspend flag => rw [status] at fits; exact absurd rfl (fits _ rfl p).1

theorem Held.ready_mem (held : Held priorityMax k S) (tight : ¬ S t) (ready : (k.thread t).stat = .ready) :
    t ∈ k.queue (.ready (k.thread t).currentPriority) := by
  have fits := (held.fits t tight).links
  rw [ready] at fits
  exact (held.linked _ _).mpr fits

theorem Held.not_mem (held : Held priorityMax k S) (unlinked : (k.thread t).tlist = none) (q : Queue) :
    t ∉ k.queue q := by
  rw [held.linked, unlinked]
  simp

/-! ## Taking a thread out of its list -/

theorem Held.remove_linked (held : Held priorityMax k S) (q : Queue) (u : Tid) :
    u ∈ (k.rtListRemove t).queue q ↔ ((k.rtListRemove t).thread u).tlist = some q := by
  rw [rtListRemove_thread, rtListRemove_queue]
  by_cases same : u = t
  · subst same
    rw [update_self]
    split
    · simp [(held.nodup q).mem_erase_iff]
    case isFalse other => simp [held.linked, other]
  · rw [update_of_ne same]
    have linked := held.linked q u
    split
    · exact (List.mem_erase_of_ne same).trans linked
    · exact linked

theorem Held.remove_nodup (held : Held priorityMax k S) (q : Queue) : ((k.rtListRemove t).queue q).Nodup := by
  rw [rtListRemove_queue]
  split
  · exact (held.nodup q).erase t
  · exact held.nodup q

theorem Held.of_removed {k' : Sched} (held : Held priorityMax k S) (started : (k.thread t).stat.started = true)
    (thread : k'.thread = (k.rtListRemove t).thread) (queue : k'.queue = (k.rtListRemove t).queue)
    (rest : SameRest k k') (marks : k'.bitmap.Marks priorityMax fun p => k'.queue (.ready p) ≠ []) :
    Held priorityMax k' (With S t) where
  linked q u := by rw [queue, thread]; exact held.remove_linked q u
  nodup q := by rw [queue]; exact held.remove_nodup q
  fits u tight := by
    rw [With, not_or] at tight
    have fits := held.fits u tight.2
    have same : k'.thread u = k.thread u := by
      rw [thread, rtListRemove_thread, update_of_ne tight.1]
    exact ⟨by rw [same]; exact fits.links, by rw [same, rest.current]; exact fits.running,
      by rw [same]; exact fits.timer⟩
  loose u loose := by
    rw [thread, rtListRemove_thread]
    by_cases same : u = t
    · subst same; simpa using started
    · rw [update_of_ne same]
      exact held.loose u (loose.resolve_left same)
  masks u := by
    rw [thread, rtListRemove_thread]
    by_cases same : u = t
    · subst same; simpa using held.masks u
    · rw [update_of_ne same]; exact held.masks u
  bound u := by
    rw [thread, rtListRemove_thread]
    by_cases same : u = t
    · subst same; simpa using held.bound u
    · rw [update_of_ne same]; exact held.bound u
  marks := marks

theorem Held.unlink (held : Held priorityMax k S) (suspended : (k.thread t).stat.suspended = true) :
    Held priorityMax (k.rtListRemove t) (With S t) := by
  have started := Stat.started_of_suspended suspended
  refine held.of_removed started rfl rfl (rtListRemove_rest k t) ?_
  rw [rtListRemove_bitmap]
  refine held.marks.congr priorityMax fun p => ?_
  rw [rtListRemove_queue, if_neg]
  intro link
  rw [(held.ready link).2.1] at suspended
  cases suspended

theorem Held.remove (held : Held priorityMax k S) (limit : priorityMax ≤ 256)
    (started : (k.thread t).stat.started = true) :
    Held priorityMax (rtScheduleRemoveThread priorityMax k t) (With S t) := by
  refine held.of_removed started ((rtScheduleRemoveThread_thread _ _ _).trans (rtListRemove_thread _ _).symm)
    (rtScheduleRemoveThread_queue _ _ _) (rtScheduleRemoveThread_rest _ _ _) ?_
  rw [rtScheduleRemoveThread_queue, rtScheduleRemoveThread_bitmap, held.masks t started]
  -- the lists of the other priorities are as they were
  have others : ∀ p, p ≠ (k.thread t).currentPriority →
      (k.rtListRemove t).queue (.ready p) = k.queue (.ready p) := by
    intro p other
    rw [rtListRemove_queue, if_neg]
    exact fun link => other (held.ready link).2.2.symm
  split
  case isTrue empty =>
    refine (held.marks.clear priorityMax (held.bound t) limit).congr priorityMax fun p => ?_
    by_cases same : p = (k.thread t).currentPriority
    · simp [same, empty]
    · rw [others p same]
      simp [same]
  case isFalse some =>
    refine held.marks.congr priorityMax fun p => ?_
    by_cases same : p = (k.thread t).currentPriority
    · rw [same]
      refine iff_of_true (fun none => some ?_) some
      rw [rtListRemove_queue]
      split
      · rw [none]; rfl
      · exact none
    · rw [others p same]

/-! ## Putting a loose thread back -/

theorem Held.place {k' : Sched} (held : Held priorityMax k S) (unlinked : (k.thread t).tlist = none) {value : Thread} {q : Queue}
    {list : List Tid} (thread : k'.thread = Function.update k.thread t value)
    (queue : k'.queue = Function.update k.queue q list) (link : value.tlist = some q)
    (members : ∀ u, u ∈ list ↔ u = t ∨ u ∈ k.queue q) (nodup : list.Nodup) (rest : SameRest k k')
    (fits : Fits k' t) (mask : value.stat.started = true → value.mask = ReadyBitmap.maskOf priorityMax value.currentPriority)
    (bound : value.currentPriority < priorityMax)
    (marks : k'.bitmap.Marks priorityMax fun p => k'.queue (.ready p) ≠ []) :
    Held priorityMax k' (Without S t) where
  linked q' u := by
    rw [thread, queue]
    by_cases same : u = t
    · subst same
      rw [update_self, link]
      by_cases here : q' = q
      · subst here; simp [members]
      · rw [update_of_ne here]
        have apart : some q ≠ some q' := fun eq => here (Option.some.inj eq).symm
        simpa [apart] using held.not_mem unlinked q'
    · rw [update_of_ne same, ← held.linked]
      by_cases here : q' = q
      · subst here; simp [members, same]
      · rw [update_of_ne here]
  nodup q' := by
    rw [queue]
    by_cases here : q' = q
    · subst here; simpa using nodup
    · rw [update_of_ne here]; exact held.nodup q'
  fits u tight := by
    by_cases same : u = t
    · exact same ▸ fits
    · have fits := held.fits u fun inside => tight ⟨same, inside⟩
      have still : k'.thread u = k.thread u := by rw [thread, update_of_ne same]
      exact ⟨by rw [still]; exact fits.links, by rw [still, rest.current]; exact fits.running,
        by rw [still]; exact fits.timer⟩
  loose u inside := by
    rw [thread, update_of_ne inside.1]
    exact held.loose u inside.2
  masks u := by
    rw [thread]
    by_cases same : u = t
    · subst same; simpa using mask
    · rw [update_of_ne same]; exact held.masks u
  bound u := by
    rw [thread]
    by_cases same : u = t
    · subst same; simpa using bound
    · rw [update_of_ne same]; exact held.bound u
  marks := marks

theorem Held.adjust (held : Held priorityMax k S) {value : Thread} {S' : Tid → Prop}
    (link : value.tlist = (k.thread t).tlist)
    (sub : ∀ u, u ≠ t → (S' u ↔ S u)) (fits : ¬ S' t → Fits (k.setThread t value) t)
    (loose : S' t → value.tlist = none ∧ value.stat.started = true)
    (mask : value.stat.started = true → value.mask = ReadyBitmap.maskOf priorityMax value.currentPriority)
    (bound : value.currentPriority < priorityMax) : Held priorityMax (k.setThread t value) S' where
  linked q u := by
    rw [setThread_thread]
    by_cases same : u = t
    · subst same; rw [update_self, link]; exact held.linked q u
    · rw [update_of_ne same]; exact held.linked q u
  nodup := held.nodup
  fits u tight := by
    by_cases same : u = t
    · subst same; exact fits tight
    · have fits := held.fits u fun inside => tight ((sub u same).mpr inside)
      have still : (k.setThread t value).thread u = k.thread u := update_of_ne same _ _
      exact ⟨by rw [still]; exact fits.links, by rw [still]; exact fits.running, by rw [still]; exact fits.timer⟩
  loose u inside := by
    rw [setThread_thread]
    by_cases same : u = t
    · subst same; simpa using loose inside
    · rw [update_of_ne same]; exact held.loose u ((sub u same).mp inside)
  masks u := by
    rw [setThread_thread]
    by_cases same : u = t
    · subst same; simpa using mask
    · rw [update_of_ne same]; exact held.masks u
  bound u := by
    rw [setThread_thread]
    by_cases same : u = t
    · subst same; simpa using bound
    · rw [update_of_ne same]; exact held.bound u
  marks := held.marks

theorem Held.insertOther (held : Held priorityMax k S) (limit : priorityMax ≤ 256) (loose : S t)
    (other : k.current ≠ some t) (timer : (k.thread t).timer = false) :
    Held priorityMax (rtScheduleInsertThread priorityMax k t) (Without S t) := by
  obtain ⟨unlinked, started⟩ := held.loose t loose
  have inserted := rtScheduleInsertThread_other priorityMax other unlinked
  generalize rtScheduleInsertThread priorityMax k t = k' at inserted
  refine held.place unlinked inserted.thread inserted.queue rfl (fun u => mem_joinReady)
    (nodup_joinReady (held.nodup _) (held.not_mem unlinked _)) inserted.rest ⟨?_, ?_, ?_⟩ (fun _ => held.masks t started)
    (held.bound t) ?_
  · simp [inserted.thread, Stat.Links]
  · simp [inserted.thread]
  · simp [inserted.thread, timer]
  · rw [inserted.bitmap, inserted.queue, held.masks t started]
    refine (held.marks.set priorityMax (held.bound t) limit).congr priorityMax fun p => ?_
    by_cases same : p = (k.thread t).currentPriority
    · subst same
      have some : joinReady (k.thread t) t (k.queue (.ready (k.thread t).currentPriority)) ≠ [] :=
        List.ne_nil_of_mem (mem_joinReady.mpr (.inl rfl))
      simp [some]
    · simp [same]

theorem Held.run (held : Held priorityMax k S) (loose : S t) (current : k.current = some t)
    (timer : (k.thread t).timer = false) : Held priorityMax (k.setStat t .running) (Without S t) := by
  obtain ⟨unlinked, started⟩ := held.loose t loose
  refine held.adjust rfl (fun u other => by simp [Without, other]) (fun _ => ⟨?_, ?_, ?_⟩)
    (fun inside => absurd rfl inside.1) (fun _ => held.masks t started) (held.bound t)
  · simp [Stat.Links, unlinked]
  · exact fun _ => current
  · simp [timer]

theorem Held.insert (held : Held priorityMax k S) (limit : priorityMax ≤ 256) (loose : S t)
    (timer : (k.thread t).timer = false) :
    Held priorityMax (rtScheduleInsertThread priorityMax k t) (Without S t) := by
  by_cases current : k.current = some t
  · rw [rtScheduleInsertThread_current priorityMax current]
    exact held.run loose current timer
  · exact held.insertOther limit loose current timer

/-! ## The calls -/

theorem without_with (S : Tid → Prop) (t u : Tid) (tight : ¬ S t) : Without (With S t) t u ↔ S u := by
  unfold Without With
  constructor
  · rintro ⟨other, same | inside⟩
    · exact absurd same other
    · exact inside
  · exact fun inside => ⟨fun same => tight (same ▸ inside), .inr inside⟩

theorem rtListRemove_other (k : Sched) {t u : Tid} (other : u ≠ t) : (k.rtListRemove t).thread u = k.thread u := by
  rw [rtListRemove_thread, update_of_ne other]

section
variable (held : Held priorityMax k Nobody) (limit : priorityMax ≤ 256)
include held limit

theorem Held.suspend (active : (k.thread t).stat = .ready ∨ (k.thread t).stat = .running) (flag : SuspendFlag) :
    Held priorityMax (((rtScheduleRemoveThread priorityMax k t).setStat t (.suspend flag)).setTimer t false)
      Nobody := by
  have started : (k.thread t).stat.started = true := by rcases active with active | active <;> simp [active, Stat.started]
  have removed := held.remove limit started
  have shape : ((rtScheduleRemoveThread priorityMax k t).setStat t (.suspend flag)).setTimer t false =
      (rtScheduleRemoveThread priorityMax k t).setThread t
        { k.thread t with tlist := none, stat := .suspend flag, timer := false } := by
    simp [setStat, setTimer, setThread]
  rw [shape]
  refine removed.adjust (by simp) (fun u other => by simp [With, Nobody, other]) (fun _ => ⟨?_, ?_, ?_⟩)
    (fun loose => loose.elim) (fun _ => held.masks t started) (held.bound t)
  · simp [Stat.Links]
  · simp
  · simp

theorem Held.resume (suspended : (k.thread t).stat.suspended = true) :
    Held priorityMax (rtScheduleInsertThread priorityMax (resumeRemove k t) t) Nobody := by
  have removed := held.unlink suspended
  have started := Stat.started_of_suspended suspended
  have stopped : Held priorityMax (resumeRemove k t) (With Nobody t) := by
    unfold resumeRemove
    refine removed.adjust rfl (fun u other => Iff.rfl) (fun tight => absurd (.inl rfl) tight) (fun _ => ?_) (fun _ => ?_) ?_
    · simpa using started
    · simpa using held.masks t started
    · simpa using held.bound t
  refine (stopped.insert limit (.inl rfl) (by simp [resumeRemove])).congr fun u => ?_
  exact without_with Nobody t u id

theorem Held.timeout (suspended : (k.thread t).stat.suspended = true) (timer : (k.thread t).timer = false) :
    Held priorityMax (threadTimeout priorityMax k t) Nobody := by
  unfold threadTimeout
  rw [if_pos suspended]
  refine ((held.unlink suspended).insert limit (.inl rfl) (by simpa using timer)).congr fun u => ?_
  exact without_with Nobody t u id

end

theorem Held.change (held : Held priorityMax k S) (limit : priorityMax ≤ 256) (tight : ¬ S t) {p : Nat}
    (bound : p < priorityMax) (other : (k.thread t).stat = .ready → k.current ≠ some t) :
    Held priorityMax (changePriority priorityMax k t p) S := by
  unfold changePriority
  split
  case isTrue ready =>
    have started : (k.thread t).stat.started = true := by simp [ready, Stat.started]
    have removed := held.remove limit started
    have fits := held.fits t tight
    have timer : (k.thread t).timer = false := by
      rw [← Bool.not_eq_true]
      exact fun active => by have := fits.timer active; rw [ready] at this; cases this
    have changed : Held priorityMax ((rtScheduleRemoveThread priorityMax k t).setThread t
        { (rtScheduleRemoveThread priorityMax k t).thread t with
          currentPriority := p, mask := ReadyBitmap.maskOf priorityMax p }) (With S t) :=
      removed.adjust rfl (fun u _ => Iff.rfl) (fun loose => absurd (.inl rfl) loose) (fun _ => by simp [ready, Stat.started])
        (fun _ => rfl) bound
    refine (changed.insertOther limit (.inl rfl) ?_ (by simpa using timer)).congr
      fun u => without_with S t u tight
    show (rtScheduleRemoveThread priorityMax k t).current ≠ some t
    rw [(rtScheduleRemoveThread_rest priorityMax k t).current]
    exact other ready
  case isFalse idle =>
    have fits := held.fits t tight
    refine held.adjust rfl (fun u _ => Iff.rfl) (fun _ => ⟨?_, ?_, ?_⟩) (fun loose => absurd loose tight)
      (fun _ => rfl) bound
    · have links := fits.links
      rw [setThread_thread, update_self]
      cases status : (k.thread t).stat with
      | ready => exact absurd status idle
      | init | close | running | suspend flag => rw [status] at links; exact links
    · simpa using fits.running
    · simpa using fits.timer

end

end RtThread.Kernel
