import RtThread.Kernel.Switch

/-! The calls of `thread.c` that move one thread: what they preserve, and what
they do to the lists of waiting threads. -/

set_option autoImplicit false

namespace RtThread.Kernel

open Sched
open Function (update update_of_ne update_self)

section
variable (priorityMax : Nat)

structure Settled (k : Sched) : Prop extends Held priorityMax k Nobody where
  busy : ∀ c, k.current = some c → (k.thread c).stat ≠ .ready ∧ (k.thread c).stat ≠ .init

end

/-- Only thread `t` and the ready lists differ. -/
structure OnlyThread (t : Tid) (k k' : Sched) : Prop where
  others : ∀ u, u ≠ t → k'.thread u = k.thread u
  queue : ∀ q, q.aside = true → k'.queue q = k.queue q
  rest : SameRest k k'

section
variable {priorityMax : Nat} {k : Sched} {t c : Tid}

theorem ready_ne_aside {p : Nat} {q : Queue} (aside : q.aside = true) : Queue.ready p ≠ q := by
  rintro rfl
  cases aside

theorem Held.remove_only (held : Held priorityMax k Nobody) (active : (k.thread t).stat.active = true) :
    OnlyThread t k (rtScheduleRemoveThread priorityMax k t) where
  others u other := by rw [rtScheduleRemoveThread_thread, update_of_ne other]
  queue q aside := by
    rw [rtScheduleRemoveThread_queue, rtListRemove_queue, if_neg]
    intro link
    have fits := (held.fits t id).links
    rw [link] at fits
    cases status : (k.thread t).stat with
    | ready => rw [status] at fits; exact ready_ne_aside aside (Option.some.inj fits).symm
    | running => rw [status] at fits; cases fits
    | init | close | suspend flag => rw [status] at active; cases active
  rest := rtScheduleRemoveThread_rest priorityMax k t

theorem insert_only (priorityMax : Nat) {k : Sched} (unlinked : (k.thread t).tlist = none) :
    OnlyThread t k (rtScheduleInsertThread priorityMax k t) ∧
      ((rtScheduleInsertThread priorityMax k t).thread t).stat.active = true ∧
      ((rtScheduleInsertThread priorityMax k t).thread t).currentPriority = (k.thread t).currentPriority ∧
      ((rtScheduleInsertThread priorityMax k t).thread t).initPriority = (k.thread t).initPriority := by
  by_cases current : k.current = some t
  · rw [rtScheduleInsertThread_current priorityMax current]
    refine ⟨⟨fun u other => ?_, fun _ _ => rfl, ⟨rfl, rfl, rfl⟩⟩, ?_⟩
    · rw [setStat_thread, update_of_ne other]
    · simp [Stat.active]
  · have inserted := rtScheduleInsertThread_other priorityMax current unlinked
    refine ⟨⟨fun u other => ?_, fun q aside => ?_, inserted.rest⟩, ?_⟩
    · rw [inserted.thread, update_of_ne other]
    · rw [inserted.queue, update_of_ne (ready_ne_aside aside).symm]
    · rw [inserted.thread]
      simp [Stat.active]

theorem OnlyThread.trans {k₂ k₃ : Sched} (first : OnlyThread t k k₂) (rest : OnlyThread t k₂ k₃) :
    OnlyThread t k k₃ where
  others u other := (rest.others u other).trans (first.others u other)
  queue q aside := (rest.queue q aside).trans (first.queue q aside)
  rest := first.rest.trans rest.rest

theorem onlyThread_setThread (k : Sched) (t : Tid) (value : Thread) : OnlyThread t k (k.setThread t value) where
  others u other := by rw [setThread_thread, update_of_ne other]
  queue _ _ := rfl
  rest := ⟨rfl, rfl, rfl⟩

theorem Inserted.only {k' : Sched} (inserted : Inserted priorityMax k t k') : OnlyThread t k k' where
  others u other := by rw [inserted.thread, update_of_ne other]
  queue q aside := by rw [inserted.queue, update_of_ne (ready_ne_aside aside).symm]
  rest := inserted.rest

theorem Settled.of_only (settled : Settled priorityMax k) {k' : Sched} (held : Held priorityMax k' Nobody)
    (only : OnlyThread t k k')
    (busy : k.current = some t → (k'.thread t).stat ≠ .ready ∧ (k'.thread t).stat ≠ .init) :
    Settled priorityMax k' where
  toHeld := held
  busy c current := by
    rw [only.rest.current] at current
    by_cases own : c = t
    · subst own; exact busy current
    · rw [only.others c own]; exact settled.busy c current

theorem Settled.change (settled : Settled priorityMax k) (limit : priorityMax ≤ 256) (t : Tid) {p : Nat}
    (bound : p < priorityMax) :
    let k' := changePriority priorityMax k t p
    Settled priorityMax k' ∧ OnlyThread t k k' ∧ (k'.thread t).stat = (k.thread t).stat ∧
      (k'.thread t).currentPriority = p ∧ (k'.thread t).initPriority = (k.thread t).initPriority ∧
      (k'.thread t).timer = (k.thread t).timer := by
  intro k'
  have held := settled.toHeld.change limit id bound fun ready current => (settled.busy t current).1 ready
  have effect : OnlyThread t k k' ∧ (k'.thread t).stat = (k.thread t).stat ∧
      (k'.thread t).currentPriority = p ∧ (k'.thread t).initPriority = (k.thread t).initPriority ∧
      (k'.thread t).timer = (k.thread t).timer := by
    simp only [k', changePriority]
    split
    case isTrue ready =>
      have removed := settled.toHeld.remove_only (t := t) (by rw [ready]; rfl)
      have changed := removed.trans (onlyThread_setThread (rtScheduleRemoveThread priorityMax k t) t
        { (rtScheduleRemoveThread priorityMax k t).thread t with
          currentPriority := p, mask := ReadyBitmap.maskOf priorityMax p })
      have inserted := rtScheduleInsertThread_other priorityMax
        (k := (rtScheduleRemoveThread priorityMax k t).setThread t
          { (rtScheduleRemoveThread priorityMax k t).thread t with
            currentPriority := p, mask := ReadyBitmap.maskOf priorityMax p })
        (t := t) (fun current => (settled.busy t (changed.rest.current.symm.trans current)).1 ready) (by simp)
      refine ⟨changed.trans inserted.only, ?_⟩
      rw [inserted.thread]
      simp [ready]
    case isFalse =>
      refine ⟨onlyThread_setThread k t _, ?_⟩
      simp
  exact ⟨settled.of_only held effect.1 fun current => by rw [effect.2.1]; exact settled.busy t current, effect⟩

structure Woken (t : Tid) (k k' : Sched) : Prop where
  others : ∀ u, u ≠ t → k'.thread u = k.thread u
  queue : ∀ q, q.aside = true → k'.queue q = if (k.thread t).tlist = some q then (k.queue q).erase t else k.queue q
  rest : SameRest k k'
  active : (k'.thread t).stat.active = true
  priority : (k'.thread t).currentPriority = (k.thread t).currentPriority
  initPriority : (k'.thread t).initPriority = (k.thread t).initPriority

theorem woken_insert {k₁ : Sched} (thread : ∀ u, u ≠ t → k₁.thread u = k.thread u)
    (queue : k₁.queue = (k.rtListRemove t).queue) (rest : SameRest k k₁) (unlinked : (k₁.thread t).tlist = none)
    (priority : (k₁.thread t).currentPriority = (k.thread t).currentPriority)
    (initPriority : (k₁.thread t).initPriority = (k.thread t).initPriority) :
    Woken t k (rtScheduleInsertThread priorityMax k₁ t) := by
  obtain ⟨only, active, priority', initPriority'⟩ := insert_only priorityMax unlinked
  exact ⟨fun u other => (only.others u other).trans (thread u other),
    fun q aside => (only.queue q aside).trans (by rw [queue, rtListRemove_queue]),
    rest.trans only.rest, active, priority'.trans priority, initPriority'.trans initPriority⟩

theorem Settled.of_woken (settled : Settled priorityMax k) {k' : Sched} (held : Held priorityMax k' Nobody)
    (woken : Woken t k k') (running : k.current = some t → (k'.thread t).stat = .running) :
    Settled priorityMax k' where
  toHeld := held
  busy c current := by
    rw [woken.rest.current] at current
    by_cases own : c = t
    · subst own; rw [running current]; simp
    · rw [woken.others c own]; exact settled.busy c current

theorem insert_running {k : Sched} (current : k.current = some t) :
    ((rtScheduleInsertThread priorityMax k t).thread t).stat = .running := by
  rw [rtScheduleInsertThread_current priorityMax current]
  simp

section
variable (settled : Settled priorityMax k) (limit : priorityMax ≤ 256) (suspended : (k.thread t).stat.suspended = true)
include settled limit suspended

theorem Settled.resume :
    let k' := (rtThreadResume priorityMax k t).2
    Settled priorityMax k' ∧ Woken t k k' ∧ (k'.thread t).timer = false := by
  intro k'
  have shape : k' = rtScheduleInsertThread priorityMax (resumeRemove k t) t := by
    simp only [k', rtThreadResume, suspended, if_true]
  have held := settled.toHeld.resume limit suspended
  have rest := rtListRemove_rest k t
  have woken : Woken t k (rtScheduleInsertThread priorityMax (resumeRemove k t) t) := by
    refine woken_insert (fun u other => ?_) rfl ⟨rest.current, rest.lockNest, rest.fault⟩ ?_ ?_ ?_ <;>
      simp [resumeRemove]
    rw [update_of_ne other]
  rw [shape]
  refine ⟨settled.of_woken held woken fun current => insert_running (rest.current.trans current), woken, ?_⟩
  rw [← Bool.not_eq_true]
  intro timer
  have suspended' := (held.fits t id).timer timer
  have active := woken.active
  cases status : ((rtScheduleInsertThread priorityMax (resumeRemove k t) t).thread t).stat <;>
    simp [status, Stat.active, Stat.suspended] at active suspended'

theorem Settled.timeout (timer : (k.thread t).timer = false) :
    let k' := threadTimeout priorityMax k t
    Settled priorityMax k' ∧ Woken t k k' := by
  intro k'
  have shape : k' = rtScheduleInsertThread priorityMax (k.rtListRemove t) t := by
    simp only [k', threadTimeout, suspended, if_true]
  have held := settled.toHeld.timeout limit suspended timer
  have rest := rtListRemove_rest k t
  have woken : Woken t k (rtScheduleInsertThread priorityMax (k.rtListRemove t) t) := by
    refine woken_insert (fun u other => rtListRemove_other k other) rfl rest ?_ ?_ ?_ <;> simp
  rw [← shape] at woken
  refine ⟨settled.of_woken held woken fun current => ?_, woken⟩
  rw [shape]
  exact insert_running (rest.current.trans current)

end

/-! ## Waiting -/

/-- Thread `t` is suspended and stands in the list `q`. -/
structure Parked (t : Tid) (q : Queue) (place : List Tid → List Tid) (k k' : Sched) : Prop where
  others : ∀ u, u ≠ t → k'.thread u = k.thread u
  queue : ∀ q', q'.aside = true → k'.queue q' = if q' = q then place (k.queue q) else k.queue q'
  rest : SameRest k k'
  suspended : (k'.thread t).stat.suspended = true
  priority : (k'.thread t).currentPriority = (k.thread t).currentPriority
  initPriority : (k'.thread t).initPriority = (k.thread t).initPriority

theorem mem_waitPlace {prio : Bool} {waiting : List Tid} {s : Tid} :
    s ∈ waitPlace k prio t waiting ↔ s = t ∨ s ∈ waiting := by
  unfold waitPlace
  split
  · exact mem_insertByPriority
  · simp [or_comm]

theorem nodup_waitPlace {prio : Bool} {waiting : List Tid} (nodup : waiting.Nodup) (fresh : t ∉ waiting) :
    (waitPlace k prio t waiting).Nodup := by
  unfold waitPlace
  split
  · exact nodup_insertByPriority nodup fresh
  · refine List.nodup_append.mpr ⟨nodup, by simp, fun s member other last => ?_⟩
    rintro rfl
    exact fresh (List.mem_singleton.mp last ▸ member)

theorem Held.wait {S : Tid → Prop} (held : Held priorityMax k S) (loose : S t)
    (suspended : (k.thread t).stat.suspended = true) {q : Queue} (aside : q.aside = true) (live : q ≠ .defunct)
    (prio : Bool) :
    Held priorityMax (k.rtListInsert q t (waitPlace k prio t)) (Without S t) ∧
      Parked t q (waitPlace k prio t) k (k.rtListInsert q t (waitPlace k prio t)) := by
  obtain ⟨unlinked, started⟩ := held.loose t loose
  rw [rtListInsert_linked unlinked]
  have thread : ((k.setQueue q (waitPlace k prio t (k.queue q))).setLink t (some q)).thread =
      update k.thread t { k.thread t with tlist := some q } := rfl
  constructor
  · refine held.place unlinked thread rfl rfl (fun u => mem_waitPlace)
      (nodup_waitPlace (held.nodup q) (held.not_mem unlinked q)) ⟨rfl, rfl, rfl⟩ ⟨?_, ?_, ?_⟩
      (fun _ => held.masks t started) (held.bound t) ?_
    · rw [thread, update_self]
      cases status : (k.thread t).stat <;> rw [status] at suspended <;> try cases suspended
      intro q' same p
      cases same
      exact ⟨(ready_ne_aside aside).symm, live⟩
    · rw [thread, update_self]
      intro running
      rw [show (k.thread t).stat = .running from running] at suspended
      cases suspended
    · rw [thread, update_self]
      exact fun _ => suspended
    · refine held.marks.congr priorityMax fun p => ?_
      have other : Queue.ready p ≠ q := ready_ne_aside aside
      show k.queue (.ready p) ≠ [] ↔ update k.queue q _ (.ready p) ≠ []
      rw [update_of_ne other]
  · refine ⟨fun u other => ?_, fun q' _ => ?_, ⟨rfl, rfl, rfl⟩, ?_, ?_, ?_⟩
    · rw [thread, update_of_ne other]
    · show update k.queue q _ q' = _
      by_cases here : q' = q
      · subst here; simp
      · simp [here]
    · rw [thread]; simpa using suspended
    · rw [thread]; simp
    · rw [thread]; simp

theorem Held.loosen (held : Held priorityMax k Nobody) (unlinked : (k.thread t).tlist = none)
    (started : (k.thread t).stat.started = true) : Held priorityMax k (With Nobody t) := by
  have same : Held priorityMax (k.setThread t (k.thread t)) (With Nobody t) :=
    held.adjust rfl (fun u other => by simp [With, Nobody, other]) (fun tight => absurd (.inl rfl) tight)
      (fun _ => ⟨unlinked, started⟩) (held.masks t) (held.bound t)
  rwa [setThread_self_eq rfl] at same

theorem Settled.suspend (settled : Settled priorityMax k) (limit : priorityMax ≤ 256) (current : k.current = some t)
    (running : (k.thread t).stat = .running) (flag : SuspendFlag) :
    let k' := (rtThreadSuspendWithFlag priorityMax k t flag).2
    (rtThreadSuspendWithFlag priorityMax k t flag).1 = .ok ∧ Settled priorityMax k' ∧ OnlyThread t k k' ∧
      (k'.thread t).stat = .suspend flag ∧ (k'.thread t).tlist = none ∧
      (k'.thread t).currentPriority = (k.thread t).currentPriority ∧
      (k'.thread t).initPriority = (k.thread t).initPriority ∧ (k'.thread t).timer = false := by
  have shape : rtThreadSuspendWithFlag priorityMax k t flag =
      (.ok, ((rtScheduleRemoveThread priorityMax k t).setStat t (.suspend flag)).setTimer t false) := by
    unfold rtThreadSuspendWithFlag
    rw [if_neg (not_not.mpr current), if_pos (.inr running)]
  rw [shape]
  have held := settled.toHeld.suspend limit (.inr running) flag
  have only := ((settled.toHeld.remove_only (t := t) (by rw [running]; rfl)).trans
    (onlyThread_setThread _ t _ : OnlyThread t _ ((rtScheduleRemoveThread priorityMax k t).setStat t (.suspend flag)))).trans
    (onlyThread_setThread _ t _ : OnlyThread t _ (((rtScheduleRemoveThread priorityMax k t).setStat t (.suspend flag)).setTimer t false))
  refine ⟨rfl, settled.of_only held only fun _ => ?_, only, ?_⟩
  · simp
  · simp

theorem waitPlace_congr {k' : Sched} (prio : Bool) (t : Tid)
    (same : ∀ u, (k'.thread u).currentPriority = (k.thread u).currentPriority) :
    waitPlace k' prio t = waitPlace k prio t := by
  have priorities : (fun s => (k'.thread s).currentPriority) = fun s => (k.thread s).currentPriority := funext same
  unfold waitPlace
  rw [priorities]

theorem Settled.park (settled : Settled priorityMax k) (limit : priorityMax ≤ 256) (current : k.current = some t)
    (running : (k.thread t).stat = .running) {q : Queue} (aside : q.aside = true) (live : q ≠ .defunct)
    (prio : Bool) (flag : SuspendFlag) :
    let k' := (ipcListSuspend priorityMax k q t prio flag).2
    (ipcListSuspend priorityMax k q t prio flag).1 = .ok ∧ Settled priorityMax k' ∧
      Parked t q (waitPlace k prio t) k k' ∧ (k'.thread t).timer = false := by
  obtain ⟨ok, settled', only, stat, unlinked, priority, initPriority, timer⟩ :=
    settled.suspend limit current running flag
  have shape : ipcListSuspend priorityMax k q t prio flag =
      (.ok, (rtThreadSuspendWithFlag priorityMax k t flag).2.rtListInsert q t
        (waitPlace (rtThreadSuspendWithFlag priorityMax k t flag).2 prio t)) := by
    unfold ipcListSuspend
    rw [if_neg (by rw [running]; exact Bool.false_ne_true)]
    generalize rtThreadSuspendWithFlag priorityMax k t flag = result at ok
    obtain ⟨err, k₁⟩ := result
    obtain rfl : err = .ok := ok
    rfl
  rw [shape]
  dsimp only
  generalize (rtThreadSuspendWithFlag priorityMax k t flag).2 = k₁ at *
  have suspended : (k₁.thread t).stat.suspended = true := by rw [stat]; rfl
  obtain ⟨held, parked⟩ := (settled'.toHeld.loosen unlinked (by simp [stat, Stat.started])).wait (.inl rfl) suspended aside live prio
  have priorities : ∀ u, (k₁.thread u).currentPriority = (k.thread u).currentPriority := by
    intro u
    by_cases own : u = t
    · subst own; exact priority
    · rw [only.others u own]
  have same := waitPlace_congr prio t priorities
  rw [same] at held parked ⊢
  have whole : Parked t q (waitPlace k prio t) k (k₁.rtListInsert q t (waitPlace k prio t)) := by
    refine ⟨fun u other => (parked.others u other).trans (only.others u other), fun q' aside' => ?_,
      only.rest.trans parked.rest, parked.suspended, parked.priority.trans priority,
      parked.initPriority.trans initPriority⟩
    rw [parked.queue q' aside', only.queue q aside, only.queue q' aside']
  refine ⟨rfl, ⟨held.congr fun u => without_with Nobody t u id, fun c current' => ?_⟩, whole, ?_⟩
  · rw [whole.rest.current, current] at current'
    cases current'
    have := whole.suspended
    constructor <;> intro bad <;> rw [bad] at this <;> cases this
  · rw [rtListInsert_linked unlinked]
    simpa using timer

/-- A suspended thread leaves its list and is queued anew in `q`. -/
structure Requeued (t : Tid) (q : Queue) (k k' : Sched) : Prop where
  others : ∀ u, u ≠ t → k'.thread u = k.thread u
  queue : ∀ q', q'.aside = true → k'.queue q' =
    if q' = q then insertByPriority (fun s => (k.thread s).currentPriority) t ((k.rtListRemove t).queue q)
    else (k.rtListRemove t).queue q'
  rest : SameRest k k'
  stat : (k'.thread t).stat = (k.thread t).stat
  priority : (k'.thread t).currentPriority = (k.thread t).currentPriority
  initPriority : (k'.thread t).initPriority = (k.thread t).initPriority
  timer : (k'.thread t).timer = (k.thread t).timer

theorem Settled.requeue (settled : Settled priorityMax k) (suspended : (k.thread t).stat.suspended = true)
    {q : Queue} (aside : q.aside = true) (live : q ≠ .defunct) (flag : SuspendFlag) :
    let k' := (ipcListSuspend priorityMax (k.rtListRemove t) q t true flag).2
    (ipcListSuspend priorityMax (k.rtListRemove t) q t true flag).1 = .ok ∧ Settled priorityMax k' ∧
      Requeued t q k k' := by
  have still : ((k.rtListRemove t).thread t).stat = (k.thread t).stat := by simp
  have shape : ipcListSuspend priorityMax (k.rtListRemove t) q t true flag =
      (.ok, (k.rtListRemove t).rtListInsert q t (waitPlace (k.rtListRemove t) true t)) := by
    unfold ipcListSuspend
    rw [if_pos (by rw [still]; exact suspended)]
  have priorities : ∀ u, ((k.rtListRemove t).thread u).currentPriority = (k.thread u).currentPriority := by
    intro u
    by_cases own : u = t
    · subst own; simp
    · rw [rtListRemove_other k own]
  obtain ⟨held, parked⟩ := (settled.toHeld.unlink suspended).wait (.inl rfl)
    (by rw [still]; exact suspended) aside live true
  have unlinked : ((k.rtListRemove t).thread t).tlist = none := by simp
  rw [shape]
  dsimp only
  have requeued : Requeued t q k ((k.rtListRemove t).rtListInsert q t (waitPlace (k.rtListRemove t) true t)) := by
    refine ⟨fun u other => (parked.others u other).trans (rtListRemove_other k other), fun q' aside' => ?_,
      (rtListRemove_rest k t).trans parked.rest, ?_, parked.priority.trans (by simp),
      parked.initPriority.trans (by simp), ?_⟩
    · rw [parked.queue q' aside', waitPlace_congr true t priorities]
      rfl
    · rw [rtListInsert_linked unlinked]; simp
    · rw [rtListInsert_linked unlinked]; simp
  refine ⟨rfl, ⟨held.congr fun u => without_with Nobody t u id, fun c current => ?_⟩, requeued⟩
  rw [requeued.rest.current] at current
  by_cases own : c = t
  · subst own; rw [requeued.stat]; exact settled.busy c current
  · rw [requeued.others c own]; exact settled.busy c current

/-! ## Starting and ending -/

theorem Held.mask_irrel (held : Held priorityMax k Nobody) (init : (k.thread t).stat = .init) :
    (k.thread t).tlist = none ∧ (k.thread t).timer = false := by
  have fits := held.fits t id
  have links := fits.links
  rw [init] at links
  refine ⟨links, ?_⟩
  rw [← Bool.not_eq_true]
  intro active
  have := fits.timer active
  rw [init] at this
  cases this

theorem Settled.startup (settled : Settled priorityMax k) (limit : priorityMax ≤ 256)
    (init : (k.thread t).stat = .init) :
    let k' := rtThreadStartup priorityMax k t
    Settled priorityMax k' ∧ Woken t k k' ∧ (k'.thread t).timer = false := by
  intro k'
  obtain ⟨unlinked, timer⟩ := settled.toHeld.mask_irrel init
  have other : k.current ≠ some t := fun current => (settled.busy t current).2 init
  have prepared : Settled priorityMax (k.setThread t { k.thread t with
      mask := ReadyBitmap.maskOf priorityMax (k.thread t).currentPriority
      stat := .suspend .interruptible
      yield := false }) := by
    refine ⟨settled.toHeld.adjust rfl (fun _ _ => Iff.rfl) (fun _ => ⟨?_, ?_, ?_⟩) (fun loose => loose.elim)
      (fun _ => rfl) (settled.bound t), fun c current => ?_⟩
    · simp [Stat.Links, unlinked]
    · simp
    · simp [timer]
    · have apart : c ≠ t := by rintro rfl; exact other current
      rw [setThread_thread, update_of_ne apart]
      exact settled.busy c current
  have shape : k' = (rtThreadResume priorityMax (k.setThread t { k.thread t with
      mask := ReadyBitmap.maskOf priorityMax (k.thread t).currentPriority
      stat := .suspend .interruptible
      yield := false }) t).2 := by
    simp only [k', rtThreadStartup, init, ne_eq, not_true_eq_false, if_false]
  have suspended : ((k.setThread t { k.thread t with
      mask := ReadyBitmap.maskOf priorityMax (k.thread t).currentPriority
      stat := .suspend .interruptible
      yield := false }).thread t).stat.suspended = true := by simp [Stat.suspended]
  obtain ⟨settled', woken, timer'⟩ := prepared.resume limit suspended
  rw [shape]
  refine ⟨settled', ⟨fun u apart => ?_, fun q aside => ?_, ⟨woken.rest.current, woken.rest.lockNest, woken.rest.fault⟩,
    woken.active, ?_, ?_⟩, timer'⟩
  · rw [woken.others u apart, setThread_thread, update_of_ne apart]
  · rw [woken.queue q aside]
    simp [unlinked]
  · rw [woken.priority]; simp
  · rw [woken.initPriority]; simp

/-- Thread `t` leaves its list and is closed. -/
structure Closed (t : Tid) (k k' : Sched) : Prop where
  others : ∀ u, u ≠ t → k'.thread u = k.thread u
  queue : ∀ q, q.aside = true → k'.queue q = if (k.thread t).tlist = some q then (k.queue q).erase t else k.queue q
  rest : SameRest k k'
  stat : (k'.thread t).stat = .close
  unlinked : (k'.thread t).tlist = none
  priority : (k'.thread t).currentPriority = (k.thread t).currentPriority
  initPriority : (k'.thread t).initPriority = (k.thread t).initPriority

theorem Settled.close (settled : Settled priorityMax k) (limit : priorityMax ≤ 256)
    (live : (k.thread t).stat ≠ .close) :
    Settled priorityMax (closeThread priorityMax k t) ∧ Closed t k (closeThread priorityMax k t) := by
  have effect : Held priorityMax (closeThread priorityMax k t) Nobody ∧ Closed t k (closeThread priorityMax k t) := by
    unfold closeThread
    by_cases init : (k.thread t).stat = .init
    · obtain ⟨unlinked, -⟩ := settled.toHeld.mask_irrel init
      simp only [init, if_true]
      refine ⟨settled.toHeld.adjust rfl (fun _ _ => Iff.rfl) (fun _ => ⟨?_, ?_, ?_⟩) (fun loose => loose.elim)
        (by simp [Stat.started]) ?_, ?_⟩
      · simp [Stat.Links, unlinked]
      · simp
      · simp
      · exact settled.bound t
      · exact ⟨fun u other => by simp [other], fun q _ => by simp [unlinked], ⟨rfl, rfl, rfl⟩, by simp, by simp [unlinked],
          by simp, by simp⟩
    · have started : (k.thread t).stat.started = true := by
        cases status : (k.thread t).stat <;> simp_all [Stat.started]
      have removed := settled.toHeld.remove limit started
      have rest := rtScheduleRemoveThread_rest priorityMax k t
      simp only [init, if_false]
      refine ⟨removed.adjust rfl (fun u other => by simp [With, Nobody, other]) (fun _ => ⟨?_, ?_, ?_⟩)
        (fun loose => loose.elim) (by simp [Stat.started]) ?_, ?_⟩
      · simp [Stat.Links]
      · simp
      · simp
      · simpa using settled.bound t
      · refine ⟨fun u other => by simp [other], fun q _ => ?_, ⟨rest.current, rest.lockNest, rest.fault⟩, by simp, by simp,
          by simp, by simp⟩
        rw [setThread_queue, rtScheduleRemoveThread_queue, rtListRemove_queue]
  obtain ⟨held, closed⟩ := effect
  refine ⟨⟨held, fun c current => ?_⟩, closed⟩
  rw [closed.rest.current] at current
  by_cases own : c = t
  · subst own; rw [closed.stat]; simp
  · rw [closed.others c own]; exact settled.busy c current

theorem Settled.defunct (settled : Settled priorityMax k) (closed : (k.thread t).stat = .close)
    (unlinked : (k.thread t).tlist = none) :
    let k' := rtThreadDefunctEnqueue k t
    Settled priorityMax k' ∧ k'.thread = update k.thread t { k.thread t with tlist := some .defunct } ∧
      (∀ q, q ≠ .defunct → k'.queue q = k.queue q) ∧ SameRest k k' := by
  intro k'
  have shape : k' = (k.setQueue .defunct (t :: k.queue .defunct)).setLink t (some .defunct) := rtListInsert_linked unlinked
  have thread : k'.thread = update k.thread t { k.thread t with tlist := some .defunct } := by
    rw [shape]; simp
  have queue : k'.queue = update k.queue .defunct (t :: k.queue .defunct) := by rw [shape]; rfl
  have rest : SameRest k k' := by rw [shape]; exact ⟨rfl, rfl, rfl⟩
  have others : ∀ q, q ≠ .defunct → k'.queue q = k.queue q := fun q other => by
    rw [queue, update_of_ne other]
  have held : Held priorityMax k' (Without Nobody t) := by
    refine settled.toHeld.place unlinked thread queue rfl (fun u => List.mem_cons)
      (List.nodup_cons.mpr ⟨settled.toHeld.not_mem unlinked _, settled.nodup _⟩) rest ⟨?_, ?_, ?_⟩ ?_
      (settled.bound t) ?_
    · rw [thread]
      simp [closed, Stat.Links]
    · rw [thread]
      simp [closed]
    · have timer := (settled.fits t id).timer
      rw [thread]
      simpa [closed, Stat.suspended] using timer
    · rw [closed]
      simp [Stat.started]
    · have bitmap : k'.bitmap = k.bitmap := by rw [shape]; rfl
      rw [bitmap]
      exact settled.marks.congr priorityMax fun p => by rw [others (.ready p) (by simp)]
  refine ⟨⟨held.congr fun u => by simp [Without, Nobody], fun c current => ?_⟩, thread, others, rest⟩
  rw [rest.current] at current
  rw [thread]
  by_cases own : c = t
  · subst own; simp [closed]
  · rw [update_of_ne own]; exact settled.busy c current

/-! ## Marks, timers and dispatch -/

section
variable (settled : Settled priorityMax k)
include settled

theorem Settled.mark (t : Tid) (value : Thread) (stat : value.stat = (k.thread t).stat)
    (priority : value.currentPriority = (k.thread t).currentPriority)
    (initPriority : value.initPriority = (k.thread t).initPriority) (mask : value.mask = (k.thread t).mask)
    (timer : value.timer = (k.thread t).timer) (link : value.tlist = (k.thread t).tlist) :
    Settled priorityMax (k.setThread t value) ∧ SameWaits k (k.setThread t value) := by
  have fits := settled.fits t id
  refine ⟨⟨settled.toHeld.adjust link (fun _ _ => Iff.rfl) (fun _ => ⟨?_, ?_, ?_⟩) (fun loose => loose.elim)
    (by rw [stat, mask, priority]; exact settled.masks t) (by rw [priority]; exact settled.bound t), fun c current => ?_⟩,
    sameWaits_update k t value rfl (.inl stat) priority initPriority timer (fun q _ => by rw [link]) fun q _ => rfl⟩
  · simpa [stat, priority, link] using fits.links
  · simpa [stat] using fits.running
  · simpa [stat, timer] using fits.timer
  · by_cases own : c = t
    · subst own; simpa [stat] using settled.busy c current
    · rw [setThread_thread, update_of_ne own]; exact settled.busy c current

theorem Settled.timer (t : Tid) (active : Bool)
    (suspended : active = true → (k.thread t).stat.suspended = true) : Settled priorityMax (k.setTimer t active) := by
  have fits := settled.fits t id
  refine ⟨settled.toHeld.adjust rfl (fun _ _ => Iff.rfl) (fun _ => ⟨?_, ?_, ?_⟩) (fun loose => loose.elim)
    (settled.masks t) (settled.bound t), fun c current => ?_⟩
  · simpa using fits.links
  · simpa using fits.running
  · simpa using suspended
  · by_cases own : c = t
    · subst own; simpa using settled.busy c current
    · rw [setTimer_thread, update_of_ne own]; exact settled.busy c current

theorem Settled.schedule (limit : priorityMax ≤ 256) (current : k.current = some c) :
    let k' := rtSchedule priorityMax k
    Settled priorityMax k' ∧ SameWaits k k' ∧ k'.lockNest = k.lockNest ∧ k'.fault = k.fault ∧
      (k' = k ∧ (k.lockNest ≠ 0 ∨ ∀ t, (k.thread t).stat ≠ .ready) ∨
        k.lockNest = 0 ∧ ∃ next, Scheduled k c k' next) := by
  intro k'
  obtain ⟨held, same, lockNest, fault, effect⟩ := settled.toHeld.schedule limit current (settled.busy c current).1
  refine ⟨⟨held, fun u current' => ?_⟩, same, lockNest, fault, effect⟩
  rcases effect with ⟨still, -⟩ | ⟨-, next, scheduled⟩
  · rw [show k' = k from still] at current' ⊢
    exact settled.busy u current'
  · obtain rfl : next = u := Option.some.inj (scheduled.current.symm.trans current')
    rw [show (k'.thread next).stat = .running from scheduled.running]
    simp

theorem Settled.start (limit : priorityMax ≤ 256) (current : k.current = none)
    (some : (k.thread t).stat = .ready) :
    let k' := rtSystemSchedulerStart priorityMax k
    Settled priorityMax k' ∧ SameWaits k k' ∧ k'.lockNest = k.lockNest ∧ k'.fault = k.fault ∧
      ∃ first, k'.current = Option.some first ∧ (k'.thread first).stat = .running := by
  intro k'
  have busy : k.bitmap.group ≠ 0#32 := fun zero =>
    settled.marks.group_zero priorityMax limit zero (settled.bound t)
      (List.ne_nil_of_mem (settled.toHeld.ready_mem id some))
  obtain ⟨occupied, -⟩ := settled.marks.highest priorityMax limit (fun _ => settled.toHeld.occupied) busy
  obtain ⟨first, rest, list⟩ := List.exists_cons_of_ne_nil occupied
  have member : first ∈ k.queue (.ready (k.bitmap.highest priorityMax)) := by rw [list]; exact List.mem_cons_self
  obtain ⟨-, ready, -⟩ := settled.toHeld.ready ((settled.linked _ first).mp member)
  have idle : ∀ u, (k.thread u).stat ≠ .running := fun u running => by
    have := (settled.fits u id).running running
    rw [current] at this
    cases this
  have moved := settled.toHeld.setCurrent first fun u _ => idle u
  have held := (moved.dispatch limit rfl ready).setYield first false
  have rest' := rtScheduleRemoveThread_rest priorityMax (k.setCurrent first) first
  have shape : k' = ((rtScheduleRemoveThread priorityMax (k.setCurrent first) first).setStat first .running).setYield
      first false := by simp only [k', rtSystemSchedulerStart, list]
  have thread : k'.thread = update k.thread first
      { k.thread first with tlist := none, stat := .running, yield := false } := by
    rw [shape]; simp
  have link := (settled.fits first id).links
  rw [ready] at link
  have waits : SameWaits k k' := by
    refine sameWaits_update k first _ thread (.inr ⟨by rw [ready]; rfl, rfl⟩) rfl rfl rfl (fun q aside => ?_)
      (fun q aside => ?_)
    · rw [link]
      exact iff_of_false (by simp) fun same => ready_ne_aside aside (Option.some.inj same)
    · have removed : (k.setCurrent first).rtListRemove first = (k.rtListRemove first).setCurrent first := by
        unfold Sched.rtListRemove
        rw [setCurrent_thread]
        cases (k.thread first).tlist <;> rfl
      rw [shape]
      show (rtScheduleRemoveThread priorityMax (k.setCurrent first) first).queue q = _
      rw [rtScheduleRemoveThread_queue, removed, setCurrent_queue, rtListRemove_queue, link, if_neg]
      exact fun same => ready_ne_aside aside (Option.some.inj same)
  have current' : k'.current = Option.some first := by rw [shape]; exact rest'.current
  refine ⟨⟨by rw [shape]; exact held, fun u own => ?_⟩, waits, ?_, ?_, first, current', by rw [thread]; simp⟩
  · obtain rfl : first = u := Option.some.inj (current'.symm.trans own)
    rw [thread]
    simp
  · rw [shape]; exact rest'.lockNest
  · rw [shape]; exact rest'.fault

end

end

end RtThread.Kernel
