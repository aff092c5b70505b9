import RtThread.Kernel.Propagate

/-! The lists of threads that wait for mutexes, and `pending_object`.

As long as `pending_object` names the mutex a thread really waits for, the
propagation of priorities moves threads within their lists only, and keeps
each list in the order of priorities.
-/

set_option autoImplicit false

namespace RtThread.Kernel

open Sched

/-- A suspended thread's `pending_object` and its list go together. -/
structure Honest (k : System) : Prop where
  linked : ∀ t m, (k.sched.thread t).tlist = some (.mutex m) → (k.ipc t).pendingObject = some m
  pending : ∀ t m, (k.sched.thread t).stat.suspended = true → (k.ipc t).pendingObject = some m →
    (k.sched.thread t).tlist = some (.mutex m)

def SameLists (k k' : System) : Prop :=
  ∀ q : Queue, q.aside = true → (k'.sched.queue q).Perm (k.sched.queue q)

def Ordered (k : System) : Prop :=
  ∀ m, (k.waiting m).Pairwise fun s t => k.currentPriority s ≤ k.currentPriority t

theorem SameLists.refl (k : System) : SameLists k k := fun _ _ => .refl _

theorem SameLists.trans {k₁ k₂ k₃ : System} (first : SameLists k₁ k₂) (rest : SameLists k₂ k₃) : SameLists k₁ k₃ :=
  fun q aside => (rest q aside).trans (first q aside)

theorem insertByPriority_perm (priority : Tid → Nat) (t : Tid) (list : List Tid) :
    (insertByPriority priority t list).Perm (t :: list) := by
  induction list with
  | nil => exact .refl _
  | cons s rest ih =>
    unfold insertByPriority
    split
    · exact .refl _
    · exact (ih.cons s).trans (.swap t s rest)

section
variable {priorityMax : Nat} {k k' : System} {t : Tid} {m : Mid} {p : Nat}

theorem SameLists.link (same : SameLists k k') (held : Held priorityMax k.sched Nobody)
    (held' : Held priorityMax k'.sched Nobody) {q : Queue} (aside : q.aside = true) (t : Tid) :
    (k'.sched.thread t).tlist = some q ↔ (k.sched.thread t).tlist = some q := by
  rw [← held.linked, ← held'.linked]
  exact (same q aside).mem_iff

theorem Honest.of_same (honest : Honest k) (same : SameLists k k') (held : Held priorityMax k.sched Nobody)
    (held' : Held priorityMax k'.sched Nobody)
    (suspended : ∀ t, (k'.sched.thread t).stat.suspended = (k.sched.thread t).stat.suspended)
    (pending : ∀ t, (k'.ipc t).pendingObject = (k.ipc t).pendingObject) : Honest k' where
  linked t m link := by
    rw [pending]
    exact honest.linked t m ((same.link held held' rfl t).mp link)
  pending t m suspended' pending' := by
    rw [suspended] at suspended'
    rw [pending] at pending'
    exact (same.link held held' rfl t).mpr (honest.pending t m suspended' pending')

theorem Sane.waiting_suspended (sane : Sane priorityMax k) (member : t ∈ k.waiting m) :
    (k.sched.thread t).tlist = some (.mutex m) ∧ (k.sched.thread t).stat.suspended = true := by
  have link := (sane.settled.linked (.mutex m) t).mp member
  refine ⟨link, ?_⟩
  have fits := (sane.settled.fits t id).links
  rw [link] at fits
  cases status : (k.sched.thread t).stat with
  | suspend flag => rfl
  | ready | init | running => rw [status] at fits; cases fits
  | close => rw [status] at fits; cases fits _ rfl

theorem Ordered.congr_at (ordered : Ordered k) (list : k'.waiting m = k.waiting m)
    (same : ∀ s ∈ k.waiting m, k'.currentPriority s = k.currentPriority s) :
    (k'.waiting m).Pairwise fun s t => k'.currentPriority s ≤ k'.currentPriority t := by
  rw [list]
  exact (ordered m).imp_of_mem fun {a b} member member' le => by rwa [same a member, same b member']

/-! ## One thread -/

section
variable (target : Retargeted k t p m k') (sane : Sane priorityMax k) (link : (k.sched.thread t).tlist = some (.mutex m))
include target sane link

theorem Retargeted.sameLists : SameLists k k' := by
  intro q aside
  rw [target.queue q aside, rtListRemove_queue]
  by_cases here : q = .mutex m
  · subst here
    rw [if_pos rfl, if_pos link]
    exact (insertByPriority_perm _ t _).trans (List.perm_cons_erase ((sane.settled.linked _ _).mpr link)).symm
  · rw [if_neg here, if_neg (fun same => here (Option.some.inj (same.symm.trans link)))]

theorem Retargeted.ordered (ordered : Ordered k) : Ordered k' := by
  have others : ∀ u, u ≠ t → k'.currentPriority u = k.currentPriority u := fun u other => by
    rw [System.currentPriority, target.others u other]
    rfl
  intro m'
  by_cases here : m' = m
  · subst here
    show (k'.sched.queue (.mutex m')).Pairwise _
    rw [target.queue _ rfl, if_pos rfl, rtListRemove_queue, if_pos link]
    refine sorted_insertByPriority (((ordered m').sublist List.erase_sublist).imp_of_mem fun {a b} member member' le => ?_)
    have nodup := sane.settled.nodup (.mutex m')
    rw [others a (nodup.mem_erase_iff.mp member).1, others b (nodup.mem_erase_iff.mp member').1]
    exact le
  · have apart : Queue.mutex m ≠ .mutex m' := fun same => here (Queue.mutex.inj same).symm
    have list : k'.waiting m' = k.waiting m' := by
      show k'.sched.queue _ = _
      rw [target.queue _ rfl, if_neg apart.symm, rtListRemove_queue,
        if_neg (fun same => apart (Option.some.inj (link.symm.trans same)))]
      rfl
    refine ordered.congr_at list fun s member => others s ?_
    rintro rfl
    have link' := (sane.waiting_suspended member).1
    exact apart (Option.some.inj (link.symm.trans link'))

end

theorem Sane.raised_lists (sane : Sane priorityMax k) (limit : priorityMax ≤ 256) (bound : p < priorityMax) :
    SameLists k (raise priorityMax k t p) := by
  obtain ⟨-, -, only, -⟩ := sane.raised limit t bound
  intro q aside
  rw [only.queue q aside]

theorem Sane.raised_ordered (sane : Sane priorityMax k) (limit : priorityMax ≤ 256) (bound : p < priorityMax)
    (free : ∀ m, t ∉ k.waiting m) (ordered : Ordered k) : Ordered (raise priorityMax k t p) := by
  obtain ⟨-, -, only, -⟩ := sane.raised limit t bound
  intro m
  refine ordered.congr_at (only.queue (.mutex m) rfl) fun s member => ?_
  have other : s ≠ t := by rintro rfl; exact free m member
  rw [System.currentPriority, only.others s other]
  rfl

theorem Honest.free (honest : Honest k) (sane : Sane priorityMax k)
    (none : (k.sched.thread t).stat.suspended = true → (k.ipc t).pendingObject = Option.none) (m : Mid) : t ∉ k.waiting m := by
  intro member
  obtain ⟨link, suspended⟩ := sane.waiting_suspended member
  have pending := honest.linked t m link
  rw [none suspended] at pending
  cases pending

/-! ## The whole propagation -/

theorem Sane.update_lists (sane : Sane priorityMax k) (limit : priorityMax ≤ 256) (honest : Honest k)
    (bound : p < priorityMax) (fuel : Nat) (suspendFlag : SuspendFlag) :
    let k' := threadUpdatePriority priorityMax fuel k t p suspendFlag
    Honest k' ∧ SameLists k k' := by
  have keep : ∀ {k₁ k₂ : System}, Honest k₁ → SameLists k₁ k₂ → Propagated k₁ k₂ → Sane priorityMax k₁ →
      Sane priorityMax k₂ → Honest k₂ := fun honest same propagated sane sane' =>
    honest.of_same same sane.settled.toHeld sane'.settled.toHeld (fun t => by rw [propagated.stat])
      fun t => by rw [propagated.ipc]
  have step : ∀ k₁ t p m, Sane priorityMax k₁ → (Honest k₁ ∧ SameLists k k₁) → p < priorityMax →
      (k₁.sched.thread t).stat.suspended = true → (k₁.ipc t).pendingObject = some m →
      Honest (retarget priorityMax k₁ t p m suspendFlag) ∧ SameLists k (retarget priorityMax k₁ t p m suspendFlag) := by
    intro k₁ t p m sane₁ before bound suspended pending
    obtain ⟨-, sane', propagated, target⟩ := sane₁.retargeted limit suspended bound m suspendFlag
    have same := target.sameLists sane₁ (before.1.pending t m suspended pending)
    exact ⟨keep before.1 same propagated sane₁ sane', before.2.trans same⟩
  refine Sane.update_rule limit suspendFlag (fun k₁ _ _ => Honest k₁ ∧ SameLists k k₁)
    (fun k' => Honest k' ∧ SameLists k k') ?_ ?_ ?_ ?_ ?_ fuel k t p sane ⟨honest, .refl k⟩ bound
  · intro k₁ t p sane₁ before bound _
    obtain ⟨sane', propagated, -⟩ := sane₁.raised limit t bound
    have same := sane₁.raised_lists limit bound (t := t)
    exact ⟨keep before.1 same propagated sane₁ sane', before.2.trans same⟩
  · intro k₁ t p m _ sane₁ before bound suspended pending _ k' _
    exact step k₁ t p m sane₁ before bound suspended pending
  · intro k₁ t p m _ sane₁ before bound suspended pending _
    exact step k₁ t p m sane₁ before bound suspended pending
  · intro k₁ t p _ before
    exact ⟨⟨before.1.linked, before.1.pending⟩, before.2⟩
  · intro k₁ t p m sane₁ before bound suspended pending _
    have after := step k₁ t p m sane₁ before bound suspended pending
    exact ⟨⟨after.1.linked, after.1.pending⟩, after.2⟩

theorem Sane.update_ordered (sane : Sane priorityMax k) (limit : priorityMax ≤ 256) (honest : Honest k)
    (ordered : Ordered k) (bound : p < priorityMax) (fuel : Nat) (suspendFlag : SuspendFlag) :
    Ordered (threadUpdatePriority priorityMax fuel k t p suspendFlag) := by
  have step : ∀ k₁ t p m, Sane priorityMax k₁ → (Honest k₁ ∧ Ordered k₁) → p < priorityMax →
      (k₁.sched.thread t).stat.suspended = true → (k₁.ipc t).pendingObject = some m →
      Honest (retarget priorityMax k₁ t p m suspendFlag) ∧ Ordered (retarget priorityMax k₁ t p m suspendFlag) := by
    intro k₁ t p m sane₁ before bound suspended pending
    obtain ⟨-, sane', propagated, target⟩ := sane₁.retargeted limit suspended bound m suspendFlag
    have link := before.1.pending t m suspended pending
    exact ⟨before.1.of_same (target.sameLists sane₁ link) sane₁.settled.toHeld sane'.settled.toHeld
      (fun t => by rw [propagated.stat]) (fun t => by rw [propagated.ipc]), target.ordered sane₁ link before.2⟩
  refine Sane.update_rule limit suspendFlag (fun k₁ _ _ => Honest k₁ ∧ Ordered k₁) Ordered
    ?_ ?_ ?_ ?_ ?_ fuel k t p sane ⟨honest, ordered⟩ bound
  · intro k₁ t p sane₁ before bound none
    exact sane₁.raised_ordered limit bound (before.1.free sane₁ none) before.2
  · intro k₁ t p m _ sane₁ before bound suspended pending _ k' _
    exact (step k₁ t p m sane₁ before bound suspended pending).2
  · intro k₁ t p m _ sane₁ before bound suspended pending _
    exact step k₁ t p m sane₁ before bound suspended pending
  · exact fun k₁ t p _ before => before.2
  · intro k₁ t p m sane₁ before bound suspended pending _
    exact (step k₁ t p m sane₁ before bound suspended pending).2

end

/-! ## Quiet changes -/

structure Quiet (priorityMax : Nat) (k k' : System) : Prop where
  sane : Sane priorityMax k'
  propagated : Propagated k k'
  lists : Honest k → Honest k' ∧ SameLists k k'
  ordered : Honest k → Ordered k → Ordered k'

section
variable {priorityMax : Nat} {k : System} {t : Tid} {m : Mid} {p : Nat}

theorem Quiet.refl (sane : Sane priorityMax k) : Quiet priorityMax k k :=
  ⟨sane, .refl k, fun honest => ⟨honest, .refl k⟩, fun _ ordered => ordered⟩

theorem Quiet.trans {k₁ k₂ k₃ : System} (first : Quiet priorityMax k₁ k₂) (rest : Quiet priorityMax k₂ k₃) :
    Quiet priorityMax k₁ k₃ where
  sane := rest.sane
  propagated := first.propagated.trans rest.propagated
  lists honest := ⟨(rest.lists (first.lists honest).1).1, (first.lists honest).2.trans (rest.lists (first.lists honest).1).2⟩
  ordered honest ordered := rest.ordered (first.lists honest).1 (first.ordered honest ordered)

theorem Quiet.setPriority (sane : Sane priorityMax k) (m : Mid) (p : Nat) : Quiet priorityMax k (k.setPriority m p) :=
  ⟨sane.setPriority m p, propagated_setPriority k m p, fun honest => ⟨⟨honest.linked, honest.pending⟩, .refl k⟩,
    fun _ ordered => ordered⟩

theorem Quiet.orphan (sane : Sane priorityMax k) : Quiet priorityMax k (k.fail .nullOwner) :=
  ⟨sane.fail _, propagated_fail k (.inl rfl), fun honest => ⟨⟨honest.linked, honest.pending⟩, .refl k⟩,
    fun _ ordered => ordered⟩

theorem Quiet.update (sane : Sane priorityMax k) (limit : priorityMax ≤ 256) (bound : p < priorityMax) (fuel : Nat)
    (t : Tid) (suspendFlag : SuspendFlag) :
    Quiet priorityMax k (threadUpdatePriority priorityMax fuel k t p suspendFlag) := by
  obtain ⟨sane', propagated⟩ := sane.update limit bound fuel suspendFlag (t := t)
  exact ⟨sane', propagated, fun honest => sane.update_lists limit honest bound fuel suspendFlag,
    fun honest ordered => sane.update_ordered limit honest ordered bound fuel suspendFlag⟩

theorem Quiet.leave (sane : Sane priorityMax k) (limit : priorityMax ≤ 256) (fuel : Nat) (m : Mid) (t : Tid) :
    Quiet priorityMax k (leaveMutex priorityMax fuel k m t) := by
  unfold leaveMutex
  cases (k.mutex m).owner with
  | none => exact .orphan sane
  | some owner =>
    have recorded : Quiet priorityMax k (mutexUpdatePriority k m) := .setPriority sane m _
    dsimp only
    split
    · split
      · exact recorded.trans (.update recorded.sane limit (recorded.sane.owed_lt owner) fuel owner .uninterruptible)
      · exact recorded
    · exact recorded

end

end RtThread.Kernel
