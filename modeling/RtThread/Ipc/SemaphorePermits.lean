import RtThread.Ipc.Semaphore
import RtThread.Lib.Word
import RtThread.Lib.Permits
import RtThread.Lib.Transition

/-! A semaphore keeps count of its permits, as long as no rt_thread_resume puts a thread into the ready
queue that has begun to wait again. -/

set_option autoImplicit false
namespace RtThread.Ipc
open Lib

/-- Who goes first: with RT_IPC_FLAG_PRIO a smaller number. -/
def ipcRank (flag : IpcFlag) (priority : UInt8) : Int :=
  match flag with
  | .fifo => 0
  | .prio => -(priority.toNat : Int)

section
variable {T C : Type} [DecidableEq T] {w w' : SemWorld T C} {t : T}

def SemNote.permit : SemNote T → PermitEvent T
  | .took t => .take t
  | .waits t => .wait t
  | .tookLate t => .taken t
  | .failed t _ => .refused t
  | .released heir => .release heir
  | .withdrawn t => .leave t
  | .full | .refused _ | .quiet => .nothing

structure Counts (flag : IpcFlag) (priority : T → UInt8) (w : SemWorld T C) (p : Permits T) : Prop where
  same : w.flag = flag
  priorities : ∀ t, (w.waits.thread t).currentPriority = priority t
  value : p.value = w.value.toNat
  waiting : w.waits.list () = byRank (fun t => ipcRank flag (priority t)) p.waiting
  nodup : p.waiting.Nodup
  granted : ∀ t, p.granted t = true ↔
    w.taking t = true ∧ (w.waits.thread t).suspended = false ∧ (w.waits.thread t).error = .ok
  asleep : ∀ t, (w.waits.thread t).suspended = true →
    w.taking t = true ∧ (w.waits.thread t).error ≠ .ok
  linked : ∀ t ∈ w.waits.list (), (w.waits.thread t).suspended = true
  idle : p.waiting ≠ [] → p.value = 0

omit [DecidableEq T] in
theorem ipcListInsert_orderedInsert (flag : IpcFlag) (thread : T → Thread) (t : T) (list : List T) :
    ipcListInsert flag thread t list = list.orderedInsert
      (fun a b => ipcRank flag (thread b).currentPriority < ipcRank flag (thread a).currentPriority) t := by
  cases flag with
  | fifo =>
    have last : ∀ rest : List T, rest.orderedInsert (fun _ _ => (0 : Int) < 0) t = rest ++ [t] := by
      intro rest
      induction rest with
      | nil => rfl
      | cons s rest ih =>
        rw [List.orderedInsert_cons, if_neg (lt_irrefl 0), ih]
        rfl
    exact (last list).symm
  | prio =>
    induction list with
    | nil => rfl
    | cons s rest ih =>
      have order : (thread t).currentPriority < (thread s).currentPriority ↔
          ipcRank .prio (thread s).currentPriority < ipcRank .prio (thread t).currentPriority := by
        rw [UInt8.lt_iff_toNat_lt]
        simp only [ipcRank]
        omega
      simp only [ipcListInsert, ipcListInsertPrio] at ih ⊢
      rw [List.orderedInsert_cons, ih]
      simp only [order]

variable {flag : IpcFlag} {priority : T → UInt8} {p : Permits T}

omit [DecidableEq T] in
theorem Counts.not_granted (now : Counts flag priority w p) {t : T}
    (none : ¬(w.taking t = true ∧ (w.waits.thread t).suspended = false ∧ (w.waits.thread t).error = .ok)) :
    p.granted t = false :=
  eq_false_of_ne_true fun granted => none ((now.granted t).mp granted)

section
variable (now : Counts flag priority w p)
include now

omit [DecidableEq T] in
theorem Counts.mem_waiting (t : T) :
    t ∈ w.waits.list () ↔ t ∈ p.waiting := by
  rw [now.waiting]
  exact (byRank_perm _ p.waiting).mem_iff

theorem Counts.take (awake : (w.waits.thread t).suspended = false)
    (idle : w.taking t = false) (timeout : Int32) :
    ∃ p', p.apply (fun t => ipcRank flag (priority t)) rtSemValueMax.toNat (semTake w t timeout).2.permit =
      some p' ∧ Counts flag priority (semTake w t timeout).1 p' := by
  have none := now.not_granted (t := t) (by simp [idle])
  by_cases positive : w.value > 0
  · have some : 0 < w.value.toNat := uint16_pos.mp positive
    simp only [semTake, if_pos positive]
    refine ⟨{ p with value := p.value - 1 }, ?_, ?_⟩
    · simp only [SemNote.permit, Permits.apply, now.value, if_pos some]
    · refine { now with value := ?_, idle := fun someone => ?_ }
      · simp only [now.value, uint16_pred some]
      · have zero := now.idle someone
        simp only [zero]
  · have zero : w.value.toNat = 0 := Nat.eq_zero_of_not_pos fun some => positive (uint16_pos.mpr some)
    simp only [semTake, if_neg positive]
    by_cases now' : timeout = 0
    · rw [if_pos now']
      exact ⟨p, by simp [SemNote.permit, Permits.apply, none], now⟩
    · rw [if_neg now']
      have still : ((w.waits.setError t .intr).thread t).suspended = false := by
        simpa [Waits.setError] using awake
      have fresh : t ∉ w.waits.list () := by
        intro inside
        rw [now.linked t inside] at awake
        cases awake
      have others : ∀ u, u ≠ t →
          ((w.waits.setError t .intr).suspendFor () t w.flag timeout).thread u = w.waits.thread u := by
        intro u other
        rw [Waits.suspendFor_other _ () w.flag timeout other]
        exact Waits.set_other _ t _ other
      have own : ((w.waits.setError t .intr).suspendFor () t w.flag timeout).thread t =
          { w.waits.thread t with suspended := true, timer := decide (timeout > 0), error := .intr } := by
        rw [Waits.suspendFor_thread _ () w.flag timeout still]
        simp [Waits.setError]
      refine ⟨{ p with waiting := p.waiting ++ [t] }, ?_, ?_⟩
      · have empty : p.value = 0 := by rw [now.value, zero]
        simp only [SemNote.permit, Permits.apply, if_pos (And.intro empty none)]
      · constructor
        · exact now.same
        · intro u
          by_cases same : u = t
          · rw [same, own]
            exact now.priorities t
          · rw [others u same]
            exact now.priorities u
        · exact now.value
        · have insert : ((w.waits.setError t .intr).suspendFor () t w.flag timeout).list () =
              ipcListInsert w.flag (rtThreadSuspend (w.waits.setError t .intr) t).thread t
                (w.waits.list ()) := by
            rw [Waits.suspendFor_list _ () w.flag timeout still, Function.update_self]
            rfl
          have ranks : ∀ u, ((rtThreadSuspend (w.waits.setError t .intr) t).thread u).currentPriority =
              priority u := by
            intro u
            rw [← now.priorities u]
            by_cases same : u = t
            · subst same
              simp [rtThreadSuspend, Waits.setError]
            · simp [rtThreadSuspend, Waits.setError, Waits.set_other, same]
          rw [insert, ipcListInsert_orderedInsert, byRank_append, now.waiting, now.same]
          simp only [ranks]
        · apply List.Nodup.append now.nodup (List.nodup_singleton t)
          rw [List.disjoint_singleton]
          exact fun inside => fresh ((now.mem_waiting t).mpr inside)
        · intro u
          by_cases same : u = t
          · subst same
            rw [own]
            simp [none]
          · rw [others u same]
            simpa [same] using now.granted u
        · intro u
          by_cases same : u = t
          · subst same
            rw [own]
            simp
          · rw [others u same]
            simpa [same] using now.asleep u
        · intro u inside
          by_cases same : u = t
          · rw [same, own]
          · rw [others u same]
            rcases (Waits.mem_suspendFor_list _ () () t u w.flag timeout).mp inside with before | ⟨_, mine⟩
            · exact now.linked u before
            · exact absurd mine same
        · intro _
          rw [← zero, ← now.value]

theorem Counts.release :
    ∃ p', p.apply (fun t => ipcRank flag (priority t)) rtSemValueMax.toNat (semRelease w).2.permit =
      some p' ∧ Counts flag priority (semRelease w).1 p' := by
  cases head : w.waits.list () with
  | nil =>
    have nobody : p.waiting = [] := by
      apply List.eq_nil_iff_forall_not_mem.mpr
      intro t inside
      have listed := (now.mem_waiting t).mpr inside
      rw [head] at listed
      cases listed
    by_cases room : w.value < rtSemValueMax
    · have free : w.value.toNat < rtSemValueMax.toNat := UInt16.lt_iff_toNat_lt.mp room
      simp only [semRelease, head, if_pos room]
      refine ⟨{ p with value := p.value + 1 }, ?_, ?_⟩
      · simp [SemNote.permit, Permits.apply, nobody, now.value, free]
      · refine { now with value := ?_, idle := fun someone => absurd nobody someone }
        simp only [now.value, uint16_succ free]
    · simp only [semRelease, head, if_neg room]
      exact ⟨p, rfl, now⟩
  | cons t rest =>
    have inside : t ∈ w.waits.list () := by simp [head]
    have asleep := now.linked t inside
    have none := now.not_granted (t := t) (by simp [asleep])
    obtain ⟨found, left⟩ := byRank_first _ p.waiting (now.waiting.symm.trans head)
    have resumed := ipcListResume_cons head asleep
    have sub : (p.waiting.eraseP (foremost (fun t => ipcRank flag (priority t)) p.waiting)).Sublist p.waiting :=
      List.eraseP_sublist
    have fresh : t ∉ rest := by
      have nodup : (w.waits.list ()).Nodup := by
        rw [now.waiting]
        exact (byRank_perm _ p.waiting).nodup_iff.mpr now.nodup
      rw [head] at nodup
      exact (List.nodup_cons.mp nodup).1
    simp only [semRelease, head, resumed]
    refine ⟨{ p with
      waiting := p.waiting.eraseP (foremost (fun t => ipcRank flag (priority t)) p.waiting)
      granted := Function.update p.granted t true }, ?_, ?_⟩
    · simp [SemNote.permit, Permits.apply, found, none]
    · have list : ((w.waits.remove t).set t
          { w.waits.thread t with suspended := false, timer := false, error := .ok }).list () = rest := by
        simp [Waits.remove, head]
      constructor
      · exact now.same
      · intro u
        by_cases own : u = t
        · subst own
          rw [Waits.set_thread]
          exact now.priorities u
        · rw [Waits.set_other _ t _ own]
          exact now.priorities u
      · exact now.value
      · rw [list, left]
      · exact now.nodup.sublist sub
      · intro u
        by_cases own : u = t
        · subst own
          rw [Waits.set_thread]
          simp [(now.asleep u asleep).1]
        · rw [Waits.set_other _ t _ own]
          simpa [Waits.remove, own] using now.granted u
      · intro u sleeping
        by_cases own : u = t
        · subst own
          rw [Waits.set_thread] at sleeping
          cases sleeping
        · rw [Waits.set_other _ t _ own] at sleeping ⊢
          exact now.asleep u sleeping
      · intro u listed
        rw [list] at listed
        have other : u ≠ t := fun own => fresh (own ▸ listed)
        rw [Waits.set_other _ t _ other]
        exact now.linked u (by simp [head, listed])
      · intro _
        apply now.idle
        intro nobody
        rw [nobody] at found
        cases found

end

theorem Counts.insert (now : Counts flag priority w p) (unlinked : t ∉ w.waits.list ())
    (resume : C → ResumeStage T) :
    Counts flag priority { w with
      waits := w.waits.set t { w.waits.thread t with suspended := false }, resume := resume } p where
  same := now.same
  priorities u := by
    by_cases own : u = t
    · subst own
      rw [Waits.set_thread]
      exact now.priorities u
    · rw [Waits.set_other _ t _ own]
      exact now.priorities u
  value := now.value
  waiting := now.waiting
  nodup := now.nodup
  granted u := by
    by_cases own : u = t
    · subst own
      rw [Waits.set_thread, now.granted u]
      cases before : (w.waits.thread u).suspended with
      | false => rfl
      | true =>
        have failed := (now.asleep u before).2
        simp [failed]
    · rw [Waits.set_other _ t _ own]
      exact now.granted u
  asleep u sleeping := by
    by_cases own : u = t
    · subst own
      rw [Waits.set_thread] at sleeping
      cases sleeping
    · rw [Waits.set_other _ t _ own] at sleeping ⊢
      exact now.asleep u sleeping
  linked u inside := by
    have other : u ≠ t := fun own => unlinked (own ▸ inside)
    rw [Waits.set_other _ t _ other]
    exact now.linked u inside
  idle := now.idle

variable [DecidableEq C]

end

end RtThread.Ipc
