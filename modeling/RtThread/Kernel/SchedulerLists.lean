import RtThread.Kernel.Scheduler

/-! What the scheduler's list operations do to threads, lists and the bitmap. -/

set_option autoImplicit false

namespace RtThread.Kernel
open Function (update)

namespace Sched

variable (k : Sched) (t : Tid)

@[simp] theorem setThread_thread (value : Thread) :
    (k.setThread t value).thread = update k.thread t value := rfl

@[simp] theorem setThread_queue (value : Thread) : (k.setThread t value).queue = k.queue := rfl

@[simp] theorem setThread_current (value : Thread) : (k.setThread t value).current = k.current := rfl

@[simp] theorem setThread_bitmap (value : Thread) : (k.setThread t value).bitmap = k.bitmap := rfl

@[simp] theorem setThread_lockNest (value : Thread) : (k.setThread t value).lockNest = k.lockNest := rfl

@[simp] theorem setThread_fault (value : Thread) : (k.setThread t value).fault = k.fault := rfl

@[simp] theorem setQueue_thread (q : Queue) (list : List Tid) : (k.setQueue q list).thread = k.thread := rfl

@[simp] theorem setLink_thread (link : Option Queue) :
    (k.setLink t link).thread = update k.thread t { k.thread t with tlist := link } := rfl

@[simp] theorem setCurrent_thread : (k.setCurrent t).thread = k.thread := rfl

@[simp] theorem setCurrent_queue : (k.setCurrent t).queue = k.queue := rfl

@[simp] theorem setCurrent_current : (k.setCurrent t).current = some t := rfl

@[simp] theorem setStat_thread (stat : Stat) :
    (k.setStat t stat).thread = update k.thread t { k.thread t with stat := stat } := rfl

@[simp] theorem setYield_thread (yield : Bool) :
    (k.setYield t yield).thread = update k.thread t { k.thread t with yield := yield } := rfl

@[simp] theorem setTimer_thread (active : Bool) :
    (k.setTimer t active).thread = update k.thread t { k.thread t with timer := active } := rfl

@[simp] theorem rtListRemove_thread :
    (k.rtListRemove t).thread = update k.thread t { k.thread t with tlist := none } := by
  unfold rtListRemove
  split
  case h_1 unlinked => rw [← unlinked]; exact (Function.update_eq_self t k.thread).symm
  case h_2 => rfl

theorem rtListRemove_queue (q : Queue) :
    (k.rtListRemove t).queue q =
      if (k.thread t).tlist = some q then (k.queue q).erase t else k.queue q := by
  unfold rtListRemove
  split
  case h_1 unlinked => simp [unlinked]
  case h_2 other linked =>
    rw [linked]
    by_cases same : q = other
    · subst same; simp [setLink, setThread, setQueue]
    · have apart : some other ≠ some q := fun eq => same (Option.some.inj eq).symm
      simp [setLink, setThread, setQueue, Function.update_of_ne same, apart]

structure SameRest (k k' : Sched) : Prop where
  current : k'.current = k.current
  lockNest : k'.lockNest = k.lockNest
  fault : k'.fault = k.fault

theorem SameRest.refl : SameRest k k := ⟨rfl, rfl, rfl⟩

variable {k} in
theorem SameRest.trans {k₂ k₃ : Sched} (first : SameRest k k₂) (rest : SameRest k₂ k₃) : SameRest k k₃ :=
  ⟨rest.current.trans first.current, rest.lockNest.trans first.lockNest, rest.fault.trans first.fault⟩

theorem rtListRemove_rest : SameRest k (k.rtListRemove t) := by
  unfold rtListRemove
  split <;> exact ⟨rfl, rfl, rfl⟩

theorem rtListRemove_bitmap : (k.rtListRemove t).bitmap = k.bitmap := by
  unfold rtListRemove
  split <;> rfl

variable {k t} in
theorem rtListInsert_linked {q : Queue} {place : List Tid → List Tid} (unlinked : (k.thread t).tlist = none) :
    k.rtListInsert q t place = (k.setQueue q (place (k.queue q))).setLink t (some q) := by
  simp [rtListInsert, unlinked]

end Sched

open Sched

section
variable (priorityMax : Nat) (k : Sched) (t : Tid)

@[simp] theorem rtScheduleRemoveThread_thread : (rtScheduleRemoveThread priorityMax k t).thread =
    update k.thread t { k.thread t with tlist := none } := by
  unfold rtScheduleRemoveThread
  dsimp only
  split <;> exact rtListRemove_thread k t

theorem rtScheduleRemoveThread_queue :
    (rtScheduleRemoveThread priorityMax k t).queue = (k.rtListRemove t).queue := by
  unfold rtScheduleRemoveThread
  dsimp only
  split <;> rfl

theorem rtScheduleRemoveThread_rest : SameRest k (rtScheduleRemoveThread priorityMax k t) := by
  have same := rtListRemove_rest k t
  unfold rtScheduleRemoveThread
  dsimp only
  split <;> exact ⟨same.current, same.lockNest, same.fault⟩

theorem rtScheduleRemoveThread_bitmap : (rtScheduleRemoveThread priorityMax k t).bitmap =
    if (k.rtListRemove t).queue (.ready (k.thread t).currentPriority) = [] then
      k.bitmap.clear priorityMax (k.thread t).mask else k.bitmap := by
  unfold rtScheduleRemoveThread
  simp only [rtListRemove_thread, Function.update_self, rtListRemove_bitmap]
  split
  · rfl
  · exact rtListRemove_bitmap k t

variable {k t}

/-- Where a thread that becomes ready goes: behind the others when it yields, else before them. -/
def joinReady (thread : Thread) (t : Tid) (list : List Tid) : List Tid :=
  if thread.yield then list ++ [t] else t :: list

theorem rtScheduleInsertThread_current (running : k.current = some t) :
    rtScheduleInsertThread priorityMax k t = k.setStat t .running := if_pos running

structure Inserted (k : Sched) (t : Tid) (k' : Sched) : Prop where
  thread : k'.thread = Function.update k.thread t
    { k.thread t with stat := .ready, tlist := some (.ready (k.thread t).currentPriority) }
  queue : k'.queue = Function.update k.queue (.ready (k.thread t).currentPriority)
    (joinReady (k.thread t) t (k.queue (.ready (k.thread t).currentPriority)))
  bitmap : k'.bitmap = k.bitmap.set priorityMax (k.thread t).mask
  rest : SameRest k k'

theorem rtScheduleInsertThread_other (other : k.current ≠ some t) (unlinked : (k.thread t).tlist = none) :
    Inserted priorityMax k t (rtScheduleInsertThread priorityMax k t) := by
  have still : ((k.setStat t .ready).thread t).tlist = none := by simp [unlinked]
  unfold rtScheduleInsertThread insertBack insertFront
  rw [if_neg other]
  simp only [rtListInsert_linked still]
  cases yields : (k.thread t).yield <;>
    constructor <;> simp [setStat, setThread, setQueue, setLink, joinReady, yields] <;> exact ⟨rfl, rfl, rfl⟩

theorem mem_joinReady {thread : Thread} {list : List Tid} {s : Tid} :
    s ∈ joinReady thread t list ↔ s = t ∨ s ∈ list := by
  unfold joinReady
  split <;> simp [or_comm]

theorem nodup_joinReady {thread : Thread} {list : List Tid} (nodup : list.Nodup) (fresh : t ∉ list) :
    (joinReady thread t list).Nodup := by
  unfold joinReady
  split
  · refine List.nodup_append.mpr ⟨nodup, by simp, fun s member other last => ?_⟩
    rintro rfl
    exact fresh (List.mem_singleton.mp last ▸ member)
  · exact List.nodup_cons.mpr ⟨fresh, nodup⟩

theorem mem_insertByPriority {priority : Tid → Nat} {list : List Tid} {s : Tid} :
    s ∈ insertByPriority priority t list ↔ s = t ∨ s ∈ list := by
  induction list with
  | nil => simp [insertByPriority]
  | cons a rest ih =>
    unfold insertByPriority
    split
    · simp
    · simp only [List.mem_cons, ih]
      tauto

theorem nodup_insertByPriority {priority : Tid → Nat} {list : List Tid} (nodup : list.Nodup) (fresh : t ∉ list) :
    (insertByPriority priority t list).Nodup := by
  induction list with
  | nil => simp [insertByPriority]
  | cons a rest ih =>
    obtain ⟨head, tail⟩ := List.nodup_cons.mp nodup
    rw [List.mem_cons, not_or] at fresh
    unfold insertByPriority
    split
    · exact List.nodup_cons.mpr ⟨by simpa using fresh, nodup⟩
    · refine List.nodup_cons.mpr ⟨?_, ih tail fresh.2⟩
      rw [mem_insertByPriority, not_or]
      exact ⟨fun same => fresh.1 same.symm, head⟩

theorem sorted_insertByPriority {priority : Tid → Nat} {list : List Tid}
    (sorted : list.Pairwise fun a b => priority a ≤ priority b) :
    (insertByPriority priority t list).Pairwise fun a b => priority a ≤ priority b := by
  induction list with
  | nil => simp [insertByPriority]
  | cons a rest ih =>
    obtain ⟨head, tail⟩ := List.pairwise_cons.mp sorted
    unfold insertByPriority
    split
    case isTrue before =>
      refine List.pairwise_cons.mpr ⟨fun s member => ?_, sorted⟩
      rcases List.mem_cons.mp member with rfl | member
      · exact Nat.le_of_lt before
      · exact Nat.le_trans (Nat.le_of_lt before) (head s member)
    case isFalse after =>
      refine List.pairwise_cons.mpr ⟨fun s member => ?_, ih tail⟩
      rcases mem_insertByPriority.mp member with rfl | member
      · exact Nat.le_of_not_lt after
      · exact head s member

end

end RtThread.Kernel
