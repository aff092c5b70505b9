import Mathlib.Data.List.Nodup

/-! The wait lists of an IPC object: how a thread is put on one, and the ways off it. -/

set_option autoImplicit false
namespace RtThread.Ipc

/-- Return codes and `thread->error`, without the sign. -/
inductive Err where | ok | error | timeout | full | empty | nomem | intr | inval
  deriving DecidableEq, Repr

inductive IpcFlag where | fifo | prio
  deriving DecidableEq, Repr

structure Thread where
  /-- RT_THREAD_SUSPEND_MASK in `stat` -/
  suspended : Bool
  error : Err
  /-- `thread_timer` is running -/
  timer : Bool
  currentPriority : UInt8
  deriving DecidableEq, Repr

structure Waits (Q T : Type) where
  thread : T → Thread
  list : Q → List T

section
variable {Q T : Type} [DecidableEq T]

/-- The scan of RT_IPC_FLAG_PRIO: in front of the first thread of a lower priority. -/
def ipcListInsertPrio (thread : T → Thread) (t : T) : List T → List T
  | [] => [t]
  | s :: rest =>
    if (thread t).currentPriority < (thread s).currentPriority then t :: s :: rest
    else s :: ipcListInsertPrio thread t rest

def ipcListInsert (flag : IpcFlag) (thread : T → Thread) (t : T) (list : List T) : List T :=
  match flag with
  | .fifo => list ++ [t]
  | .prio => ipcListInsertPrio thread t list

namespace Waits

def set (w : Waits Q T) (t : T) (th : Thread) : Waits Q T :=
  { w with thread := Function.update w.thread t th }

def setError (w : Waits Q T) (t : T) (e : Err) : Waits Q T :=
  w.set t { w.thread t with error := e }

/-- `rt_list_remove(&(thread->tlist))` -/
def remove (w : Waits Q T) (t : T) : Waits Q T := { w with list := fun q => (w.list q).erase t }

def startTimer (w : Waits Q T) (t : T) : Waits Q T := w.set t { w.thread t with timer := true }

end Waits

def rtThreadSuspend (w : Waits Q T) (t : T) : Waits Q T :=
  w.set t { w.thread t with suspended := true, timer := false }

/-- `rt_thread_resume` with its two locked sections run as one. -/
def rtThreadResume (w : Waits Q T) (t : T) : Waits Q T :=
  if (w.thread t).suspended then
    (w.remove t).set t { w.thread t with suspended := false, timer := false }
  else w

def threadTimeout (w : Waits Q T) (t : T) : Waits Q T :=
  (w.remove t).set t { w.thread t with suspended := false, timer := false, error := .timeout }

section
variable [DecidableEq Q]

def ipcListSuspend (w : Waits Q T) (q : Q) (t : T) (flag : IpcFlag) : Waits Q T :=
  let w := if (w.thread t).suspended then w else rtThreadSuspend w t
  { w with list := Function.update w.list q (ipcListInsert flag w.thread t (w.list q)) }

/-- The wait of a call: suspended in list `q`, with the timer running for a positive timeout. -/
def Waits.suspendFor (w : Waits Q T) (q : Q) (t : T) (flag : IpcFlag) (timeout : Int32) : Waits Q T :=
  let w := ipcListSuspend w q t flag
  if timeout > 0 then w.startTimer t else w

end

def ipcListResume (w : Waits Q T) (q : Q) : Waits Q T :=
  match w.list q with
  | [] => w
  | t :: _ => rtThreadResume (w.setError t .ok) t

/-- The loop of `_ipc_list_resume_all`; it goes round once for each thread of the list. -/
def ipcListResumeLoop (w : Waits Q T) (q : Q) : Nat → Waits Q T
  | 0 => w
  | n + 1 =>
    match w.list q with
    | [] => w
    | t :: _ => ipcListResumeLoop (rtThreadResume (w.setError t .error) t) q n

def ipcListResumeAll (w : Waits Q T) (q : Q) : Waits Q T := ipcListResumeLoop w q (w.list q).length

structure Waits.Sound (w : Waits Q T) : Prop where
  nodup : ∀ q, (w.list q).Nodup
  apart : ∀ q r t, t ∈ w.list q → t ∈ w.list r → q = r
  linked : ∀ q t, t ∈ w.list q → (w.thread t).suspended = true
  home : ∀ t, (w.thread t).suspended = true → ∃ q, t ∈ w.list q

theorem mem_ipcListInsertPrio (thread : T → Thread) (t u : T) (list : List T) :
    u ∈ ipcListInsertPrio thread t list ↔ u = t ∨ u ∈ list := by
  induction list with
  | nil => simp [ipcListInsertPrio]
  | cons s rest ih =>
    rw [ipcListInsertPrio]
    split
    · simp
    · simp only [List.mem_cons, ih]
      tauto

@[simp] theorem mem_ipcListInsert (flag : IpcFlag) (thread : T → Thread) (t u : T) (list : List T) :
    u ∈ ipcListInsert flag thread t list ↔ u = t ∨ u ∈ list := by
  cases flag with
  | fifo =>
    simp only [ipcListInsert, List.mem_append, List.mem_singleton]
    tauto
  | prio => exact mem_ipcListInsertPrio thread t u list

omit [DecidableEq T] in
theorem perm_ipcListInsertPrio (thread : T → Thread) (t : T) (list : List T) :
    (ipcListInsertPrio thread t list).Perm (t :: list) := by
  induction list with
  | nil => exact .refl _
  | cons s rest ih =>
    rw [ipcListInsertPrio]
    split
    · exact .refl _
    · exact (ih.cons s).trans (.swap t s rest)

omit [DecidableEq T] in
theorem perm_ipcListInsert (flag : IpcFlag) (thread : T → Thread) (t : T) (list : List T) :
    (ipcListInsert flag thread t list).Perm (t :: list) := by
  cases flag with
  | fifo => exact List.perm_append_singleton t list
  | prio => exact perm_ipcListInsertPrio thread t list

theorem nodup_ipcListInsertPrio (thread : T → Thread) (t : T) (list : List T) (fresh : t ∉ list)
    (nodup : list.Nodup) : (ipcListInsertPrio thread t list).Nodup := by
  induction list with
  | nil => simp [ipcListInsertPrio]
  | cons s rest ih =>
    rw [List.nodup_cons] at nodup
    have other : s ≠ t := fun same => fresh (same ▸ List.mem_cons_self)
    have fresher : t ∉ rest := fun inside => fresh (List.mem_cons_of_mem s inside)
    rw [ipcListInsertPrio]
    split
    · exact List.nodup_cons.mpr ⟨fresh, List.nodup_cons.mpr nodup⟩
    · rw [List.nodup_cons, mem_ipcListInsertPrio]
      exact ⟨fun inside => inside.elim other nodup.1, ih fresher nodup.2⟩

theorem nodup_ipcListInsert (flag : IpcFlag) (thread : T → Thread) (t : T) (list : List T)
    (fresh : t ∉ list) (nodup : list.Nodup) : (ipcListInsert flag thread t list).Nodup := by
  cases flag with
  | fifo =>
    rw [ipcListInsert, List.nodup_append]
    refine ⟨nodup, List.nodup_singleton t, ?_⟩
    intro u inside v only same
    rw [List.mem_singleton] at only
    exact fresh (only ▸ same ▸ inside)
  | prio => exact nodup_ipcListInsertPrio thread t list fresh nodup

end

section
variable {Q T : Type} [DecidableEq T] {w : Waits Q T}

@[simp] theorem Waits.set_thread (w : Waits Q T) (t : T) (th : Thread) : (w.set t th).thread t = th :=
  Function.update_self ..

theorem Waits.set_other (w : Waits Q T) (t : T) (th : Thread) {u : T} (other : u ≠ t) :
    (w.set t th).thread u = w.thread u :=
  Function.update_of_ne other ..

@[simp] theorem Waits.set_list (w : Waits Q T) (t : T) (th : Thread) : (w.set t th).list = w.list := rfl

theorem Waits.Sound.set (sound : w.Sound) (t : T) (th : Thread)
    (same : th.suspended = (w.thread t).suspended) : (w.set t th).Sound where
  nodup := sound.nodup
  apart := sound.apart
  linked q u inside := by
    by_cases own : u = t
    · subst own
      rw [Waits.set_thread, same]
      exact sound.linked q u inside
    · rw [Waits.set_other w t th own]
      exact sound.linked q u inside
  home u asleep := by
    by_cases own : u = t
    · subst own
      rw [Waits.set_thread, same] at asleep
      exact sound.home u asleep
    · rw [Waits.set_other w t th own] at asleep
      exact sound.home u asleep

theorem Waits.Sound.awaken (sound : w.Sound) (t : T) (th : Thread) (awake : th.suspended = false) :
    ((w.remove t).set t th).Sound where
  nodup q := (sound.nodup q).erase t
  apart q r u inQ inR := sound.apart q r u (List.mem_of_mem_erase inQ) (List.mem_of_mem_erase inR)
  linked q u inside := by
    have other : u ≠ t := ((sound.nodup q).mem_erase_iff.mp inside).1
    rw [Waits.set_other _ t th other]
    exact sound.linked q u (List.mem_of_mem_erase inside)
  home u asleep := by
    by_cases own : u = t
    · subst own
      rw [Waits.set_thread, awake] at asleep
      cases asleep
    · rw [Waits.set_other _ t th own] at asleep
      obtain ⟨q, inside⟩ := sound.home u asleep
      exact ⟨q, (List.mem_erase_of_ne own).mpr inside⟩

theorem Waits.Sound.timeout (sound : w.Sound) (t : T) : (threadTimeout w t).Sound :=
  sound.awaken t _ rfl

omit [DecidableEq T] in
theorem Waits.Sound.fresh (sound : w.Sound) {t : T} (awake : (w.thread t).suspended = false) (q : Q) :
    t ∉ w.list q := by
  intro inside
  have := sound.linked q t inside
  rw [awake] at this
  cases this

theorem Waits.Sound.suspend [DecidableEq Q] (sound : w.Sound) (q : Q) (t : T) (flag : IpcFlag)
    (awake : (w.thread t).suspended = false) : (ipcListSuspend w q t flag).Sound := by
  have start : ipcListSuspend w q t flag =
      { rtThreadSuspend w t with
        list := Function.update w.list q
          (ipcListInsert flag (rtThreadSuspend w t).thread t (w.list q)) } := by
    simp [ipcListSuspend, awake, rtThreadSuspend]
  have mine : ((ipcListSuspend w q t flag).thread t).suspended = true := by
    rw [start]
    simp [rtThreadSuspend]
  have others : ∀ u, u ≠ t → (ipcListSuspend w q t flag).thread u = w.thread u := by
    intro u other
    rw [start]
    exact Waits.set_other w t _ other
  have members : ∀ r u, u ∈ (ipcListSuspend w q t flag).list r ↔ u ∈ w.list r ∨ (r = q ∧ u = t) := by
    intro r u
    rw [start]
    by_cases here : r = q
    · subst here
      simp only [Function.update_self, mem_ipcListInsert]
      tauto
    · simp [here]
  constructor
  · intro r
    rw [start]
    by_cases here : r = q
    · subst here
      simp only [Function.update_self]
      exact nodup_ipcListInsert flag _ t _ (sound.fresh awake r) (sound.nodup r)
    · simp only [Function.update_of_ne here]
      exact sound.nodup r
  · intro r s u inR inS
    rw [members] at inR inS
    rcases inR with inR | ⟨atR, own⟩ <;> rcases inS with inS | ⟨atS, own'⟩
    · exact sound.apart r s u inR inS
    · exact absurd (own' ▸ inR) (sound.fresh awake r)
    · exact absurd (own ▸ inS) (sound.fresh awake s)
    · rw [atR, atS]
  · intro r u inside
    rw [members] at inside
    rcases inside with inside | ⟨_, rfl⟩
    · by_cases own : u = t
      · rw [own]
        exact mine
      · rw [others u own]
        exact sound.linked r u inside
    · exact mine
  · intro u asleep
    by_cases own : u = t
    · exact ⟨q, (members q u).mpr (Or.inr ⟨rfl, own⟩)⟩
    · rw [others u own] at asleep
      obtain ⟨r, inside⟩ := sound.home u asleep
      exact ⟨r, (members r u).mpr (Or.inl inside)⟩

section suspension
variable [DecidableEq Q]

theorem Waits.suspendFor_list (w : Waits Q T) (q : Q) {t : T} (flag : IpcFlag) (timeout : Int32)
    (awake : (w.thread t).suspended = false) :
    (w.suspendFor q t flag timeout).list =
      Function.update w.list q (ipcListInsert flag (rtThreadSuspend w t).thread t (w.list q)) := by
  have lists : (w.suspendFor q t flag timeout).list = (ipcListSuspend w q t flag).list := by
    simp only [suspendFor]
    split <;> rfl
  rw [lists]
  simp [ipcListSuspend, awake, rtThreadSuspend]

theorem Waits.mem_suspendFor_list (w : Waits Q T) (q r : Q) (t u : T) (flag : IpcFlag) (timeout : Int32) :
    u ∈ (w.suspendFor q t flag timeout).list r ↔ u ∈ w.list r ∨ (r = q ∧ u = t) := by
  have lists : (w.suspendFor q t flag timeout).list = (ipcListSuspend w q t flag).list := by
    simp only [suspendFor]
    split <;> rfl
  have same : (if (w.thread t).suspended then w else rtThreadSuspend w t).list = w.list := by
    split <;> rfl
  rw [lists, ipcListSuspend]
  simp only [same]
  by_cases here : r = q
  · subst here
    simp only [Function.update_self, mem_ipcListInsert]
    tauto
  · simp [here]

theorem Waits.suspendFor_other (w : Waits Q T) (q : Q) {t u : T} (flag : IpcFlag) (timeout : Int32)
    (other : u ≠ t) : (w.suspendFor q t flag timeout).thread u = w.thread u := by
  simp only [suspendFor, ipcListSuspend, Waits.startTimer, rtThreadSuspend]
  split <;> split <;> simp [Waits.set, other]

theorem Waits.suspendFor_asleep (w : Waits Q T) (q : Q) (t : T) (flag : IpcFlag) (timeout : Int32) :
    ((w.suspendFor q t flag timeout).thread t).suspended = true := by
  simp only [suspendFor, ipcListSuspend, Waits.startTimer, rtThreadSuspend]
  split <;> split <;> simp_all [Waits.set]

theorem Waits.suspendFor_thread (w : Waits Q T) (q : Q) {t : T} (flag : IpcFlag) (timeout : Int32)
    (awake : (w.thread t).suspended = false) :
    (w.suspendFor q t flag timeout).thread t =
      { w.thread t with suspended := true, timer := decide (timeout > 0) } := by
  by_cases positive : timeout > 0
  · simp [suspendFor, ipcListSuspend, Waits.startTimer, rtThreadSuspend, Waits.set, awake, positive]
  · simp [suspendFor, ipcListSuspend, rtThreadSuspend, Waits.set, awake, positive]

theorem Waits.Sound.suspendFor (sound : w.Sound) {t : T} (awake : (w.thread t).suspended = false) (q : Q)
    (flag : IpcFlag) (timeout : Int32) : (w.suspendFor q t flag timeout).Sound := by
  have asleep := sound.suspend q t flag awake
  simp only [Waits.suspendFor]
  split
  · exact asleep.set t _ rfl
  · exact asleep

end suspension

theorem ipcListResume_cons {q : Q} {t : T} {rest : List T} (head : w.list q = t :: rest)
    (asleep : (w.thread t).suspended = true) :
    ipcListResume w q = (w.remove t).set t
      { w.thread t with suspended := false, timer := false, error := .ok } := by
  have error : ((w.setError t .ok).thread t).suspended = true := by
    rw [Waits.setError, Waits.set_thread]
    exact asleep
  rw [ipcListResume, head]
  simp only [rtThreadResume, error, if_true]
  simp [Waits.setError, Waits.set, Waits.remove]

theorem ipcListResume_head (sound : w.Sound) {q : Q} {t : T} {rest : List T} (head : w.list q = t :: rest) :
    ipcListResume w q = (w.remove t).set t
      { w.thread t with suspended := false, timer := false, error := .ok } :=
  ipcListResume_cons head (sound.linked q t (head ▸ List.mem_cons_self))

theorem remove_head (sound : w.Sound) {q : Q} {t : T} {rest : List T} (head : w.list q = t :: rest) :
    (w.remove t).list q = rest ∧ ∀ r, r ≠ q → (w.remove t).list r = w.list r := by
  constructor
  · simp [Waits.remove, head]
  · intro r other
    apply List.erase_of_not_mem
    intro inside
    exact other (sound.apart r q t inside (head ▸ List.mem_cons_self))

theorem Waits.Sound.resumeHead (sound : w.Sound) (q : Q) : (ipcListResume w q).Sound := by
  cases head : w.list q with
  | nil => simpa [ipcListResume, head] using sound
  | cons t rest =>
    rw [ipcListResume_head sound head]
    exact sound.awaken t _ rfl

/-- What `_ipc_list_resume_all` leaves of the list `q`. -/
structure ResumedAll (w w' : Waits Q T) (q : Q) : Prop where
  sound : w'.Sound
  empty : w'.list q = []
  others : ∀ r, r ≠ q → w'.list r = w.list r
  woken : ∀ u, u ∈ w.list q →
    w'.thread u = { w.thread u with suspended := false, timer := false, error := .error }
  same : ∀ u, u ∉ w.list q → w'.thread u = w.thread u

theorem ipcListResumeLoop_resumedAll (q : Q) (n : Nat) (sound : w.Sound) (count : (w.list q).length = n) :
    ResumedAll w (ipcListResumeLoop w q n) q := by
  induction n generalizing w with
  | zero =>
    have none : w.list q = [] := List.length_eq_zero_iff.mp count
    exact ⟨sound, none, fun _ _ => rfl, fun u inside => by simp [none] at inside, fun _ _ => rfl⟩
  | succ n ih =>
    cases head : w.list q with
    | nil => simp [head] at count
    | cons t rest =>
      have asleep := sound.linked q t (head ▸ List.mem_cons_self)
      have mark : ((w.setError t .error).thread t).suspended = true := by
        rw [Waits.setError, Waits.set_thread]
        exact asleep
      -- one round takes the head off with the error of a reset
      have round : rtThreadResume (w.setError t .error) t =
          (w.remove t).set t { w.thread t with suspended := false, timer := false, error := .error } := by
        simp only [rtThreadResume, mark, if_true]
        simp [Waits.setError, Waits.set, Waits.remove]
      have loop : ipcListResumeLoop w q (n + 1) =
          ipcListResumeLoop (rtThreadResume (w.setError t .error) t) q n := by
        rw [ipcListResumeLoop, head]
      obtain ⟨own, others⟩ := remove_head sound head
      have nodup : t ∉ rest := (List.nodup_cons.mp (head ▸ sound.nodup q)).1
      rw [loop, round]
      have done := ih (w := (w.remove t).set t
          { w.thread t with suspended := false, timer := false, error := .error })
        (sound.awaken t _ rfl) (by
          rw [Waits.set_list, own]
          rw [head, List.length_cons] at count
          omega)
      constructor
      · exact done.sound
      · exact done.empty
      · intro r other
        rw [done.others r other]
        exact others r other
      · intro u inside
        rw [head, List.mem_cons] at inside
        by_cases first : u = t
        · subst first
          rw [done.same u (by rwa [Waits.set_list, own]), Waits.set_thread]
        · rw [done.woken u (by rw [Waits.set_list, own]; exact inside.resolve_left first),
            Waits.set_other _ t _ first]
          rfl
      · intro u outside
        rw [head, List.mem_cons, not_or] at outside
        rw [done.same u (by rw [Waits.set_list, own]; exact outside.2), Waits.set_other _ t _ outside.1]
        rfl

theorem ipcListResumeAll_resumedAll (sound : w.Sound) (q : Q) : ResumedAll w (ipcListResumeAll w q) q :=
  ipcListResumeLoop_resumedAll q _ sound rfl

end

def Waits.initial {Q T : Type} (priority : T → UInt8) : Waits Q T :=
  ⟨fun t => ⟨false, .ok, false, priority t⟩, fun _ => []⟩

theorem Waits.initial_sound {Q T : Type} (priority : T → UInt8) : (Waits.initial (Q := Q) priority).Sound where
  nodup _ := List.nodup_nil
  apart _ _ _ inside := by cases inside
  linked _ _ inside := by cases inside
  home _ asleep := by cases asleep

end RtThread.Ipc
