import RtThread.Ipc.Waits
import RtThread.Lib.Turns
import RtThread.Lib.Word

/-! An object with a list of waiting receivers and one of waiting senders, and the threads in its
calls: the parts that mailboxes and message queues have in common. -/

set_option autoImplicit false
namespace RtThread.Ipc
open Lib

inductive Side where
  /-- `parent.suspend_thread` -/
  | receivers
  /-- `suspend_sender_thread` -/
  | senders
  deriving DecidableEq, Repr

structure World (Obj Call T : Type) where
  obj : Obj
  waits : Waits Side T
  call : T → Call

/-- The new timeout and `tick_delta` of a thread that runs again at `tick`. -/
def recount (timeout : Int32) (tickDelta tick : UInt32) : Int32 × UInt32 :=
  if timeout > 0 then
    let tickDelta := tick - tickDelta
    let timeout := (timeout.toUInt32 - tickDelta).toInt32
    (if timeout < 0 then 0 else timeout, tickDelta)
  else (timeout, tickDelta)

section
variable {Obj Call T : Type} [DecidableEq T]

namespace World

def goto (w : World Obj Call T) (t : T) (call : Call) : World Obj Call T :=
  { w with call := Function.update w.call t call }

def resumeOne (w : World Obj Call T) (q : Side) : World Obj Call T :=
  if (w.waits.list q).isEmpty then w else { w with waits := ipcListResume w.waits q }

def suspend (w : World Obj Call T) (q : Side) (t : T) (flag : IpcFlag) (timeout : Int32) :
    World Obj Call T :=
  { w with waits := w.waits.suspendFor q t flag timeout }

variable (w : World Obj Call T)

@[simp] theorem goto_obj (t : T) (call : Call) : (w.goto t call).obj = w.obj := rfl

@[simp] theorem goto_waits (t : T) (call : Call) : (w.goto t call).waits = w.waits := rfl

@[simp] theorem goto_call (t : T) (call : Call) : (w.goto t call).call t = call :=
  Function.update_self ..

theorem goto_call_other {t u : T} (other : u ≠ t) (call : Call) : (w.goto t call).call u = w.call u :=
  Function.update_of_ne other ..

@[simp] theorem resumeOne_obj (q : Side) : (w.resumeOne q).obj = w.obj := by
  unfold resumeOne
  split <;> rfl

@[simp] theorem resumeOne_call (q : Side) : (w.resumeOne q).call = w.call := by
  unfold resumeOne
  split <;> rfl

theorem resumeOne_goto (q : Side) (t : T) (call : Call) :
    (w.resumeOne q).goto t call = (w.goto t call).resumeOne q := by
  cases nobody : (w.waits.list q).isEmpty <;> simp only [resumeOne, goto_waits, nobody] <;> rfl

@[simp] theorem suspend_call (q : Side) (t : T) (flag : IpcFlag) (timeout : Int32) :
    (w.suspend q t flag timeout).call = w.call := rfl

end World

variable (waitsIn : Call → Option Side) {w : World Obj Call T}

structure Tidy (w : World Obj Call T) : Prop where
  sound : w.waits.Sound
  calls : ∀ q t, t ∈ w.waits.list q → waitsIn (w.call t) = some q

variable {waitsIn}

theorem Tidy.goto (tidy : Tidy waitsIn w) {t : T} (awake : (w.waits.thread t).suspended = false)
    (call : Call) : Tidy waitsIn (w.goto t call) where
  sound := tidy.sound
  calls q u inside := by
    have other : u ≠ t := fun own => tidy.sound.fresh awake q (own ▸ inside)
    rw [w.goto_call_other other]
    exact tidy.calls q u inside

theorem Tidy.setError (tidy : Tidy waitsIn w) (t : T) (code : Err) :
    Tidy waitsIn { w with waits := w.waits.setError t code } where
  sound := tidy.sound.set t _ rfl
  calls := tidy.calls

omit [DecidableEq T] in
theorem Tidy.awake (tidy : Tidy waitsIn w) {t : T} (nowhere : waitsIn (w.call t) = none) :
    (w.waits.thread t).suspended = false := by
  apply eq_false_of_ne_true
  intro asleep
  obtain ⟨q, inside⟩ := tidy.sound.home t asleep
  have waits := tidy.calls q t inside
  rw [nowhere] at waits
  cases waits

section
variable (tidy : Tidy waitsIn w)
include tidy

omit [DecidableEq T] in
theorem Tidy.setObj (obj : Obj) : Tidy waitsIn { w with obj := obj } where
  sound := tidy.sound
  calls := tidy.calls

theorem Tidy.resumeOne (q : Side) : Tidy waitsIn (w.resumeOne q) := by
  unfold World.resumeOne
  split
  · exact tidy
  · cases head : w.waits.list q with
    | nil => rename_i some; simp [head] at some
    | cons h rest =>
      constructor
      · exact tidy.sound.resumeHead q
      · intro r u inside
        rw [ipcListResume_head tidy.sound head] at inside
        exact tidy.calls r u (List.mem_of_mem_erase inside)

theorem Tidy.timeout (t : T) :
    Tidy waitsIn { w with waits := threadTimeout w.waits t } where
  sound := tidy.sound.timeout t
  calls q u inside := tidy.calls q u (List.mem_of_mem_erase inside)

theorem Tidy.suspend {t : T} (awake : (w.waits.thread t).suspended = false)
    (q : Side) (flag : IpcFlag) (timeout : Int32) {call : Call} (waits : waitsIn call = some q) :
    Tidy waitsIn ((w.suspend q t flag timeout).goto t call) where
  sound := tidy.sound.suspendFor awake q flag timeout
  calls r u inside := by
    have listed := (w.waits.mem_suspendFor_list q r t u flag timeout).mp inside
    by_cases own : u = t
    · subst own
      have here : r = q := by
        rcases listed with before | ⟨here, _⟩
        · exact absurd before (tidy.sound.fresh awake r)
        · exact here
      rw [World.goto_call, here, waits]
    · rw [World.goto_call_other _ own, World.suspend_call]
      exact tidy.calls r u (listed.resolve_right fun last => own last.2)

theorem Tidy.resumeAll (obj : Obj) :
    Tidy waitsIn { w with
      obj := obj
      waits := ipcListResumeAll (ipcListResumeAll w.waits .receivers) .senders } ∧
    ∀ q, (ipcListResumeAll (ipcListResumeAll w.waits .receivers) .senders).list q = [] := by
  have first := ipcListResumeAll_resumedAll tidy.sound .receivers
  have second := ipcListResumeAll_resumedAll first.sound .senders
  have empty : ∀ q, (ipcListResumeAll (ipcListResumeAll w.waits .receivers) .senders).list q = [] := by
    intro q
    cases q with
    | receivers => rw [second.others _ (by decide), first.empty]
    | senders => exact second.empty
  refine ⟨⟨second.sound, ?_⟩, empty⟩
  intro q t inside
  have nobody : t ∈ ([] : List T) := empty q ▸ inside
  cases nobody

end

variable [Fintype T] (waitsIn)

/-- The threads that were resumed from list `q` for a unit and have not run since. -/
def World.woken (w : World Obj Call T) (q : Side) : Finset T :=
  Finset.univ.filter fun t =>
    waitsIn (w.call t) = some q ∧ (w.waits.thread t).suspended = false ∧ (w.waits.thread t).error = .ok

omit [DecidableEq T] in
theorem World.mem_woken (w : World Obj Call T) (q : Side) (t : T) :
    t ∈ w.woken waitsIn q ↔ waitsIn (w.call t) = some q ∧ (w.waits.thread t).suspended = false ∧
      (w.waits.thread t).error = .ok := by
  simp [World.woken]

def Served (units : Side → Nat) (w : World Obj Call T) : Prop :=
  ∀ q, Promised (units q) (w.waits.list q) (w.woken waitsIn q)

variable {waitsIn} {units units' : Side → Nat}

omit [DecidableEq T] in
theorem Served.of_nobody (nobody : ∀ q, w.waits.list q = []) : Served waitsIn units w :=
  fun q => Promised.of_nobody (nobody q)

section
variable (served : Served waitsIn units w)
include served

omit [DecidableEq T] in
theorem Served.fewer (obj : Obj) (fewer : ∀ q, units' q ≤ units q) :
    Served waitsIn units' { w with obj := obj } := by
  intro q
  apply (served q).change id
  have less := fewer q
  have same : World.woken waitsIn { w with obj := obj } q = w.woken waitsIn q := rfl
  rw [same]
  omega

theorem Served.leave {t : T} {call : Call} (r : Side)
    (role : ∀ q, waitsIn (w.call t) = some q → q = r)
    (reason : units' r + 1 ≤ units r ∨ units' r = 0 ∨
      (units' r ≤ units r ∧ t ∉ w.woken waitsIn r))
    (rest : ∀ q, q ≠ r → units' q ≤ units q) : Served waitsIn units' (w.goto t call) := by
  intro q
  have others : ∀ u, u ≠ t → u ∈ w.woken waitsIn q → u ∈ (w.goto t call).woken waitsIn q := by
    intro u other inside
    rw [World.mem_woken] at inside ⊢
    rw [w.goto_call_other other]
    exact inside
  by_cases here : q = r
  · subst here
    rcases reason with taken | none | ⟨fewer, asleep⟩
    · apply (served q).change id
      have lost := card_except t others
      omega
    · exact .of_none none
    · apply (served q).change id
      have all : w.woken waitsIn q ⊆ (w.goto t call).woken waitsIn q := by
        intro u inside
        exact others u (fun own => asleep (own ▸ inside)) inside
      have := Finset.card_le_card all
      omega
  · apply (served q).change id
    have all : w.woken waitsIn q ⊆ (w.goto t call).woken waitsIn q := by
      intro u inside
      refine others u ?_ inside
      rintro rfl
      exact here (role q ((w.mem_woken waitsIn q u).mp inside).1)
    have := Finset.card_le_card all
    have := rest q here
    omega

theorem Served.pass {t : T} (nowhere : waitsIn (w.call t) = none)
    (call : Call) (fewer : ∀ q, units' q ≤ units q) : Served waitsIn units' (w.goto t call) := by
  refine served.leave .receivers (fun q waits => ?_) (Or.inr (Or.inr ⟨fewer _, fun inside => ?_⟩))
    fun q _ => fewer q
  · rw [nowhere] at waits
    cases waits
  · have waits := ((w.mem_woken waitsIn _ t).mp inside).1
    rw [nowhere] at waits
    cases waits

theorem Served.give (tidy : Tidy waitsIn w) (r : Side)
    (more : units' r ≤ units r + 1) (rest : ∀ q, q ≠ r → units' q ≤ units q) :
    Served waitsIn units' (w.resumeOne r) := by
  cases head : w.waits.list r with
  | nil =>
    have same : w.resumeOne r = w := by simp [World.resumeOne, head]
    rw [same]
    intro q
    by_cases here : q = r
    · exact .of_nobody (here ▸ head)
    · apply (served q).change id
      have := rest q here
      omega
  | cons h tail =>
    have woke : (w.resumeOne r).waits = (w.waits.remove h).set h
        { w.waits.thread h with suspended := false, timer := false, error := .ok } := by
      simp only [World.resumeOne, head, List.isEmpty_cons, Bool.false_eq_true, if_false]
      exact ipcListResume_head tidy.sound head
    have asleep := tidy.sound.linked r h (head ▸ List.mem_cons_self)
    have fresh : ∀ q, h ∉ w.woken waitsIn q := by
      intro q inside
      rw [World.mem_woken, asleep] at inside
      cases inside.2.1
    have same : ∀ q u, u ∈ w.woken waitsIn q → u ∈ (w.resumeOne r).woken waitsIn q := by
      intro q u inside
      have other : u ≠ h := fun own => fresh q (own ▸ inside)
      rw [World.mem_woken] at inside ⊢
      rw [World.resumeOne_call, woke, Waits.set_other _ h _ other]
      exact inside
    intro q
    by_cases here : q = r
    · subst here
      have got : h ∈ (w.resumeOne q).woken waitsIn q := by
        rw [World.mem_woken, World.resumeOne_call, woke, Waits.set_thread]
        exact ⟨tidy.calls q h (head ▸ List.mem_cons_self), rfl, rfl⟩
      have gained := card_gain h (fresh q) got (same q)
      apply (served q).change (by simp [head])
      omega
    · have lists : (w.resumeOne r).waits.list q = w.waits.list q := by
        rw [woke, Waits.set_list]
        exact (remove_head tidy.sound head).2 q here
      rw [lists]
      apply (served q).change id
      have := Finset.card_le_card (same q)
      have := rest q here
      omega

theorem Served.suspend {t : T} {call : Call} (r : Side)
    (role : ∀ q, waitsIn (w.call t) = some q → q = r) (none : units r = 0) (flag : IpcFlag)
    (timeout : Int32) : Served waitsIn units ((w.suspend r t flag timeout).goto t call) := by
  intro q
  by_cases here : q = r
  · exact .of_none (here ▸ none)
  · have still : ((w.suspend r t flag timeout).goto t call).waits.list q ≠ [] → w.waits.list q ≠ [] := by
      intro someone nobody
      apply someone
      apply List.eq_nil_iff_forall_not_mem.mpr
      intro u inside
      rcases (w.waits.mem_suspendFor_list r q t u flag timeout).mp inside with before | ⟨own, _⟩
      · rw [nobody] at before
        cases before
      · exact here own
    apply (served q).change still
    have all : w.woken waitsIn q ⊆ ((w.suspend r t flag timeout).goto t call).woken waitsIn q := by
      intro u inside
      have other : u ≠ t := by
        rintro rfl
        exact here (role q ((w.mem_woken waitsIn q u).mp inside).1)
      have same : (w.waits.suspendFor r t flag timeout).thread u = w.waits.thread u :=
        w.waits.suspendFor_other r flag timeout other
      rw [World.mem_woken] at inside ⊢
      rw [World.goto_call_other _ other, World.goto_waits, World.suspend, same]
      exact inside
    have := Finset.card_le_card all
    omega

theorem Served.setError {t : T} (code : Err) (r : Side)
    (role : ∀ q, waitsIn (w.call t) = some q → q = r) (none : units r = 0) :
    Served waitsIn units { w with waits := w.waits.setError t code } := by
  intro q
  by_cases here : q = r
  · exact .of_none (here ▸ none)
  · apply (served q).change id
    have all : w.woken waitsIn q ⊆
        World.woken waitsIn { w with waits := w.waits.setError t code } q := by
      intro u inside
      have other : u ≠ t := by
        rintro rfl
        exact here (role q ((w.mem_woken waitsIn q u).mp inside).1)
      rw [World.mem_woken] at inside ⊢
      have same : (w.waits.setError t code).thread u = w.waits.thread u := Waits.set_other _ t _ other
      rw [same]
      exact inside
    have := Finset.card_le_card all
    omega

theorem Served.timeout {t : T}
    (asleep : (w.waits.thread t).suspended = true) :
    Served waitsIn units { w with waits := threadTimeout w.waits t } := by
  intro q
  have still : (threadTimeout w.waits t).list q ≠ [] → w.waits.list q ≠ [] := by
    intro someone nobody
    apply someone
    have erased : (threadTimeout w.waits t).list q = (w.waits.list q).erase t := rfl
    rw [erased, nobody]
    rfl
  apply (served q).change still
  have all : w.woken waitsIn q ⊆
      World.woken waitsIn { w with waits := threadTimeout w.waits t } q := by
    intro u inside
    rw [World.mem_woken] at inside ⊢
    have other : u ≠ t := by
      rintro rfl
      rw [asleep] at inside
      cases inside.2.1
    have same : (threadTimeout w.waits t).thread u = w.waits.thread u := Waits.set_other _ t _ other
    rw [same]
    exact inside
  have := Finset.card_le_card all
  omega

end

end

end RtThread.Ipc
