import RtThread.Lib.Rounds
import RtThread.Timers.SoftTimer

/-! The loops of `rt_timer_check` and `rt_soft_timer_check` at one tick, with timeout functions that leave the timers
alone: when they end. -/

set_option autoImplicit false
namespace RtThread.Timers
open Lib

structure HardTimers (I : Type) where
  time : Nat
  timer : I → Timer
  /-- `_timer_list` -/
  list : List I
  /-- a timer has one node -/
  nodup : list.Nodup

section
variable {I : Type}

def HardTimers.expired (w : HardTimers I) (t : I) : Bool :=
  rtTickGet w.time - (w.timer t).timeoutTick < rtTickMax / 2

theorem timerInsert_perm (timer : I → Timer) (n : I) (list : List I) : (timerInsert timer n list).Perm (n :: list) := by
  induction list with
  | nil => exact .refl _
  | cons t rest ih =>
    rw [timerInsert]
    split
    · exact (ih.cons t).trans (.swap n t rest)
    split
    · exact .refl _
    · exact (ih.cons t).trans (.swap n t rest)

variable [DecidableEq I]

namespace HardTimers

def remove (w : HardTimers I) (t : I) : HardTimers I := { w with list := w.list.erase t, nodup := w.nodup.erase t }

/-- RT_TIMER_FLAG_ACTIVATED is taken away. -/
def deactivate (w : HardTimers I) (t : I) : HardTimers I :=
  { w with timer := Function.update w.timer t { w.timer t with activated := false } }

def start (w : HardTimers I) (t : I) : HardTimers I :=
  let timer := Function.update w.timer t ((w.timer t).start w.time)
  { time := w.time
    timer
    list := timerInsert timer t (w.list.erase t)
    nodup := (timerInsert_perm _ _ _).nodup_iff.mpr (List.nodup_cons.mpr ⟨w.nodup.not_mem_erase, w.nodup.erase t⟩) }

/-- The same timers on `_soft_timer_list`, where `rt_soft_timer_check` begins -/
def soft (w : HardTimers I) : SoftTimers I := ⟨w.time, w.timer, w.list, none, false, .checking⟩

end HardTimers

/-- A round up to the timeout function of `t` -/
def HardTimers.expire (w : HardTimers I) (t : I) : HardTimers I :=
  if (w.timer t).periodic then w.remove t else (w.remove t).deactivate t

/-- The rest of the round behind the timeout function, which has left `t` on the temporary list -/
def HardTimers.restart (w : HardTimers I) (t : I) : HardTimers I :=
  if (w.timer t).periodic ∧ (w.timer t).activated then (w.deactivate t).start t else w

/-- One round of `rt_timer_check`; `none` at its end -/
def timerCheckRound (w : HardTimers I) : Option (HardTimers I) :=
  match w.list with
  | [] => none
  | t :: _ => if w.expired t then some ((w.expire t).restart t) else none

/-- One round of `rt_soft_timer_check` with the timeout function in its middle. -/
def softTimerCheckRound (w : SoftTimers I) : Option (SoftTimers I) :=
  let w := softTimerCheck w
  match w.stage with
  | .calling t => some (softTimerCalled w t)
  | _ => none

def Spins (w : HardTimers I) : Prop :=
  ∃ t ∈ w.list, w.expired t = true ∧ (w.timer t).periodic = true ∧ (w.timer t).activated = true ∧
    (w.timer t).initTick = 0

/-- The list is in order, and so recent that every timer can be compared with every timeout that is to come. -/
structure InOrder (w : HardTimers I) : Prop where
  good : SoftGood w.soft
  recent : ∀ t ∈ w.list, ∀ u ∈ w.list, w.time + (w.timer t).initTick.toNat < (w.timer u).due + 0x7FFFFFFF

/-! ## One round -/

variable {w w' : HardTimers I}

theorem turn_again {t : I} (periodic : (w.timer t).periodic = true) (activated : (w.timer t).activated = true) :
    (w.expire t).restart t = ((w.remove t).deactivate t).start t := by
  rw [HardTimers.expire, if_pos periodic, HardTimers.restart, if_pos ⟨periodic, activated⟩]

theorem turn_idle {t : I} (periodic : (w.timer t).periodic = true) (idle : (w.timer t).activated ≠ true) :
    (w.expire t).restart t = w.remove t := by
  rw [HardTimers.expire, if_pos periodic, HardTimers.restart, if_neg fun both => idle both.2]

attribute [local simp] HardTimers.deactivate HardTimers.remove

theorem turn_once {t : I} (once : (w.timer t).periodic ≠ true) :
    (w.expire t).restart t = (w.remove t).deactivate t := by
  rw [HardTimers.expire, if_neg once, HardTimers.restart, if_neg]
  intro both
  simp at both

theorem timerCheckRound_some (round : timerCheckRound w = some w') : ∃ t rest, w.list = t :: rest ∧ w.expired t = true ∧
    w'.time = w.time ∧ (∀ u, u ≠ t → w'.timer u = w.timer u) ∧
      (w'.list = rest ∧ ¬((w.timer t).periodic = true ∧ (w.timer t).activated = true) ∨ ((w.timer t).periodic = true ∧ (w.timer t).activated = true ∧ w'.list.Perm (t :: rest) ∧
        w'.timer t = (w.timer t).start w.time)) := by
  unfold timerCheckRound at round
  split at round
  case h_1 => cases round
  case h_2 t rest list =>
    have left : w.list.erase t = rest := by rw [list, List.erase_cons_head]
    have fresh : t ∉ rest := (List.nodup_cons.mp (list ▸ w.nodup)).1
    split at round
    case isFalse => cases round
    case isTrue due =>
      cases round
      refine ⟨t, rest, list, due, ?_⟩
      by_cases periodic : (w.timer t).periodic = true
      · by_cases activated : (w.timer t).activated = true
        · rw [turn_again periodic activated]
          refine ⟨rfl, fun u other => ?_, .inr ⟨periodic, activated, ?_, ?_⟩⟩
          · simp [HardTimers.start, other]
          · have again := timerInsert_perm (((w.remove t).deactivate t).start t).timer t ((w.list.erase t).erase t)
            rw [left, List.erase_of_not_mem fresh] at again
            simpa [HardTimers.start, left, List.erase_of_not_mem fresh] using again
          · simp [HardTimers.start, Timer.start]
        · rw [turn_idle periodic activated]
          exact ⟨rfl, fun _ _ => rfl, .inl ⟨left, fun both => activated both.2⟩⟩
      · rw [turn_once periodic]
        refine ⟨rfl, fun u other => ?_, .inl ⟨left, fun both => periodic both.1⟩⟩
        simp [other]

theorem softTimerCheck_due {t : I} {rest : List I} (list : w.list = t :: rest) (due : w.expired t = true) :
    softTimerCheck w.soft = { (w.expire t).soft with temp := some t, busy := true, stage := .calling t } := by
  have test : rtTickGet w.time - (w.timer t).timeoutTick < rtTickMax / 2 := of_decide_eq_true due
  simp only [softTimerCheck, HardTimers.soft, list, if_pos test, SoftTimers.remove]
  by_cases periodic : (w.timer t).periodic = true
  · simp [HardTimers.expire, periodic, list]
  · simp [HardTimers.expire, periodic, list]

theorem softTimerCalled_eq (w : HardTimers I) (t : I) :
    softTimerCalled { w.soft with temp := some t, busy := true, stage := .calling t } t = (w.restart t).soft := by
  unfold softTimerCalled HardTimers.restart
  by_cases again : (w.timer t).periodic = true ∧ (w.timer t).activated = true
  · simp [HardTimers.soft, again, rtTimerStart, SoftTimers.insert, SoftTimers.remove, SoftTimers.asleep, HardTimers.start]
  · simp [HardTimers.soft, again]

theorem softTimerCheckRound_eq (w : HardTimers I) :
    softTimerCheckRound w.soft = (timerCheckRound w).map HardTimers.soft := by
  unfold softTimerCheckRound timerCheckRound
  cases list : w.list with
  | nil => simp [softTimerCheck, HardTimers.soft, list]
  | cons t rest =>
    by_cases due : w.expired t = true
    · simp only [softTimerCheck_due list due, if_pos due, Option.map_some]
      exact congrArg some (softTimerCalled_eq _ t)
    · have test : ¬rtTickGet w.time - (w.timer t).timeoutTick < rtTickMax / 2 := fun less => due (decide_eq_true less)
      simp [softTimerCheck, HardTimers.soft, list, test, due]

/-! ## The end of the loop -/

omit [DecidableEq I] in
theorem rtTickGet_expired (w : HardTimers I) {t : I} {k : UInt32} (short : k < rtTickMax / 2)
    (timeout : (w.timer t).timeoutTick = rtTickGet w.time + k) : w.expired t = true ↔ k = 0 := by
  rw [HardTimers.expired, timeout, decide_eq_true_eq, UInt32.lt_iff_toNat_lt, half_toNat, ← UInt32.toNat_inj,
    UInt32.toNat_sub, UInt32.toNat_add]
  rw [UInt32.lt_iff_toNat_lt, half_toNat] at short
  have below := (rtTickGet w.time).toNat_lt
  have zero : (0 : UInt32).toNat = 0 := rfl
  omega

theorem timerCheckRound_lowers (calm : ¬Spins w) (round : timerCheckRound w = some w') :
    ¬Spins w' ∧ w'.list.countP w'.expired < w.list.countP w.expired := by
  obtain ⟨t, rest, list, due, time, others, after⟩ := timerCheckRound_some round
  have fresh : t ∉ rest := (List.nodup_cons.mp (list ▸ w.nodup)).1
  have same : ∀ u ∈ rest, w'.expired u = w.expired u := by
    intro u inside
    have other : u ≠ t := fun own => fresh (own ▸ inside)
    rw [HardTimers.expired, HardTimers.expired, time, others u other]
  have count : w.list.countP w.expired = rest.countP w.expired + 1 := by rw [list, List.countP_cons_of_pos due]
  have countRest : rest.countP w'.expired = rest.countP w.expired := List.countP_congr fun u inside => by rw [same u inside]
  have calmRest : ∀ u ∈ rest, ¬(w'.expired u = true ∧ (w'.timer u).periodic = true ∧ (w'.timer u).activated = true ∧
      (w'.timer u).initTick = 0) := by
    intro u inside spins
    have other : u ≠ t := fun own => fresh (own ▸ inside)
    rw [same u inside, others u other] at spins
    exact calm ⟨u, list ▸ List.mem_cons_of_mem t inside, spins⟩
  rcases after with ⟨gone, -⟩ | ⟨periodic, activated, perm, again⟩
  · rw [gone, countRest, count]
    refine ⟨?_, Nat.lt_succ_self _⟩
    rintro ⟨u, inside, spins⟩
    exact calmRest u (gone ▸ inside) spins
  · have later : w'.expired t = false := by
      by_contra still
      rw [Bool.not_eq_false] at still
      have timeout : (w'.timer t).timeoutTick = rtTickGet w'.time + (w.timer t).initTick := by
        rw [again, time]
        rfl
      have zero := (rtTickGet_expired w' (w.timer t).short timeout).mp still
      exact calm ⟨t, list ▸ List.mem_cons_self, due, periodic, activated, zero⟩
    rw [perm.countP_eq, List.countP_cons_of_neg (by rw [later]; exact Bool.false_ne_true), countRest, count]
    refine ⟨?_, Nat.lt_succ_self _⟩
    rintro ⟨u, inside, spins⟩
    rcases List.mem_cons.mp (perm.mem_iff.mp inside) with rfl | old
    · rw [later] at spins
      exact Bool.false_ne_true spins.1
    · exact calmRest u old spins

omit [DecidableEq I] in
theorem InOrder.expired_iff (order : InOrder w) {t : I} (inside : t ∈ w.list) :
    w.expired t = true ↔ (w.timer t).due ≤ w.time := by
  have near := order.good.near t inside
  have recent := order.recent t inside t inside
  have ticks := order.good.ticks t inside
  simp only [HardTimers.soft] at near ticks
  rw [HardTimers.expired, decide_eq_true_eq, ticks]
  exact tick_sub_lt_half (by omega) (by omega)

theorem expire_fields (w : HardTimers I) (t : I) : (w.expire t).time = w.time ∧ (w.expire t).list = w.list.erase t ∧
    ∀ u, ((w.expire t).timer u).due = (w.timer u).due ∧ ((w.expire t).timer u).initTick = (w.timer u).initTick := by
  unfold HardTimers.expire
  split
  · exact ⟨rfl, rfl, fun _ => ⟨rfl, rfl⟩⟩
  · refine ⟨rfl, rfl, fun u => ?_⟩
    by_cases own : u = t
    · subst own
      simp
    · simp [own]

theorem InOrder.round (order : InOrder w) {t : I} {rest : List I} (list : w.list = t :: rest) (due : w.expired t = true) :
    InOrder ((w.expire t).restart t) := by
  have here : t ∈ w.list := list ▸ List.mem_cons_self
  have taken : timerCheckRound w = some ((w.expire t).restart t) := by
    unfold timerCheckRound
    simp only [list, if_pos due]
  obtain ⟨_, _, list', -, time, others, after⟩ := timerCheckRound_some taken
  rw [list] at list'
  cases list'
  generalize next : (w.expire t).restart t = w' at time others after
  have checked := order.good.check rfl
  rw [softTimerCheck_due list due] at checked
  constructor
  · rw [← next, ← softTimerCalled_eq]
    refine checked.called rfl ?_
    obtain ⟨sameTime, sameList, fields⟩ := expire_fields w t
    have inTime : inTime { (w.expire t).soft with temp := some t, busy := true, stage := .calling t } t = true := by
      refine List.all_eq_true.mpr fun u inside => decide_eq_true ?_
      have left : u ∈ (w.expire t).list := List.mem_of_mem_erase inside
      have old : u ∈ w.list := List.mem_of_mem_erase (sameList ▸ left)
      have recent := order.recent t here u old
      simp only [HardTimers.soft, sameTime, fields]
      omega
    simp [softAllows, inTime]
  · have members : ∀ u ∈ w'.list, u ∈ w.list ∧ (w'.timer u).initTick = (w.timer u).initTick ∧
        (w'.timer u = w.timer u ∨ w.time ≤ (w'.timer u).due) := by
      intro u inside
      by_cases own : u = t
      · subst own
        rcases after with ⟨gone, -⟩ | ⟨-, -, -, again⟩
        · exact absurd (gone ▸ inside) (List.nodup_cons.mp (list ▸ w.nodup)).1
        · rw [again]
          exact ⟨here, rfl, .inr (Nat.le_add_right _ _)⟩
      · refine ⟨?_, by rw [others u own], .inl (others u own)⟩
        rcases after with ⟨gone, -⟩ | ⟨-, -, perm, -⟩
        · exact list ▸ List.mem_cons_of_mem t (gone ▸ inside)
        · exact list ▸ perm.mem_iff.mp inside
    intro a inA b inB
    obtain ⟨oldA, initA, -⟩ := members a inA
    obtain ⟨oldB, -, dueB⟩ := members b inB
    have short := (w.timer a).short_toNat
    rw [time, initA]
    rcases dueB with same | later
    · rw [same]
      exact order.recent a oldA b oldB
    · omega

theorem timerCheckRound_spins (order : InOrder w) (spins : Spins w) :
    ∃ w', timerCheckRound w = some w' ∧ InOrder w' ∧ Spins w' := by
  obtain ⟨z, inside, due, periodic, activated, zero⟩ := spins
  cases list : w.list with
  | nil => simp [list] at inside
  | cons t rest =>
    have here : t ∈ w.list := list ▸ List.mem_cons_self
    have first : w.expired t = true := by
      rw [order.expired_iff here]
      have passed := (order.expired_iff inside).mp due
      have sorted := order.good.sorted
      simp only [HardTimers.soft, list, List.pairwise_cons] at sorted
      rcases List.mem_cons.mp (list ▸ inside) with rfl | later
      · exact passed
      · have earlier := sorted.1 z later
        simp only [dueRank] at earlier
        omega
    have some : timerCheckRound w = some ((w.expire t).restart t) := by
      unfold timerCheckRound
      simp only [list, if_pos first]
    refine ⟨_, some, order.round list first, ?_⟩
    obtain ⟨_, _, list', -, time, others, after⟩ := timerCheckRound_some some
    rw [list] at list'
    cases list'
    generalize (w.expire t).restart t = w' at time others after
    by_cases own : z = t
    · subst own
      rcases after with ⟨-, idle⟩ | ⟨-, -, perm, again⟩
      · exact absurd ⟨periodic, activated⟩ idle
      · refine ⟨z, perm.mem_iff.mpr List.mem_cons_self, ?_, ?_, ?_, ?_⟩
        · refine (rtTickGet_expired w' (w.timer z).short ?_).mpr zero
          rw [again, time]
          rfl
        · rw [again]; exact periodic
        · rw [again]; rfl
        · rw [again]; exact zero
    · have old : z ∈ rest := (List.mem_cons.mp (list ▸ inside)).resolve_left own
      have still : z ∈ w'.list := by
        rcases after with ⟨gone, -⟩ | ⟨-, -, perm, -⟩
        · exact gone ▸ old
        · exact perm.mem_iff.mpr (List.mem_cons_of_mem t old)
      refine ⟨z, still, ?_, ?_⟩
      · rw [HardTimers.expired, time, others z own]
        exact due
      · rw [others z own]
        exact ⟨periodic, activated, zero⟩

theorem softTimerCheck_ends_iff (w : HardTimers I) : Ends timerCheckRound w ↔ Ends softTimerCheckRound w.soft := by
  refine Ends.of_related (fun w s => s = w.soft) ?_ rfl
  rintro w _ rfl
  rw [softTimerCheckRound_eq]
  cases timerCheckRound w with
  | none => exact .inl ⟨rfl, rfl⟩
  | some next => exact .inr ⟨next, next.soft, rfl, rfl, rfl⟩

/-- Both loops end where no timer of the list spins, and a list in order needs that. -/
theorem timer_checks_end (w : HardTimers I) :
    (¬Spins w → Ends timerCheckRound w ∧ Ends softTimerCheckRound w.soft) ∧
      (InOrder w → Ends timerCheckRound w ∨ Ends softTimerCheckRound w.soft → ¬Spins w) := by
  rw [← softTimerCheck_ends_iff, and_self_iff, or_self_iff]
  constructor
  · exact fun calm => Ends.of_measure (fun w => ¬Spins w) (fun _ _ calm round => timerCheckRound_lowers calm round) calm
  · intro order ends spins
    exact not_ends (fun w => InOrder w ∧ Spins w)
      (fun s both => (timerCheckRound_spins both.1 both.2).imp fun _ kept => kept) ⟨order, spins⟩ ends

end

def spinning : HardTimers Unit where
  time := 0
  timer := fun _ => (demoTimer 0 true).start 0
  list := [()]
  nodup := List.nodup_singleton ()

theorem spinning_inOrder : InOrder spinning where
  good := by
    refine ⟨spinning.nodup, ?_, ?_, List.pairwise_singleton _ _, nofun, nofun, nofun, nofun⟩
    · exact fun t _ => rfl
    · exact fun _ _ => show 0 < 0 + 0x7FFFFFFF by decide
  recent := fun _ _ _ _ => show 0 + 0 < 0 + 0x7FFFFFFF by decide

/-- `rt_timer_check` and `rt_soft_timer_check` call its timeout function again and again. -/
theorem spinning_never_ends : ¬Ends timerCheckRound spinning ∧ ¬Ends softTimerCheckRound spinning.soft := by
  have spins : Spins spinning := ⟨(), List.mem_cons_self, rfl, rfl, rfl, rfl⟩
  have never : ¬Ends timerCheckRound spinning :=
    not_ends (fun w => InOrder w ∧ Spins w)
      (fun s both => (timerCheckRound_spins both.1 both.2).imp fun _ kept => kept) ⟨spinning_inOrder, spins⟩
  exact ⟨never, fun ends => never ((softTimerCheck_ends_iff spinning).mpr ends)⟩

end RtThread.Timers
