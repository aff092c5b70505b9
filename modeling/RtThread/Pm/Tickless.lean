import RtThread.Pm.Pm

/-! The time that a tickless sleep is programmed for, against the timers that are active. -/

set_option autoImplicit false
namespace RtThread.Pm
open Timers

/-- Half the range of a tick, as `rt_timer_check` has it. -/
def tickHalf : UInt32 := rtTickMax / 2

def activeTimeouts (s : PmState) (mode : SleepMode) : List UInt32 :=
  if mode = pmSleepModeLight then s.timerList
  else if mode = pmSleepModeDeep ∨ mode = pmSleepModeStandby then
    (s.softLptimerList.filter (·.activated)).map (·.timeoutTick)
  else []

/-- The distance to a timeout: none if it is due or overdue, as `rt_timer_check` tells. -/
def ticksLeft (now timeout : UInt32) : UInt32 := if now - timeout < tickHalf then 0 else timeout - now

def Overdue (now timeout : UInt32) : Prop := now ≠ timeout ∧ now - timeout < tickHalf

def reported : List PmEvent → UInt32
  | [] => 0
  | .lptimerGetTimeout ticks :: rest => ticks + reported rest
  | _ :: rest => reported rest

def selected (c : PmConfig) (s : PmState) : SleepMode := (judged c s).pm.sleepMode

structure SleepsRight (c : PmConfig) (o : PmDrivers) (s : PmState) : Prop where
  empty : ∀ timeout, .lptimerStart timeout ∈ (pmChangeSleepMode c o s).2 → activeTimeouts s (selected c s) = [] →
    timeout = rtTickMax
  within : ∀ timeout, .lptimerStart timeout ∈ (pmChangeSleepMode c o s).2 →
    ∀ due ∈ activeTimeouts s (selected c s), timeout ≤ ticksLeft s.tick due
  tick : (pmChangeSleepMode c o s).1.tick = s.tick + reported (pmChangeSleepMode c o s).2

/-- The pass comes to `pm_lptimer_start`. -/
def Starts (c : PmConfig) (o : PmDrivers) (s : PmState) : Prop :=
  selected c s ≠ pmSleepModeNone ∧ ¬(c.enableSuspendSleepMode ∧ o.deviceSuspend (selected c s) = false) ∧
    hasTimer s.pm (selected c s) ∧
    hasTimer s.pm (pmGetSleepThresholdMode c (selected c s) (pmTimerNextTimeoutTick s (selected c s) - s.tick))

/-- Without an active timer, the tick is 0; the first hard timer is due right now, or no timer is overdue and the first
is the earliest; a low-power timer is due right now, or none is overdue, or the tick is the last before the wrap and all
are overdue by one tick. -/
def Fits (s : PmState) (mode : SleepMode) : Prop :=
  (activeTimeouts s mode = [] → s.tick = 0) ∧
    if mode = pmSleepModeLight then
      ∀ first ∈ s.timerList.head?, first = s.tick ∨
        ∀ due ∈ s.timerList, ¬Overdue s.tick due ∧ first - s.tick ≤ due - s.tick
    else
      activeTimeouts s mode = [] ∨ s.tick ∈ activeTimeouts s mode ∨ (∀ due ∈ activeTimeouts s mode, ¬Overdue s.tick due) ∨
        s.tick = rtTickMax ∧ ∀ due ∈ activeTimeouts s mode, s.tick - due = 1

/-! ## Distances -/

section distances
variable {now due : UInt32}

theorem ticksLeft_of_not_overdue (fine : ¬Overdue now due) : ticksLeft now due = due - now := by
  unfold ticksLeft
  split
  case isFalse => rfl
  case isTrue half =>
    have same : now = due := by
      by_contra other
      exact fine ⟨other, half⟩
    rw [same, UInt32.sub_self]

theorem ticksLeft_of_overdue (late : Overdue now due) : ticksLeft now due = 0 := if_pos late.2

theorem sub_eq_zero_iff : due - now = 0 ↔ due = now := by
  rw [← UInt32.toNat_inj, ← UInt32.toNat_inj, UInt32.toNat_sub]
  have boundDue := due.toNat_lt
  have boundNow := now.toNat_lt
  have zero : (0 : UInt32).toNat = 0 := rfl
  omega

/-- A programmed time lies within the distance of every timer just if it is none, or no timer is overdue and it lies
within all differences. -/
theorem le_ticksLeft_iff (timeout : UInt32) (list : List UInt32) :
    (∀ due ∈ list, timeout ≤ ticksLeft now due) ↔
      timeout = 0 ∨ ∀ due ∈ list, ¬Overdue now due ∧ timeout ≤ due - now := by
  constructor
  · intro within
    refine or_iff_not_imp_left.mpr fun some due inside => ?_
    have fine : ¬Overdue now due := by
      intro late
      have zero := within due inside
      rw [ticksLeft_of_overdue late] at zero
      exact some (UInt32.le_antisymm zero UInt32.zero_le)
    exact ⟨fine, ticksLeft_of_not_overdue fine ▸ within due inside⟩
  · rintro (zero | fine) due inside
    · rw [zero]
      exact UInt32.zero_le
    · rw [ticksLeft_of_not_overdue (fine due inside).1]
      exact (fine due inside).2

end distances

/-! ## The timeout that is asked for -/

/-- What the loop over the low-power timers has found, of the active timeouts `seen`. -/
structure Nearest (now : UInt32) (seen : List UInt32) (minTick timeoutTick : UInt32) : Prop where
  least : ∀ due ∈ seen, minTick ≤ due - now
  found : minTick = rtTickMax ∧ timeoutTick = rtTickMax ∨
    minTick < rtTickMax ∧ timeoutTick ∈ seen ∧ minTick = timeoutTick - now

theorem lptimerLoop_nearest {now minTick timeoutTick : UInt32} {seen : List UInt32} (list : List Lptimer)
    (nearest : Nearest now seen minTick timeoutTick) :
    ∃ least, Nearest now (seen ++ (list.filter (·.activated)).map (·.timeoutTick)) least
      (lptimerLoop now list minTick timeoutTick) := by
  induction list generalizing seen minTick timeoutTick with
  | nil =>
    refine ⟨minTick, ?_⟩
    rw [List.filter_nil, List.map_nil, List.append_nil]
    exact nearest
  | cons timer rest ih =>
    rw [lptimerLoop]
    cases active : timer.activated with
    | false =>
      rw [List.filter_cons_of_neg (by simp [active])]
      exact ih nearest
    | true =>
      have more := List.append_assoc seen [timer.timeoutTick] ((rest.filter (·.activated)).map (·.timeoutTick))
      rw [List.filter_cons_of_pos active, List.map_cons, ← List.singleton_append, ← more]
      dsimp only
      rw [if_pos rfl]
      split
      case isTrue less =>
        refine ih ⟨fun due inside => ?_, Or.inr ⟨?_, by simp, rfl⟩⟩
        · rcases List.mem_append.mp inside with before | last
          · exact UInt32.le_of_lt (UInt32.lt_of_lt_of_le less (nearest.least due before))
          · rw [List.mem_singleton.mp last]
            exact UInt32.le_refl _
        · rcases nearest.found with ⟨top, _⟩ | ⟨below, _⟩
          · exact top ▸ less
          · exact UInt32.lt_trans less below
      case isFalse notLess =>
        refine ih ⟨fun due inside => ?_, ?_⟩
        · rcases List.mem_append.mp inside with before | last
          · exact nearest.least due before
          · rw [List.mem_singleton.mp last]
            exact UInt32.not_lt.mp notLess
        · exact nearest.found.imp id fun both => ⟨both.1, List.mem_append_left _ both.2.1, both.2.2⟩

theorem rtLptimerNextTimeoutTick_nearest (now : UInt32) (list : List Lptimer) :
    ∃ minTick, Nearest now ((list.filter (·.activated)).map (·.timeoutTick)) minTick (rtLptimerNextTimeoutTick now list) :=
  lptimerLoop_nearest list ⟨fun _ none => absurd none List.not_mem_nil, Or.inl ⟨rfl, rfl⟩⟩

def Right (s : PmState) (mode : SleepMode) (timeout : UInt32) : Prop :=
  (activeTimeouts s mode = [] → timeout = rtTickMax) ∧
    ∀ due ∈ activeTimeouts s mode, timeout ≤ ticksLeft s.tick due

theorem max_sub_eq_max {now : UInt32} : rtTickMax - now = rtTickMax ↔ now = 0 := by
  rw [← UInt32.toNat_inj, ← UInt32.toNat_inj, UInt32.toNat_sub]
  have bound := now.toNat_lt
  have top : rtTickMax.toNat = 0xFFFFFFFF := rfl
  have zero : (0 : UInt32).toNat = 0 := rfl
  omega

theorem sub_eq_one_iff {now due : UInt32} : now - due = 1 ↔ due - now = rtTickMax := by
  rw [← UInt32.toNat_inj, ← UInt32.toNat_inj, UInt32.toNat_sub, UInt32.toNat_sub]
  have boundDue := due.toNat_lt
  have boundNow := now.toNat_lt
  have top : rtTickMax.toNat = 0xFFFFFFFF := rfl
  have one : (1 : UInt32).toNat = 1 := rfl
  omega

theorem overdue_of_sub_eq_one {now due : UInt32} (one : now - due = 1) : Overdue now due := by
  refine ⟨fun same => ?_, by rw [one]; decide⟩
  rw [same, UInt32.sub_self] at one
  cases one

theorem right_light (s : PmState) :
    Right s pmSleepModeLight (rtTimerNextTimeoutTick s.timerList - s.tick) ↔ Fits s pmSleepModeLight := by
  have active : activeTimeouts s pmSleepModeLight = s.timerList := if_pos rfl
  unfold Right Fits
  rw [active, if_pos rfl, le_ticksLeft_iff]
  cases s.timerList with
  | nil => simp [rtTimerNextTimeoutTick]
  | cons first rest =>
    rw [rtTimerNextTimeoutTick, sub_eq_zero_iff]
    simp

theorem right_lptimer (s : PmState) (mode : SleepMode) (notLight : mode ≠ pmSleepModeLight)
    (low : mode = pmSleepModeDeep ∨ mode = pmSleepModeStandby) :
    Right s mode (rtLptimerNextTimeoutTick s.tick s.softLptimerList - s.tick) ↔ Fits s mode := by
  have active : activeTimeouts s mode = (s.softLptimerList.filter (·.activated)).map (·.timeoutTick) := by
    rw [activeTimeouts, if_neg notLight, if_pos low]
  obtain ⟨minTick, nearest⟩ := rtLptimerNextTimeoutTick_nearest s.tick s.softLptimerList
  unfold Right Fits
  rw [if_neg notLight, le_ticksLeft_iff]
  rw [← active] at nearest
  generalize activeTimeouts s mode = list at nearest ⊢
  generalize rtLptimerNextTimeoutTick s.tick s.softLptimerList = next at nearest ⊢
  obtain ⟨least, found⟩ := nearest
  rcases found with ⟨top, isTop⟩ | ⟨below, inside, isNext⟩
  · -- no timer has been taken: all are overdue by one tick
    have late : ∀ due ∈ list, s.tick - due = 1 := by
      intro due member
      have bound := least due member
      rw [sub_eq_one_iff]
      refine UInt32.le_antisymm ?_ (top ▸ bound)
      exact UInt32.le_iff_toNat_le.mpr (Nat.le_of_lt_succ (UInt32.toNat_lt _))
    have fixed : next - s.tick = 0 ↔ s.tick = rtTickMax := by
      rw [isTop, sub_eq_zero_iff]
      exact eq_comm
    by_cases none : list = []
    · rw [none, isTop]
      simp
    · obtain ⟨due, member⟩ := List.exists_mem_of_ne_nil list none
      have notHere : s.tick ∉ list := fun here => (overdue_of_sub_eq_one (late _ here)).1 rfl
      have notFine : ¬∀ due ∈ list, ¬Overdue s.tick due := fun fine => fine due member (overdue_of_sub_eq_one (late due member))
      have notWithin : ¬∀ due ∈ list, ¬Overdue s.tick due ∧ next - s.tick ≤ due - s.tick :=
        fun within => notFine fun due member => (within due member).1
      rw [fixed]
      simp only [none, false_imp_iff, true_and, notHere, notFine, notWithin, or_false, false_or]
      exact ⟨fun top => ⟨top, late⟩, fun both => both.1⟩
  · have some : list ≠ [] := List.ne_nil_of_mem inside
    have here : next - s.tick = 0 ↔ s.tick ∈ list := by
      rw [sub_eq_zero_iff]
      constructor
      · intro same
        exact same ▸ inside
      · intro member
        have zero := least s.tick member
        rw [UInt32.sub_self, isNext] at zero
        exact sub_eq_zero_iff.mp (UInt32.le_antisymm zero UInt32.zero_le)
    have notLate : ¬(s.tick = rtTickMax ∧ ∀ due ∈ list, s.tick - due = 1) := by
      rintro ⟨_, late⟩
      rw [isNext, sub_eq_one_iff.mp (late next inside)] at below
      exact UInt32.lt_irrefl _ below
    have within : (∀ due ∈ list, ¬Overdue s.tick due ∧ next - s.tick ≤ due - s.tick) ↔ ∀ due ∈ list, ¬Overdue s.tick due :=
      ⟨fun both due member => (both due member).1, fun fine due member => ⟨fine due member, isNext ▸ least due member⟩⟩
    rw [here, within]
    simp only [some, false_imp_iff, true_and, false_or, notLate, or_false]

theorem right_iff (s : PmState) (mode : SleepMode) :
    Right s mode (pmTimerNextTimeoutTick s mode - s.tick) ↔ Fits s mode := by
  unfold pmTimerNextTimeoutTick
  split
  case isTrue light =>
    rw [light]
    exact right_light s
  case isFalse notLight =>
    split
    case isTrue low => exact right_lptimer s mode notLight low
    case isFalse noTimer =>
      have active : activeTimeouts s mode = [] := by rw [activeTimeouts, if_neg notLight, if_neg noTimer]
      unfold Right Fits
      rw [active, if_neg notLight, max_sub_eq_max]
      simp

/-! ## The pass -/

theorem tickless_start (c : PmConfig) (s : PmState) (timeout : UInt32) :
    .lptimerStart timeout ∈ (tickless c s).2 ↔
      (hasTimer s.pm s.pm.sleepMode ∧
        hasTimer s.pm (pmGetSleepThresholdMode c s.pm.sleepMode (pmTimerNextTimeoutTick s s.pm.sleepMode - s.tick))) ∧
      timeout = pmTimerNextTimeoutTick s s.pm.sleepMode - s.tick := by
  have same (t : UInt32) : (if t = rtTickMax then rtTickMax else t) = t := by
    split
    case isTrue top => exact top.symm
    case isFalse => rfl
  unfold tickless
  split
  case isFalse off => exact iff_of_false (by simp) fun both => off both.1.1
  case isTrue on =>
    dsimp only
    split
    case isFalse off => exact iff_of_false (by simp) fun both => off both.1.2
    case isTrue start => simp [same, on, start]

theorem sleepAndWake_start (o : PmDrivers) (s : PmState) (timeout : UInt32) :
    .lptimerStart timeout ∉ (sleepAndWake o s).2 := by
  unfold sleepAndWake
  dsimp only
  split
  case isFalse => simp
  case isTrue =>
    simp only [List.mem_append, List.mem_cons, List.not_mem_nil, reduceCtorEq, or_false, false_or]
    split <;> simp

/-- `pm_lptimer_start` is called once in a pass that comes to it, with the difference of the next timeout and the tick. -/
theorem lptimerStart_mem (c : PmConfig) (o : PmDrivers) (s : PmState) (timeout : UInt32) :
    .lptimerStart timeout ∈ (pmChangeSleepMode c o s).2 ↔
      Starts c o s ∧ timeout = pmTimerNextTimeoutTick s (selected c s) - s.tick := by
  have started := tickless_start c (judged c s) timeout
  change _ ↔ (hasTimer s.pm (selected c s) ∧ hasTimer s.pm (pmGetSleepThresholdMode c (selected c s)
    (pmTimerNextTimeoutTick s (selected c s) - s.tick))) ∧ timeout = pmTimerNextTimeoutTick s (selected c s) - s.tick at started
  unfold pmChangeSleepMode Starts
  dsimp only
  change PmEvent.lptimerStart timeout ∈ (if selected c s = pmSleepModeNone then _ else _ : PmState × List PmEvent).2 ↔ _
  split
  case isTrue none => exact iff_of_false (by simp) fun both => both.1.1 none
  case isFalse some =>
    split
    case isTrue fails => exact iff_of_false (by simp [suspendFailed]) fun both => both.1.2.1 fails
    case isFalse goes =>
      simp only [List.mem_append, sleepAndWake_start, started, List.mem_cons, reduceCtorEq, List.not_mem_nil, or_false,
        false_or]
      exact ⟨fun both => ⟨⟨some, goes, both.1⟩, both.2⟩, fun both => ⟨both.1.2.2, both.2⟩⟩

theorem reported_append (first rest : List PmEvent) : reported (first ++ rest) = reported first + reported rest := by
  induction first with
  | nil => rw [List.nil_append, reported, UInt32.zero_add]
  | cons event first ih =>
    cases event with
    | lptimerGetTimeout ticks => rw [List.cons_append, reported, reported, ih, UInt32.add_assoc]
    | _ => exact ih

theorem tickless_reported (c : PmConfig) (s : PmState) : reported (tickless c s).2 = 0 := by
  unfold tickless
  split
  · dsimp only
    split <;> rfl
  · rfl

theorem sleepAndWake_tick (o : PmDrivers) (s : PmState) :
    (sleepAndWake o s).1.tick = s.tick + reported (sleepAndWake o s).2 := by
  unfold sleepAndWake
  dsimp only
  split
  case isFalse => exact (UInt32.add_zero _).symm
  case isTrue =>
    by_cases none : pmLptimerGetTimeout o = 0
    · simp [none, reported]
    · simp [none, reported]

theorem pmChangeSleepMode_tick (c : PmConfig) (o : PmDrivers) (s : PmState) :
    (pmChangeSleepMode c o s).1.tick = s.tick + reported (pmChangeSleepMode c o s).2 := by
  unfold pmChangeSleepMode
  dsimp only
  split
  · exact (UInt32.add_zero _).symm
  · split
    · exact (UInt32.add_zero _).symm
    · rw [sleepAndWake_tick, reported_append, reported_append, tickless_reported]
      simp only [reported, UInt32.add_zero, UInt32.zero_add]
      rfl

theorem sleepsRight_iff (c : PmConfig) (o : PmDrivers) (s : PmState) :
    SleepsRight c o s ↔ (Starts c o s → Fits s (selected c s)) := by
  constructor
  · intro right starts
    have mem := (lptimerStart_mem c o s _).mpr ⟨starts, rfl⟩
    exact (right_iff s (selected c s)).mp ⟨right.empty _ mem, right.within _ mem⟩
  · intro fits
    refine ⟨fun timeout mem => ?_, fun timeout mem => ?_, pmChangeSleepMode_tick c o s⟩
    all_goals
      obtain ⟨starts, same⟩ := (lptimerStart_mem c o s timeout).mp mem
      have right := (right_iff s (selected c s)).mpr (fits starts)
      rw [same]
    · exact right.1
    · exact right.2

section demo

def deepState : PmState where
  pm :=
    { modes := [0, 0, 0, 0, 0, 0]
      sleepMode := 0
      moduleStatus := []
      sleepStatus := []
      timerMask := 0x18 }
  tick := 1000
  timerList := []
  softLptimerList := []

def deepConfig : PmConfig where
  initFlag := true
  defaultDeepsleep := pmSleepModeDeep
  busySleepMode := pmSleepModeIdle
  suspendSleepMode := pmSleepModeIdle
  ticklessThresholdTime := 2
  enableThresholdSleepMode := false
  enableSuspendSleepMode := false

/-- At tick 1000 the sleep without a timer is programmed for RT_TICK_MAX - 1000 ticks. -/
theorem sleepsRight_deep : ¬ ∀ c o s, SleepsRight c o s := by
  intro claimed
  have right := claimed deepConfig { deviceSuspend := fun _ => true, timerGetTick := some 5 } deepState
  have started := (lptimerStart_mem deepConfig { deviceSuspend := fun _ => true, timerGetTick := some 5 } deepState
    (rtTickMax - 1000)).mpr ⟨⟨by decide, by decide, by decide, by decide⟩, by decide⟩
  have wrong := right.empty _ started (by decide)
  exact absurd wrong (by decide)

end demo

end RtThread.Pm
