import RtThread.Pm.Pm
import RtThread.Lib.Throughout

/-! The requests of sleep modes and of delays that `_pm_change_sleep_mode` has to honour, over histories of calls, and the
devices it suspends and resumes. -/

set_option autoImplicit false
namespace RtThread.Pm
open Lib
open Function (update update_of_ne update_self)

/-! ## Devices -/

/-- The operations of a `struct rt_device_pm`, and whether its `suspend` returns RT_EOK. -/
structure DevicePm where
  suspend : Option (SleepMode → Bool)
  resume : Bool

/-- `_pm_device_suspend`, with the places of the devices that are suspended. -/
def devicesSuspend (mode : SleepMode) : Nat → List DevicePm → List Nat × Bool
  | _, [] => ([], true)
  | index, device :: rest =>
    match device.suspend with
    | none => devicesSuspend mode (index + 1) rest
    | some suspend =>
      if suspend mode then (index :: (devicesSuspend mode (index + 1) rest).1, (devicesSuspend mode (index + 1) rest).2)
      else ([], false)

/-- `_pm_device_resume`, as the places of the devices it resumes. -/
def devicesResume : Nat → List DevicePm → List Nat
  | _, [] => []
  | index, device :: rest =>
    if device.resume then index :: devicesResume (index + 1) rest else devicesResume (index + 1) rest

/-- Those that can be resumed are those that can be suspended in front of the one that refuses. -/
def paired (mode : SleepMode) : List DevicePm → Bool
  | [] => true
  | device :: rest =>
    match device.suspend with
    | none => !device.resume && paired mode rest
    | some suspend =>
      if suspend mode then device.resume && paired mode rest else (device :: rest).all fun other => !other.resume

theorem devicesResume_nil {devices : List DevicePm} (none : (devices.all fun device => !device.resume) = true) (index : Nat) :
    devicesResume index devices = [] := by
  induction devices generalizing index with
  | nil => rfl
  | cons device rest ih =>
    rw [List.all_cons, Bool.and_eq_true, Bool.not_eq_true'] at none
    rw [devicesResume, none.1, if_neg Bool.false_ne_true]
    exact ih none.2 _

theorem devicesResume_eq {mode : SleepMode} {devices : List DevicePm} (right : paired mode devices = true) (index : Nat)
    (failed : (devicesSuspend mode index devices).2 = false) :
    devicesResume index devices = (devicesSuspend mode index devices).1 := by
  induction devices generalizing index with
  | nil => rfl
  | cons device rest ih =>
    unfold paired at right
    unfold devicesSuspend at failed ⊢
    cases suspend : device.suspend with
    | none =>
      rw [suspend] at right failed
      rw [Bool.and_eq_true, Bool.not_eq_true'] at right
      rw [devicesResume, right.1, if_neg Bool.false_ne_true]
      exact ih right.2 _ failed
    | some suspend' =>
      rw [suspend] at right failed
      dsimp only at right failed ⊢
      by_cases accepts : suspend' mode = true
      · rw [if_pos accepts] at right failed ⊢
        rw [Bool.and_eq_true] at right
        rw [devicesResume, if_pos right.1, ih right.2 _ failed]
      · rw [if_neg accepts] at right ⊢
        exact devicesResume_nil right index

/-! ## Requests -/

/-- The bit of a module in its word of `sleep_status`. -/
def moduleBit (moduleId : Nat) : UInt32 := ⟨BitVec.twoPow 32 (moduleId % 32)⟩

namespace RtPm

def rtPmRequest (pm : RtPm) (mode : SleepMode) : RtPm :=
  if mode > pmSleepModeMax - 1 then pm
  else { pm with modes := pm.modes.modify mode fun count => if count < 255 then count + 1 else count }

def rtPmRelease (pm : RtPm) (mode : SleepMode) : RtPm :=
  if mode > pmSleepModeMax - 1 then pm
  else { pm with modes := pm.modes.modify mode fun count => if count > 0 then count - 1 else count }

/-- `rt_pm_sleep_request`; PM_MODULE_MAX_ID is the length of `module_status`. -/
def rtPmSleepRequest (pm : RtPm) (moduleId : Nat) (mode : SleepMode) : RtPm :=
  if moduleId ≥ pm.moduleStatus.length then pm
  else if mode ≥ pmSleepModeMax - 1 then pm
  else { pm with
    sleepStatus := pm.sleepStatus.modify mode (·.modify (moduleId / 32) (· ||| moduleBit moduleId)) }

def rtPmSleepRelease (pm : RtPm) (moduleId : Nat) (mode : SleepMode) : RtPm :=
  if moduleId ≥ pm.moduleStatus.length then pm
  else if mode ≥ pmSleepModeMax - 1 then pm
  else { pm with
    sleepStatus := pm.sleepStatus.modify mode (·.modify (moduleId / 32) (· &&& ~~~moduleBit moduleId)) }

def rtPmModuleDelaySleep (pm : RtPm) (moduleId : Nat) (timeout tick : UInt32) : RtPm :=
  if moduleId > pm.moduleStatus.length - 1 then pm
  else { pm with moduleStatus := pm.moduleStatus.set moduleId ⟨true, timeout, tick⟩ }

end RtPm

/-- The power manager and what has been asked of it: the requests that are not released, for each mode and, for each
module and mode, those of the module; the ticks since the start; and for each module the tick and the length of its last
delay. `wrong` notes that a failed suspend resumed others than the suspended devices. -/
structure PmWorld where
  state : PmState
  requests : SleepMode → Nat
  sleepers : Nat → SleepMode → Nat
  now : Nat
  delays : Nat → Option (Nat × UInt32)
  wrong : Bool

inductive PmAction where
  | request (mode : SleepMode)
  | release (mode : SleepMode)
  | sleepRequest (moduleId : Nat) (mode : SleepMode)
  | sleepRelease (moduleId : Nat) (mode : SleepMode)
  | delaySleep (moduleId : Nat) (timeout : UInt32)
  | tick
  | pass (devices : List DevicePm) (timerGetTick : Option UInt32)

namespace PmWorld

/-- The state behind `rt_system_pm_init`, which requests the default mode, for a number of modules. -/
def init (defaultSleep : SleepMode) (modules : Nat) (timerMask : UInt8) : PmWorld where
  state := {
    pm := {
      modes := (List.replicate pmSleepModeMax 0).set defaultSleep 1
      sleepMode := defaultSleep
      moduleStatus := List.replicate modules ⟨false, 0, 0⟩
      sleepStatus := List.replicate (pmSleepModeMax - 1) (List.replicate ((modules + 31) / 32) 0)
      timerMask := timerMask }
    tick := 0
    timerList := []
    softLptimerList := [] }
  requests mode := if mode = defaultSleep then 1 else 0
  sleepers _ _ := 0
  now := 0
  delays _ := none
  wrong := false

def withPm (w : PmWorld) (pm : RtPm) : PmWorld := { w with state := { w.state with pm := pm } }

def drivers (devices : List DevicePm) (timerGetTick : Option UInt32) : PmDrivers where
  deviceSuspend mode := (devicesSuspend mode 0 devices).2
  timerGetTick := timerGetTick

def Fails (c : PmConfig) (w : PmWorld) (devices : List DevicePm) : Prop :=
  (judged c w.state).pm.sleepMode ≠ pmSleepModeNone ∧ c.enableSuspendSleepMode = true ∧
    (devicesSuspend (judged c w.state).pm.sleepMode 0 devices).2 = false

instance (c : PmConfig) (w : PmWorld) (devices : List DevicePm) : Decidable (w.Fails c devices) := by
  unfold Fails
  infer_instance

def step (c : PmConfig) (w : PmWorld) : PmAction → Option PmWorld
  | .request mode =>
    if mode < pmSleepModeMax then
      some { w.withPm (w.state.pm.rtPmRequest mode) with
        requests := Function.update w.requests mode (w.requests mode + 1) }
    else none
  | .release mode =>
    if 0 < w.requests mode then
      some { w.withPm (w.state.pm.rtPmRelease mode) with
        requests := Function.update w.requests mode (w.requests mode - 1) }
    else none
  | .sleepRequest moduleId mode =>
    if moduleId < w.state.pm.moduleStatus.length ∧ mode < pmSleepModeMax then
      some { w.withPm (w.state.pm.rtPmSleepRequest moduleId mode) with
        sleepers := Function.update w.sleepers moduleId
          (Function.update (w.sleepers moduleId) mode (w.sleepers moduleId mode + 1)) }
    else none
  | .sleepRelease moduleId mode =>
    if 0 < w.sleepers moduleId mode then
      some { w.withPm (w.state.pm.rtPmSleepRelease moduleId mode) with
        sleepers := Function.update w.sleepers moduleId
          (Function.update (w.sleepers moduleId) mode (w.sleepers moduleId mode - 1)) }
    else none
  | .delaySleep moduleId timeout =>
    if moduleId < w.state.pm.moduleStatus.length then
      some { w.withPm (w.state.pm.rtPmModuleDelaySleep moduleId timeout w.state.tick) with
        delays := Function.update w.delays moduleId (some (w.now, timeout)) }
    else none
  | .tick => some { w with state := { w.state with tick := w.state.tick + 1 }, now := w.now + 1 }
  | .pass devices timerGetTick =>
    let next := (pmChangeSleepMode c (drivers devices timerGetTick) w.state).1
    some { w with
      state := next
      now := w.now + (next.tick - w.state.tick).toNat
      wrong := w.wrong || decide (w.Fails c devices ∧
        devicesResume 0 devices ≠ (devicesSuspend (judged c w.state).pm.sleepMode 0 devices).1) }

def Holds (w : PmWorld) (mode : SleepMode) : Prop := 0 < w.requests mode ∨ ∃ moduleId, 0 < w.sleepers moduleId mode

def Busy (w : PmWorld) : Prop :=
  ∃ moduleId start timeout, w.delays moduleId = some (start, timeout) ∧ w.now ≤ start + timeout.toNat

/-- The next pass, whatever the timers and the drivers are, sleeps no deeper than it may, and the passes so far have
resumed what they had suspended. -/
structure Sound (c : PmConfig) (w : PmWorld) : Prop where
  held : ∀ o timerList softLptimerList mode,
    .sleep mode ∈ (pmChangeSleepMode c o { w.state with timerList, softLptimerList }).2 → ∀ most, w.Holds most → mode ≤ most
  busy : ∀ o timerList softLptimerList mode,
    .sleep mode ∈ (pmChangeSleepMode c o { w.state with timerList, softLptimerList }).2 → w.Busy → mode ≤ c.busySleepMode
  resumed : w.wrong = false

/-- The counter of the mode is not used up before its requests are, a module releases its only request of the mode, and
where a suspend fails the devices are paired. -/
def Allowed (c : PmConfig) (w : PmWorld) : PmAction → Prop
  | .release mode => w.state.pm.modes[mode]? = some 1 → w.requests mode = 1
  | .sleepRelease moduleId mode => w.sleepers moduleId mode = 1
  | .pass devices _ => w.Fails c devices → paired (judged c w.state).pm.sleepMode devices = true
  | _ => True

instance (c : PmConfig) (w : PmWorld) (a : PmAction) : Decidable (w.Allowed c a) := by
  cases a <;> unfold Allowed <;> infer_instance

end PmWorld

/-! ## The mode of a pass -/

theorem lighter_eq (a b : Nat) : (if a < b then a else b) = min a b := by
  split <;> omega

theorem findIdx?_getD_le {α : Type} {l : List α} {p : α → Bool} {i : Nat} {a : α} (at' : l[i]? = some a) (yes : p a = true)
    (d : Nat) : (l.findIdx? p).getD d ≤ i := by
  cases found : l.findIdx? p with
  | none =>
    have no := List.findIdx?_eq_none_iff.mp found a (List.mem_of_getElem? at')
    rw [yes] at no
    cases no
  | some j =>
    by_contra less
    obtain ⟨_, _, earlier⟩ := List.findIdx?_eq_some_iff_getElem.mp found
    obtain ⟨inside, own⟩ := List.getElem?_eq_some_iff.mp at'
    exact earlier i (Nat.lt_of_not_le less) (own.symm ▸ yes)

def marked (status : List (List UInt32)) (moduleId : Nat) (mode : SleepMode) : Bool :=
  ((status.getD mode []).getD (moduleId / 32) 0).toBitVec.getLsbD (moduleId % 32)

theorem judgeSleepMode_le {pm : RtPm} {moduleId : Nat} {mode : SleepMode}
    (set : marked pm.sleepStatus moduleId mode = true) : judgeSleepMode pm ≤ mode := by
  unfold marked at set
  rw [List.getD_eq_getElem?_getD, List.getD_eq_getElem?_getD] at set
  cases row : pm.sleepStatus[mode]? with
  | none =>
    rw [row] at set
    simp at set
  | some words =>
    rw [row, Option.getD_some] at set
    cases place : words[moduleId / 32]? with
    | none =>
      rw [place] at set
      simp at set
    | some word =>
      rw [place, Option.getD_some] at set
      refine findIdx?_getD_le row (List.any_eq_true.mpr ⟨word, List.mem_of_getElem? place, ?_⟩) _
      refine decide_eq_true fun zero => ?_
      rw [zero] at set
      simp at set

theorem pmSelectSleepMode_le (c : PmConfig) {pm : RtPm} {mode : SleepMode}
    (held : (∃ count, pm.modes[mode]? = some count ∧ count ≠ 0) ∨ ∃ moduleId, marked pm.sleepStatus moduleId mode = true) :
    pmSelectSleepMode c pm ≤ mode := by
  unfold pmSelectSleepMode
  dsimp only
  rw [lighter_eq]
  obtain ⟨count, at', some⟩ | ⟨moduleId, set⟩ := held
  · exact (Nat.min_le_right _ _).trans (findIdx?_getD_le at' (decide_eq_true some) c.defaultDeepsleep)
  · exact (Nat.min_le_left _ _).trans (judgeSleepMode_le set)

theorem pmSelectSleepMode_lt {c : PmConfig} {pm : RtPm} (config : c.defaultDeepsleep < pmSleepModeMax)
    (size : pm.modes.length = pmSleepModeMax) : pmSelectSleepMode c pm < pmSleepModeMax := by
  unfold pmSelectSleepMode
  dsimp only
  rw [lighter_eq]
  refine (Nat.min_le_right _ _).trans_lt ?_
  cases found : pm.modes.findIdx? (· ≠ 0) with
  | none => exact config
  | some i =>
    obtain ⟨less, -⟩ := List.findIdx?_eq_some_iff_getElem.mp found
    exact size ▸ less

theorem tickless_le {c : PmConfig} {s : PmState} (some : s.pm.sleepMode ≠ pmSleepModeNone) :
    (tickless c s).1 ≤ s.pm.sleepMode := by
  have mode (timeoutTick : UInt32) : pmGetSleepThresholdMode c s.pm.sleepMode timeoutTick ≤ s.pm.sleepMode := by
    unfold pmGetSleepThresholdMode
    split
    · exact Nat.le_refl _
    split
    · exact Nat.le_refl _
    split
    · exact Nat.le_refl _
    split
    · exact Nat.one_le_iff_ne_zero.mpr some
    · exact Nat.le_refl _
  unfold tickless
  split
  · dsimp only
    split
    · exact mode _
    · exact mode _
  · exact Nat.le_refl _

theorem sleep_le {c : PmConfig} {o : PmDrivers} {s : PmState} {mode : SleepMode}
    (called : .sleep mode ∈ (pmChangeSleepMode c o s).2) : mode ≤ (judged c s).pm.sleepMode := by
  unfold pmChangeSleepMode at called
  dsimp only at called
  split at called
  next none =>
    rw [none]
    simp only [List.mem_singleton, PmEvent.sleep.injEq] at called
    exact called.le
  next some =>
    split at called
    · unfold suspendFailed at called
      simp only [List.cons_append, List.nil_append, List.mem_cons, reduceCtorEq, PmEvent.sleep.injEq, List.not_mem_nil,
        or_false, false_or] at called
      rw [called, lighter_eq]
      exact Nat.min_le_right _ _
    · have le := tickless_le (c := c) some
      have only : ∀ mode', .sleep mode' ∈ (tickless c (judged c s)).2 → False := by
        intro mode' inside
        unfold tickless at inside
        split at inside
        · dsimp only at inside
          split at inside
          · simp at inside
          · simp at inside
        · simp at inside
      rw [List.mem_append, List.mem_append] at called
      obtain (enter | tick) | sleep := called
      · simp at enter
      · exact (only _ tick).elim
      · refine le_of_eq_of_le ?_ le
        unfold sleepAndWake at sleep
        dsimp only at sleep
        split at sleep
        · split at sleep <;> simpa using sleep
        · simpa using sleep

/-! ## Delays -/

/-- A module whose delay has not run out at `tick`. -/
def Waits (tick : UInt32) (m : PmModule) : Prop := m.busyFlag = true ∧ ¬m.timeout < tick - m.startTime

theorem checkIdleLoop_waits {tick : UInt32} {modules : List PmModule} {i : Nat} {m : PmModule}
    (at' : modules[i]? = some m) (waits : Waits tick m) :
    (checkIdleLoop tick modules).1 = false ∧ (checkIdleLoop tick modules).2[i]? = some m := by
  obtain ⟨busy, left⟩ := waits
  induction modules generalizing i with
  | nil => cases at'
  | cons first rest ih =>
    cases i with
    | zero =>
      cases at'
      have own : ¬(m.busyFlag = true ∧ m.timeout < tick - m.startTime) := fun both => left both.2
      simp only [checkIdleLoop, if_neg own, if_pos busy]
      exact ⟨trivial, rfl⟩
    | succ i =>
      obtain ⟨not, kept⟩ := ih at'
      unfold checkIdleLoop
      generalize (if first.busyFlag = true ∧ first.timeout < tick - first.startTime then
        { first with busyFlag := false, timeout := 0 } else first) = first
      dsimp only
      split
      · exact ⟨rfl, at'⟩
      · exact ⟨not, kept⟩

theorem checkIdleLoop_length (tick : UInt32) (modules : List PmModule) :
    (checkIdleLoop tick modules).2.length = modules.length := by
  induction modules with
  | nil => rfl
  | cons first rest ih =>
    unfold checkIdleLoop
    generalize (if first.busyFlag = true ∧ first.timeout < tick - first.startTime then
      { first with busyFlag := false, timeout := 0 } else first) = first'
    dsimp only
    split
    · rfl
    · rw [List.length_cons, ih, List.length_cons]

theorem judged_le (c : PmConfig) (s : PmState) : (judged c s).pm.sleepMode ≤ pmSelectSleepMode c s.pm := by
  unfold judged
  dsimp only
  split
  next less => exact Nat.le_of_lt less.2
  next => exact Nat.le_refl _

theorem judged_busy {c : PmConfig} {s : PmState} (busy : (pmDeviceCheckIdle c s.tick s.pm.moduleStatus).1 = false) :
    (judged c s).pm.sleepMode ≤ c.busySleepMode := by
  unfold judged
  dsimp only
  split
  next => exact Nat.le_refl _
  next not => exact Nat.le_of_not_lt fun less => not ⟨busy, less⟩

theorem pass_pm (c : PmConfig) (o : PmDrivers) (s : PmState) :
    (pmChangeSleepMode c o s).1.pm.modes = s.pm.modes ∧ (pmChangeSleepMode c o s).1.pm.sleepStatus = s.pm.sleepStatus ∧
      (pmChangeSleepMode c o s).1.pm.moduleStatus = (pmDeviceCheckIdle c s.tick s.pm.moduleStatus).2 := by
  have sleeping (s : PmState) : (sleepAndWake o s).1.pm = s.pm := by
    unfold sleepAndWake
    dsimp only
    split
    · split <;> rfl
    · rfl
  unfold pmChangeSleepMode
  dsimp only
  split
  · exact ⟨rfl, rfl, rfl⟩
  split
  · exact ⟨rfl, rfl, rfl⟩
  · rw [sleeping]
    exact ⟨rfl, rfl, rfl⟩

/-! ## Bits -/

section bits
variable {status : List (List UInt32)} {moduleId moduleId' : Nat} {mode mode' : SleepMode}

theorem getD_modify {α : Type} (l : List α) (f : α → α) (i j : Nat) (d : α) :
    (l.modify i f).getD j d = if i = j ∧ j < l.length then f (l.getD j d) else l.getD j d := by
  rw [List.getD_eq_getElem?_getD, List.getD_eq_getElem?_getD, List.getElem?_modify]
  by_cases inside : j < l.length
  · rw [List.getElem?_eq_getElem inside]
    change (if i = j then f l[j] else l[j]) = _
    by_cases same : i = j
    · rw [if_pos same, if_pos ⟨same, inside⟩]
      rfl
    · rw [if_neg same, if_neg fun both => same both.1]
      rfl
  · rw [List.getElem?_eq_none (Nat.le_of_not_lt inside), if_neg fun both => inside both.2]
    rfl

theorem marked_modify {f : UInt32 → UInt32} (set : marked status moduleId' mode' = true)
    (kept : mode = mode' → moduleId / 32 = moduleId' / 32 → ∀ word : UInt32,
      word.toBitVec.getLsbD (moduleId' % 32) = true → (f word).toBitVec.getLsbD (moduleId' % 32) = true) :
    marked (status.modify mode (·.modify (moduleId / 32) f)) moduleId' mode' = true := by
  unfold marked at set ⊢
  rw [getD_modify]
  split
  next row =>
    rw [getD_modify]
    split
    next place => exact kept row.1 place.1 _ set
    next => exact set
  next => exact set

theorem moduleBit_getLsbD (k : Nat) : (moduleBit moduleId).toBitVec.getLsbD k = decide (moduleId % 32 = k) := by
  rw [moduleBit, BitVec.getLsbD_twoPow, decide_eq_true (Nat.mod_lt _ (by decide) : moduleId % 32 < 32), Bool.true_and]

theorem marked_request (set : marked status moduleId' mode' = true) :
    marked (status.modify mode (·.modify (moduleId / 32) (· ||| moduleBit moduleId))) moduleId' mode' = true := by
  refine marked_modify set fun _ _ word bit => ?_
  rw [UInt32.toBitVec_or, BitVec.getLsbD_or, bit, Bool.true_or]

theorem marked_own (row : mode < status.length) (place : moduleId / 32 < (status.getD mode []).length) :
    marked (status.modify mode (·.modify (moduleId / 32) (· ||| moduleBit moduleId))) moduleId mode = true := by
  unfold marked
  rw [getD_modify, if_pos ⟨rfl, row⟩, getD_modify, if_pos ⟨rfl, place⟩, UInt32.toBitVec_or, BitVec.getLsbD_or,
    moduleBit_getLsbD, decide_eq_true rfl, Bool.or_true]

theorem marked_release (set : marked status moduleId' mode' = true) (other : mode = mode' → moduleId ≠ moduleId') :
    marked (status.modify mode (·.modify (moduleId / 32) (· &&& ~~~moduleBit moduleId))) moduleId' mode' = true := by
  refine marked_modify set fun same word₀ word bit => ?_
  have apart : moduleId % 32 ≠ moduleId' % 32 := by
    have differ := other same
    omega
  rw [UInt32.toBitVec_and, UInt32.toBitVec_not, BitVec.getLsbD_and, BitVec.getLsbD_not, moduleBit_getLsbD, bit,
    decide_eq_true (Nat.mod_lt _ (by decide) : moduleId' % 32 < 32), decide_eq_false apart]
  rfl

end bits

/-! ## Histories -/

namespace PmWorld

/-- What holds as long as the steps are allowed: what is not released is noted, and a delay that has not elapsed is. -/
structure Inv (w : PmWorld) : Prop where
  modes : w.state.pm.modes.length = pmSleepModeMax
  rows : w.state.pm.sleepStatus.length = pmSleepModeMax - 1
  words : ∀ words ∈ w.state.pm.sleepStatus, words.length = (w.state.pm.moduleStatus.length + 31) / 32
  requests : ∀ mode, 0 < w.requests mode → ∃ count, w.state.pm.modes[mode]? = some count ∧ count ≠ 0
  sleepers : ∀ moduleId mode, 0 < w.sleepers moduleId mode →
    moduleId < w.state.pm.moduleStatus.length ∧ (mode < pmSleepModeMax - 1 → marked w.state.pm.sleepStatus moduleId mode = true)
  tick : w.state.tick = UInt32.ofNat w.now
  delays : ∀ moduleId start timeout, w.delays moduleId = some (start, timeout) → start ≤ w.now ∧
    (w.now ≤ start + timeout.toNat → w.state.pm.moduleStatus[moduleId]? = some ⟨true, timeout, UInt32.ofNat start⟩)
  resumed : w.wrong = false

variable {c : PmConfig} {w w' : PmWorld}

theorem waits {start now : Nat} {timeout : UInt32} (before : start ≤ now) (left : now ≤ start + timeout.toNat) :
    Waits (UInt32.ofNat now) ⟨true, timeout, UInt32.ofNat start⟩ := by
  refine ⟨rfl, fun less => ?_⟩
  have word := timeout.toNat_lt
  have under := UInt32.lt_iff_toNat_lt.mp less
  dsimp only at under
  rw [UInt32.toNat_sub, UInt32.toNat_ofNat', UInt32.toNat_ofNat'] at under
  omega

theorem Inv.sound (inv : w.Inv) (ready : c.initFlag = true) (config : c.defaultDeepsleep < pmSleepModeMax) : w.Sound c where
  held o timerList softLptimerList mode called most holds := by
    refine (sleep_le called).trans ((judged_le c _).trans ?_)
    change pmSelectSleepMode c w.state.pm ≤ most
    obtain some | ⟨moduleId, some⟩ := holds
    · exact pmSelectSleepMode_le c (Or.inl (inv.requests most some))
    · obtain ⟨known, marked⟩ := inv.sleepers moduleId most some
      by_cases last : most < pmSleepModeMax - 1
      · exact pmSelectSleepMode_le c (Or.inr ⟨moduleId, marked last⟩)
      · have less := pmSelectSleepMode_lt config inv.modes
        exact Nat.le_of_lt_succ (Nat.lt_of_lt_of_le less (Nat.le_succ_of_pred_le (Nat.le_of_not_lt last)))
  busy o timerList softLptimerList mode called busy := by
    obtain ⟨moduleId, start, timeout, noted, left⟩ := busy
    obtain ⟨before, listed⟩ := inv.delays moduleId start timeout noted
    refine (sleep_le called).trans (judged_busy ?_)
    unfold pmDeviceCheckIdle
    rw [if_neg (by rw [ready]; decide)]
    have own : Waits w.state.tick ⟨true, timeout, UInt32.ofNat start⟩ := inv.tick ▸ waits before left
    exact (checkIdleLoop_waits (listed left) own).1
  resumed := inv.resumed

theorem init_inv {defaultSleep : SleepMode} (known : defaultSleep < pmSleepModeMax) (modules : Nat) (timerMask : UInt8) :
    (init defaultSleep modules timerMask).Inv where
  modes := by
    change ((List.replicate pmSleepModeMax 0).set defaultSleep 1).length = pmSleepModeMax
    rw [List.length_set, List.length_replicate]
  rows := List.length_replicate
  words words inside := by
    change words ∈ List.replicate _ _ at inside
    rw [List.eq_of_mem_replicate inside, List.length_replicate]
    change _ = ((List.replicate modules _).length + 31) / 32
    rw [List.length_replicate]
  requests mode some := by
    have same : mode = defaultSleep := by
      by_contra other
      change 0 < if mode = defaultSleep then 1 else 0 at some
      rw [if_neg other] at some
      exact absurd some (Nat.lt_irrefl 0)
    refine ⟨1, ?_, by decide⟩
    change ((List.replicate pmSleepModeMax 0).set defaultSleep 1)[mode]? = _
    rw [same, List.getElem?_set_self (by rw [List.length_replicate]; exact known)]
  sleepers _ _ some := absurd some (Nat.lt_irrefl 0)
  tick := rfl
  delays _ _ _ noted := nomatch noted
  resumed := rfl

theorem Inv.count (inv : w.Inv) {mode : SleepMode} (known : mode < pmSleepModeMax) {f : UInt8 → UInt8} {n : Nat}
    (some : ∀ count, w.state.pm.modes[mode]? = some count → 0 < n → f count ≠ 0) :
    { w.withPm { w.state.pm with modes := w.state.pm.modes.modify mode f } with
      requests := update w.requests mode n }.Inv := by
  refine ⟨?_, inv.rows, inv.words, fun mode' positive => ?_, inv.sleepers, inv.tick, inv.delays, inv.resumed⟩
  · change (w.state.pm.modes.modify mode f).length = _
    rw [List.length_modify]
    exact inv.modes
  · change ∃ count, (w.state.pm.modes.modify mode f)[mode']? = Option.some count ∧ count ≠ 0
    change 0 < update w.requests mode n mode' at positive
    rw [List.getElem?_modify]
    by_cases same : mode = mode'
    · subst same
      rw [update_self] at positive
      have at' := List.getElem?_eq_getElem (inv.modes.symm ▸ known : mode < w.state.pm.modes.length)
      rw [at']
      exact ⟨_, congrArg Option.some (if_pos rfl), some _ at' positive⟩
    · rw [update_of_ne (Ne.symm same)] at positive
      obtain ⟨count, at', positive⟩ := inv.requests mode' positive
      rw [at']
      exact ⟨_, congrArg Option.some (if_neg same), positive⟩

theorem Inv.word (inv : w.Inv) {moduleId : Nat} {mode : SleepMode} {f : UInt32 → UInt32} {n : Nat}
    (own : 0 < n → moduleId < w.state.pm.moduleStatus.length ∧ (mode < pmSleepModeMax - 1 →
      marked (w.state.pm.sleepStatus.modify mode (·.modify (moduleId / 32) f)) moduleId mode = true))
    (others : ∀ moduleId' mode', (moduleId', mode') ≠ (moduleId, mode) →
      marked w.state.pm.sleepStatus moduleId' mode' = true →
      marked (w.state.pm.sleepStatus.modify mode (·.modify (moduleId / 32) f)) moduleId' mode' = true) :
    { w.withPm { w.state.pm with sleepStatus := w.state.pm.sleepStatus.modify mode (·.modify (moduleId / 32) f) } with
      sleepers := update w.sleepers moduleId (update (w.sleepers moduleId) mode n) }.Inv := by
  refine ⟨inv.modes, ?_, fun words inside => ?_, inv.requests, fun moduleId' mode' positive => ?_, inv.tick, inv.delays,
    inv.resumed⟩
  · change (w.state.pm.sleepStatus.modify _ _).length = _
    rw [List.length_modify]
    exact inv.rows
  · change words ∈ w.state.pm.sleepStatus.modify _ _ at inside
    obtain ⟨i, at'⟩ := List.mem_iff_getElem?.mp inside
    rw [List.getElem?_modify] at at'
    obtain ⟨old, was, rfl⟩ := Option.map_eq_some_iff.mp at'
    have size := inv.words old (List.mem_of_getElem? was)
    split
    · rw [List.length_modify]
      exact size
    · exact size
  · change 0 < update w.sleepers moduleId (update (w.sleepers moduleId) mode n) moduleId' mode' at positive
    by_cases same : (moduleId', mode') = (moduleId, mode)
    · cases same
      rw [update_self, update_self] at positive
      exact own positive
    · have before : 0 < w.sleepers moduleId' mode' := by
        by_cases module : moduleId' = moduleId
        · subst module
          rwa [update_self, update_of_ne fun mode => same (by rw [mode])] at positive
        · rwa [update_of_ne module] at positive
      obtain ⟨known, set⟩ := inv.sleepers moduleId' mode' before
      exact ⟨known, fun less => others _ _ same (set less)⟩

theorem Inv.row (inv : w.Inv) {moduleId : Nat} (inside : moduleId < w.state.pm.moduleStatus.length) (mode : SleepMode)
    (f : UInt32 → UInt32) :
    (if moduleId ≥ w.state.pm.moduleStatus.length then w.state.pm
      else if mode ≥ pmSleepModeMax - 1 then w.state.pm
      else { w.state.pm with sleepStatus := w.state.pm.sleepStatus.modify mode (·.modify (moduleId / 32) f) }) =
      { w.state.pm with sleepStatus := w.state.pm.sleepStatus.modify mode (·.modify (moduleId / 32) f) } := by
  rw [if_neg (Nat.not_le_of_lt inside)]
  split
  next last => rw [List.modify_eq_self (by rw [inv.rows]; exact last)]
  next => rfl

theorem Inv.pass (inv : w.Inv) (devices : List DevicePm) (timerGetTick : Option UInt32)
    (right : w.Fails c devices → paired (judged c w.state).pm.sleepMode devices = true) :
    { w with
      state := (pmChangeSleepMode c (drivers devices timerGetTick) w.state).1
      now := w.now + ((pmChangeSleepMode c (drivers devices timerGetTick) w.state).1.tick - w.state.tick).toNat
      wrong := w.wrong || decide (w.Fails c devices ∧
        devicesResume 0 devices ≠ (devicesSuspend (judged c w.state).pm.sleepMode 0 devices).1) }.Inv := by
  obtain ⟨modes, status, modules⟩ := pass_pm c (drivers devices timerGetTick) w.state
  generalize (pmChangeSleepMode c (drivers devices timerGetTick) w.state).1 = next at modes status modules ⊢
  have size : next.pm.moduleStatus.length = w.state.pm.moduleStatus.length := by
    rw [modules, pmDeviceCheckIdle]
    split
    · rfl
    · exact checkIdleLoop_length _ _
  refine ⟨modes ▸ inv.modes, status ▸ inv.rows, ?_, ?_, ?_, ?_, ?_, ?_⟩
  · change ∀ words ∈ next.pm.sleepStatus, words.length = (next.pm.moduleStatus.length + 31) / 32
    rw [status, size]
    exact inv.words
  · change ∀ mode, 0 < w.requests mode → ∃ count, next.pm.modes[mode]? = some count ∧ count ≠ 0
    rw [modes]
    exact inv.requests
  · change ∀ moduleId mode, 0 < w.sleepers moduleId mode → moduleId < next.pm.moduleStatus.length ∧
      (mode < pmSleepModeMax - 1 → marked next.pm.sleepStatus moduleId mode = true)
    rw [status, size]
    exact inv.sleepers
  · change next.tick = UInt32.ofNat (w.now + (next.tick - w.state.tick).toNat)
    rw [UInt32.ofNat_add, ← inv.tick, UInt32.ofNat_toNat, UInt32.add_comm, UInt32.sub_add_cancel]
  · intro moduleId start timeout noted
    obtain ⟨before, listed⟩ := inv.delays moduleId start timeout noted
    refine ⟨Nat.le_add_right_of_le before, fun left => ?_⟩
    have left : w.now ≤ start + timeout.toNat := Nat.le_of_add_right_le left
    change next.pm.moduleStatus[moduleId]? = _
    rw [modules, pmDeviceCheckIdle]
    split
    · exact listed left
    · have own : Waits w.state.tick ⟨true, timeout, UInt32.ofNat start⟩ := inv.tick ▸ waits before left
      exact (checkIdleLoop_waits (listed left) own).2
  · change (w.wrong || decide _) = false
    rw [inv.resumed, Bool.false_or, decide_eq_false_iff_not]
    rintro ⟨fails, differ⟩
    exact differ (devicesResume_eq (right fails) 0 fails.2.2)

theorem Inv.step (inv : w.Inv) (a : PmAction) (allowed : w.Allowed c a) (taken : w.step c a = some w') : w'.Inv := by
  cases a with
  | request mode =>
    obtain ⟨known, ⟨⟩⟩ := Option.ite_none_right_eq_some.mp taken
    unfold RtPm.rtPmRequest
    rw [if_neg (Nat.not_lt_of_le (Nat.le_sub_one_of_lt known))]
    refine inv.count known fun count _ _ => ?_
    split
    next less =>
      have under := UInt8.lt_iff_toNat_lt.mp less
      refine fun zero => absurd (congrArg UInt8.toNat zero) ?_
      rw [UInt8.toNat_add]
      change (count.toNat + 1) % 256 ≠ 0
      change count.toNat < 255 at under
      omega
    next full =>
      rintro rfl
      exact full (by decide)
  | release mode =>
    obtain ⟨some, ⟨⟩⟩ := Option.ite_none_right_eq_some.mp taken
    obtain ⟨count, at', -⟩ := inv.requests mode some
    obtain ⟨inside, -⟩ := List.getElem?_eq_some_iff.mp at'
    have known : mode < pmSleepModeMax := inv.modes ▸ inside
    unfold RtPm.rtPmRelease
    rw [if_neg (Nat.not_lt_of_le (Nat.le_sub_one_of_lt known))]
    refine inv.count known fun count at' more => ?_
    obtain ⟨count', same, positive⟩ := inv.requests mode some
    cases at'.symm.trans same
    have one : count ≠ 1 := fun one => by
      have only : w.requests mode = 1 := allowed (one ▸ at')
      rw [only] at more
      exact absurd more (by decide)
    split
    next =>
      refine fun zero => one ?_
      rw [← UInt8.sub_add_cancel count 1, zero]
      rfl
    next => exact positive
  | sleepRequest moduleId mode =>
    obtain ⟨⟨inside, known⟩, ⟨⟩⟩ := Option.ite_none_right_eq_some.mp taken
    unfold RtPm.rtPmSleepRequest
    rw [inv.row inside]
    refine inv.word (fun _ => ⟨inside, fun less => ?_⟩) fun _ _ _ set => marked_request set
    have row : mode < w.state.pm.sleepStatus.length := inv.rows.symm ▸ less
    refine marked_own row ?_
    rw [List.getD_eq_getElem?_getD, List.getElem?_eq_getElem row, Option.getD_some, inv.words _ (List.getElem_mem row)]
    omega
  | sleepRelease moduleId mode =>
    obtain ⟨some, ⟨⟩⟩ := Option.ite_none_right_eq_some.mp taken
    have only : w.sleepers moduleId mode = 1 := allowed
    unfold RtPm.rtPmSleepRelease
    rw [inv.row (inv.sleepers moduleId mode some).1, only]
    refine inv.word (fun more => absurd more (Nat.lt_irrefl 0)) fun moduleId' mode' other set => marked_release set ?_
    exact fun same module => other (by rw [same, module])
  | delaySleep moduleId timeout =>
    obtain ⟨inside, ⟨⟩⟩ := Option.ite_none_right_eq_some.mp taken
    unfold RtPm.rtPmModuleDelaySleep
    rw [if_neg (Nat.not_lt_of_le (Nat.le_sub_one_of_lt inside))]
    have size : (w.state.pm.moduleStatus.set moduleId ⟨true, timeout, w.state.tick⟩).length =
        w.state.pm.moduleStatus.length := List.length_set
    refine ⟨inv.modes, inv.rows, fun words mem => size.symm ▸ inv.words words mem, inv.requests,
      fun moduleId' mode' positive => size.symm ▸ inv.sleepers moduleId' mode' positive, inv.tick, ?_, inv.resumed⟩
    intro moduleId' start timeout' noted
    change update w.delays moduleId (some (w.now, timeout)) moduleId' = some (start, timeout') at noted
    change start ≤ w.now ∧ (w.now ≤ start + timeout'.toNat →
      (w.state.pm.moduleStatus.set moduleId ⟨true, timeout, w.state.tick⟩)[moduleId']? = _)
    by_cases same : moduleId' = moduleId
    · subst same
      rw [update_self] at noted
      cases noted
      exact ⟨Nat.le_refl _, fun _ => by rw [List.getElem?_set_self inside, inv.tick]⟩
    · rw [update_of_ne same] at noted
      rw [List.getElem?_set_ne (Ne.symm same)]
      exact inv.delays moduleId' start timeout' noted
  | tick =>
    cases taken
    refine ⟨inv.modes, inv.rows, inv.words, inv.requests, inv.sleepers, ?_, ?_, inv.resumed⟩
    · change w.state.tick + 1 = UInt32.ofNat (w.now + 1)
      rw [inv.tick, UInt32.ofNat_add]
      rfl
    · intro moduleId start timeout noted
      obtain ⟨before, listed⟩ := inv.delays moduleId start timeout noted
      exact ⟨Nat.le_succ_of_le before, fun left => listed (Nat.le_of_succ_le left)⟩
  | pass devices timerGetTick =>
    cases taken
    exact inv.pass devices timerGetTick allowed

/-- In every history whose steps are allowed, from `rt_system_pm_init`, each pass sleeps no deeper than the requests and
the delays let it, and a failed suspend resumes the devices that were suspended. -/
theorem requests_honoured (c : PmConfig) (defaultSleep : SleepMode) (modules : Nat) (timerMask : UInt8)
    (actions : List PmAction) (ready : c.initFlag = true) (deep : c.defaultDeepsleep < pmSleepModeMax)
    (known : defaultSleep < pmSleepModeMax)
    (each : EachStep (fun w a w' => w.step c a = some w') (init defaultSleep modules timerMask) actions (Allowed c)) :
    Throughout (fun w a w' => w.step c a = some w') (init defaultSleep modules timerMask) actions (Sound c) := by
  have all : Throughout (fun w a w' => w.step c a = some w') (init defaultSleep modules timerMask) actions Inv :=
    each.throughout (fun _ a _ inv allowed taken => inv.step a allowed taken) (init_inv known modules timerMask)
  exact fun before w inside run => (all before w inside run).sound ready deep

def plainConfig : PmConfig where
  initFlag := true
  defaultDeepsleep := pmSleepModeDeep
  busySleepMode := pmSleepModeIdle
  suspendSleepMode := pmSleepModeIdle
  ticklessThresholdTime := 2
  enableThresholdSleepMode := false
  enableSuspendSleepMode := true

/-- The default request is released, a module and the application make requests, and a device without `resume` refuses. -/
def orderly : List PmAction :=
  [.request pmSleepModeLight, .release pmSleepModeNone, .sleepRequest 3 pmSleepModeIdle, .delaySleep 2 10,
    .pass [⟨some fun _ => true, true⟩, ⟨some fun _ => false, false⟩] none, .sleepRelease 3 pmSleepModeIdle, .tick]

theorem orderly_honoured :
    Throughout (fun w a w' => w.step plainConfig a = some w') (init pmSleepModeNone 8 0) orderly (Sound plainConfig) ∧
      (orderly.foldlM (step plainConfig) (init pmSleepModeNone 8 0)).isSome = true := by
  refine ⟨requests_honoured plainConfig pmSleepModeNone 8 0 orderly rfl (by decide) (by decide) ?_, by decide +kernel⟩
  have all : eachAllowed (step plainConfig) (fun w a => decide (w.Allowed plainConfig a)) (init pmSleepModeNone 8 0)
      orderly = true := by decide +kernel
  have each := eachStep_of_eachAllowed all
  intro before a mid next inside run taken
  exact of_decide_eq_true (each before a mid next inside run taken)

/-- A module requests light sleep twice and releases it once: the next pass goes to deep sleep. -/
def twice : List PmAction :=
  [.release pmSleepModeNone, .sleepRequest 3 pmSleepModeLight, .sleepRequest 3 pmSleepModeLight,
    .sleepRelease 3 pmSleepModeLight]

theorem twice_not_honoured :
    ¬Throughout (fun w a w' => w.step plainConfig a = some w') (init pmSleepModeNone 8 0) twice (Sound plainConfig) := by
  intro all
  have reached : (twice.foldlM (step plainConfig) (init pmSleepModeNone 8 0)).any (fun w =>
      0 < w.sleepers 3 pmSleepModeLight &&
        (pmChangeSleepMode plainConfig (drivers [] none) { w.state with timerList := [], softLptimerList := [] }).2.any
          fun | .sleep mode => mode == pmSleepModeDeep | _ => false) = true := by decide +kernel
  obtain ⟨w, run, last⟩ := (Option.any_eq_true _ _).mp reached
  obtain ⟨held, called⟩ := Bool.and_eq_true_iff.mp last
  obtain ⟨event, inside, own⟩ := List.any_eq_true.mp called
  have sound : w.Sound plainConfig := all _ w (List.prefix_refl _) (run_of_foldlM run)
  cases event with
  | sleep mode =>
    have le := sound.held _ _ _ mode inside pmSleepModeLight (Or.inr ⟨3, of_decide_eq_true held⟩)
    rw [beq_iff_eq.mp own] at le
    exact absurd le (by decide)
  | _ => cases own

end PmWorld
end RtThread.Pm
