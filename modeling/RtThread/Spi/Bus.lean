import RtThread.Lib.Transition
import Mathlib.Algebra.Group.Nat.Defs
import Mathlib.Logic.Function.Basic

/-! `spi_core.c`: the devices of one bus, its lock and owner, and the calls of `ops->configure` that its users make.
Each step of a thread is what it does between two points where another thread may run. -/

set_option autoImplicit false
namespace RtThread.Spi
open Lib

structure SpiConfiguration where
  mode : UInt8
  dataWidth : UInt8
  maxHz : UInt32
  deriving DecidableEq

def modeMask : UInt8 := 255

def SpiConfiguration.masked (cfg : SpiConfiguration) : SpiConfiguration := { cfg with mode := cfg.mode &&& modeMask }

def mutexHoldMax : Nat := 255

inductive SpiCall where
  | sendThenSend
  | sendThenRecv
  | transfer
  | transferMessage (messages : Nat)

/-- How often the call goes to `ops->xfer` if nothing fails. -/
def SpiCall.messages : SpiCall → Nat
  | .sendThenSend => 2
  | .sendThenRecv => 2
  | .transfer => 1
  | .transferMessage messages => messages

inductive SpiPc (D : Type) where
  | idle
  /-- in `rt_spi_configure`, before it takes the lock -/
  | configuring (device : D)
  /-- in a transfer call, with the lock and so many messages to go -/
  | transferring (device : D) (left : Nat)
  deriving DecidableEq

/-- A call of `ops->configure`. -/
structure Configured (D : Type) where
  ok : Bool
  device : D
  configuration : SpiConfiguration
  deriving DecidableEq

/-- `struct rt_spi_bus`, with the devices on it, the threads, and the last call of `ops->configure`. -/
structure SpiBus (T D : Type) where
  owner : Option D
  holder : Option T
  hold : Nat
  config : D → SpiConfiguration
  pc : T → SpiPc D
  configured : Option (Configured D)
  /-- the configuration of the owner was changed, and `ops->configure` has not been called with it -/
  unapplied : Bool

inductive SpiAction (T D : Type) where
  /-- `rt_spi_configure`, up to the lock -/
  | configure (t : T) (device : D) (cfg : SpiConfiguration)
  /-- the rest of it, where `ok` is what `ops->configure` will answer -/
  | apply (t : T) (ok : Bool)
  /-- a transfer call, up to its first message -/
  | begin (t : T) (device : D) (call : SpiCall) (ok : Bool)
  | xfer (t : T) (ok : Bool)
  | finish (t : T)
  | takeBus (t : T) (device : D) (ok : Bool)
  | releaseBus (t : T) (device : D)

namespace SpiBus
variable {T D : Type}

/-- `rt_spi_bus_register`, and the devices attached. -/
def attached (config : D → SpiConfiguration) : SpiBus T D where
  owner := none
  holder := none
  hold := 0
  config := config
  pc _ := .idle
  configured := none
  unapplied := false

/-- `ops->configure(device, &device->config)` -/
def opsConfigure (s : SpiBus T D) (device : D) (ok : Bool) : SpiBus T D :=
  { s with configured := some ⟨ok, device, s.config device⟩, unapplied := false }

def release (s : SpiBus T D) : SpiBus T D :=
  if s.hold ≤ 1 then { s with holder := none, hold := 0 } else { s with hold := s.hold - 1 }

section steps
variable [DecidableEq T]

def goto (s : SpiBus T D) (t : T) (pc : SpiPc D) : SpiBus T D := { s with pc := Function.update s.pc t pc }

/-- `rt_mutex_take` fails for the holder that has taken it too often, and everyone else waits for the holder. -/
def take (s : SpiBus T D) (t : T) : Option (SpiBus T D) :=
  if s.holder = none ∨ s.holder = some t ∧ s.hold < mutexHoldMax then
    some { s with holder := some t, hold := s.hold + 1 }
  else none

def refused (s : SpiBus T D) (t : T) : Bool := s.holder = some t ∧ mutexHoldMax ≤ s.hold

variable [DecidableEq D]

/-- The bus changes hands if the device is not its owner; what comes back is whether it may be used. -/
def switchOwner (s : SpiBus T D) (device : D) (ok : Bool) : SpiBus T D × Bool :=
  if s.owner = some device then (s, true)
  else if ok then ({ s.opsConfigure device true with owner := some device }, true)
  else (s.opsConfigure device false, false)

def configure (s : SpiBus T D) (t : T) (device : D) (cfg : SpiConfiguration) : SpiBus T D :=
  if (s.config device) = cfg.masked then s
  else { s.goto t (.configuring device) with
    config := Function.update s.config device cfg.masked
    unapplied := s.unapplied || s.owner = some device }

def apply (s : SpiBus T D) (t : T) (device : D) (ok : Bool) : Option (SpiBus T D) :=
  if s.refused t then some (s.goto t .idle)
  else (s.take t).map fun locked =>
    ((if locked.owner = some device then locked.opsConfigure device ok else locked).release).goto t .idle

/-- The lock and the owner, for a call that goes on with `use`. -/
def enter (s : SpiBus T D) (t : T) (device : D) (ok : Bool) (use : SpiBus T D → SpiBus T D) : Option (SpiBus T D) :=
  if s.refused t then some s
  else (s.take t).map fun locked =>
    if (locked.switchOwner device ok).2 then use (locked.switchOwner device ok).1
    else (locked.switchOwner device ok).1.release

def act (s : SpiBus T D) : SpiAction T D → Option (SpiBus T D)
  | .configure t device cfg => if s.pc t = .idle then some (s.configure t device cfg) else none
  | .apply t ok =>
    match s.pc t with
    | .configuring device => s.apply t device ok
    | _ => none
  | .begin t device call ok =>
    if s.pc t = .idle then
      if call.messages = 0 then some s
      else s.enter t device ok fun ready => ready.goto t (.transferring device call.messages)
    else none
  | .xfer t ok =>
    match s.pc t with
    | .transferring device (left + 1) => some (s.goto t (.transferring device (if ok then left else 0)))
    | _ => none
  | .finish t =>
    match s.pc t with
    | .transferring _ 0 => some (s.release.goto t .idle)
    | _ => none
  | .takeBus t device ok => if s.pc t = .idle then s.enter t device ok id else none
  | .releaseBus t device =>
    -- RT_ASSERT(device->bus->owner == device)
    if s.pc t = .idle ∧ s.owner = some device then some (if s.holder = some t then s.release else s) else none

def Step (s : SpiBus T D) (a : SpiAction T D) (s' : SpiBus T D) : Prop := s.act a = some s'

end steps

/-- A message goes out only while the last call of `ops->configure` has set the bus up for its device as that is
configured now. -/
def XferConfigured (s : SpiBus T D) : SpiAction T D → Prop
  | .xfer t _ => ∀ device left, s.pc t = .transferring device (left + 1) →
      s.configured = some ⟨true, device, s.config device⟩
  | _ => True

/-- `ops->configure` fails only while the bus has no owner, and no message goes out between a change of the owner's
configuration and the call of `ops->configure` for it. -/
def Careful (s : SpiBus T D) : SpiAction T D → Prop
  | .apply t ok => ∀ device, s.pc t = .configuring device → s.owner = some device → ok = true
  | .begin _ device _ ok => s.owner ≠ none → s.owner ≠ some device → ok = true
  | .takeBus _ device ok => s.owner ≠ none → s.owner ≠ some device → ok = true
  | .xfer _ _ => s.unapplied = false
  | _ => True

structure Inv (s : SpiBus T D) : Prop where
  owns : ∀ device, s.owner = some device → s.unapplied = false →
    s.configured = some ⟨true, device, s.config device⟩
  sends : ∀ t device left, s.pc t = .transferring device left → s.holder = some t ∧ s.owner = some device
  held : s.holder = none ↔ s.hold = 0

theorem inv_attached (config : D → SpiConfiguration) : Inv (attached config : SpiBus T D) where
  owns := by simp [attached]
  sends := by simp [attached]
  held := by simp [attached]

theorem Inv.release {s : SpiBus T D} (inv : Inv s) {t : T} (mine : s.holder = some t)
    (none : ∀ u device left, s.pc u ≠ .transferring device left) : Inv s.release := by
  unfold SpiBus.release
  split
  · exact ⟨inv.owns, fun u device left sends => absurd sends (none u device left), by simp⟩
  · refine ⟨inv.owns, inv.sends, ?_⟩
    simp only [mine, reduceCtorEq, false_iff]
    omega

section threads
variable [DecidableEq T] {s : SpiBus T D} {t : T} {device : D}

theorem release_goto (s : SpiBus T D) (t : T) (pc : SpiPc D) : (s.goto t pc).release = s.release.goto t pc := by
  by_cases last : s.hold ≤ 1 <;> simp [SpiBus.release, SpiBus.goto, last]

theorem Inv.goto (inv : Inv s) {pc : SpiPc D} (rests : ∀ device left, pc ≠ .transferring device left) :
    Inv (s.goto t pc) := by
  refine ⟨inv.owns, fun u device left sends => ?_, inv.held⟩
  by_cases same : u = t
  · subst same
    exact absurd ((Function.update_self ..).symm.trans sends) (rests device left)
  · exact inv.sends u device left ((Function.update_of_ne same ..).symm.trans sends)

theorem Inv.goto_sends (inv : Inv s) {left : Nat} (mine : s.holder = some t) (owner : s.owner = some device) :
    Inv (s.goto t (.transferring device left)) := by
  refine ⟨inv.owns, fun u other left sends => ?_, inv.held⟩
  by_cases same : u = t
  · subst same
    cases (Function.update_self ..).symm.trans sends
    exact ⟨mine, owner⟩
  · exact inv.sends u other left ((Function.update_of_ne same ..).symm.trans sends)

theorem Inv.take (inv : Inv s) {locked : SpiBus T D} (rests : ∀ device left, s.pc t ≠ .transferring device left)
    (taken : s.take t = some locked) :
    Inv locked ∧ locked.holder = some t ∧ (∀ u device left, locked.pc u ≠ .transferring device left) ∧
      locked.owner = s.owner ∧ locked.pc = s.pc := by
  unfold SpiBus.take at taken
  split at taken
  case isFalse => cases taken
  case isTrue free =>
    cases taken
    have nobody : ∀ u device left, s.pc u ≠ .transferring device left := by
      intro u device left sends
      have holder := (inv.sends u device left sends).1
      rcases free with free | ⟨mine, -⟩
      · simp [free] at holder
      · cases mine.symm.trans holder
        exact rests device left sends
    refine ⟨⟨inv.owns, fun u device left sends => absurd sends (nobody u device left), ?_⟩, rfl, nobody, rfl, rfl⟩
    simp

end threads

section steps
variable [DecidableEq D] {s s' : SpiBus T D} {t : T} {device : D}

theorem Inv.switchOwner (inv : Inv s) {ok : Bool} (none : ∀ u device left, s.pc u ≠ .transferring device left)
    (careful : s.owner ≠ .none → s.owner ≠ some device → ok = true) :
    Inv (s.switchOwner device ok).1 ∧ (s.switchOwner device ok).1.holder = s.holder ∧
      (s.switchOwner device ok).1.pc = s.pc ∧
      ((s.switchOwner device ok).2 = true → (s.switchOwner device ok).1.owner = some device) := by
  unfold SpiBus.switchOwner
  split
  case isTrue same => exact ⟨inv, rfl, rfl, fun _ => same⟩
  case isFalse other =>
    cases ok with
    | true =>
      refine ⟨⟨?_, fun u device left sends => absurd sends (none u device left), inv.held⟩, rfl, rfl, fun _ => rfl⟩
      intro owner same _
      cases same
      rfl
    | false =>
      have free : s.owner = .none := by
        by_contra owned
        exact absurd (careful owned other) Bool.false_ne_true
      refine ⟨⟨?_, inv.sends, inv.held⟩, rfl, rfl, nofun⟩
      intro owner same
      simp [opsConfigure, free] at same

variable [DecidableEq T]

theorem Inv.configure (inv : Inv s) (cfg : SpiConfiguration) : Inv (s.configure t device cfg) := by
  unfold SpiBus.configure
  split
  case isTrue => exact inv
  case isFalse =>
    have moved : Inv (s.goto t (.configuring device)) := inv.goto nofun
    refine ⟨fun owner same applied => ?_, moved.sends, moved.held⟩
    simp only [Bool.or_eq_false_iff, decide_eq_false_iff_not] at applied
    have apart : owner ≠ device := fun equal => applied.2 (equal ▸ same)
    simp only [Function.update_of_ne apart]
    exact inv.owns owner same applied.1

theorem Inv.apply (inv : Inv s) {ok : Bool} (place : s.pc t = .configuring device)
    (careful : s.owner = some device → ok = true) (step : s.apply t device ok = some s') : Inv s' := by
  unfold SpiBus.apply at step
  split at step
  case isTrue => exact Option.some.inj step ▸ inv.goto nofun
  case isFalse =>
    rw [Option.map_eq_some_iff] at step
    obtain ⟨locked, taken, rfl⟩ := step
    obtain ⟨kept, mine, nobody, owner, -⟩ := inv.take (by simp [place]) taken
    split
    case isFalse => exact (kept.release mine nobody).goto nofun
    case isTrue same =>
      have ok_true : ok = true := careful (owner ▸ same)
      subst ok_true
      have applied : Inv (locked.opsConfigure device true) := by
        refine ⟨fun other owned _ => ?_, kept.sends, kept.held⟩
        cases same.symm.trans owned
        rfl
      exact (applied.release mine nobody).goto nofun

theorem Inv.enter (inv : Inv s) {ok : Bool} {use : SpiBus T D → SpiBus T D} (place : s.pc t = .idle)
    (careful : s.owner ≠ none → s.owner ≠ some device → ok = true)
    (used : ∀ ready, Inv ready → ready.holder = some t → ready.owner = some device → Inv (use ready))
    (step : s.enter t device ok use = some s') : Inv s' := by
  unfold SpiBus.enter at step
  split at step
  case isTrue => exact Option.some.inj step ▸ inv
  case isFalse =>
    rw [Option.map_eq_some_iff] at step
    obtain ⟨locked, taken, rfl⟩ := step
    obtain ⟨kept, mine, nobody, owner, -⟩ := inv.take (by simp [place]) taken
    have careful : locked.owner ≠ none → locked.owner ≠ some device → ok = true := owner ▸ careful
    obtain ⟨switched, holder, same, owned⟩ := kept.switchOwner nobody careful
    split
    case isTrue ready => exact used _ switched (holder.trans mine) (owned ready)
    case isFalse => exact switched.release (holder.trans mine) (same ▸ nobody)

theorem Inv.step (a : SpiAction T D) (inv : Inv s) (careful : s.Careful a) (step : Step s a s') : Inv s' := by
  cases a with
  | configure t device cfg =>
    simp only [Step, act] at step
    split at step
    case isFalse => cases step
    case isTrue => exact Option.some.inj step ▸ inv.configure cfg
  | apply t ok =>
    simp only [Step, act] at step
    split at step
    case h_2 => cases step
    case h_1 device place => exact inv.apply place (careful device place) step
  | begin t device call ok =>
    simp only [Step, act] at step
    split at step
    case isFalse => cases step
    case isTrue place =>
      split at step
      case isTrue => exact Option.some.inj step ▸ inv
      case isFalse => exact inv.enter place careful (fun _ ready mine owner => ready.goto_sends mine owner) step
  | xfer t ok =>
    simp only [Step, act] at step
    split at step
    case h_2 => cases step
    case h_1 device left place =>
      have sends := inv.sends t device _ place
      exact Option.some.inj step ▸ inv.goto_sends sends.1 sends.2
  | finish t =>
    simp only [Step, act] at step
    split at step
    case h_2 => cases step
    case h_1 device place =>
      have mine := (inv.sends t device 0 place).1
      have rests : Inv (s.goto t .idle) := inv.goto nofun
      have nobody : ∀ u device left, (s.goto t .idle).pc u ≠ .transferring device left := by
        intro u other left sends
        have same : u = t := Option.some.inj ((rests.sends u other left sends).1.symm.trans mine)
        subst same
        cases (Function.update_self ..).symm.trans sends
      have freed := rests.release mine nobody
      exact Option.some.inj step ▸ release_goto s t .idle ▸ freed
  | takeBus t device ok =>
    simp only [Step, act] at step
    split at step
    case isFalse => cases step
    case isTrue place => exact inv.enter place careful (fun _ ready _ _ => ready) step
  | releaseBus t device =>
    simp only [Step, act] at step
    split at step
    case isFalse => cases step
    case isTrue place =>
      rw [← Option.some.inj step]
      split
      case isFalse => exact inv
      case isTrue mine =>
        refine inv.release mine fun u other left sends => ?_
        have same : u = t := Option.some.inj ((inv.sends u other left sends).1.symm.trans mine)
        subst same
        simp [place.1] at sends

/-- Along steps that are careful, every message goes out on a bus that is configured for its device. -/
theorem xfer_configured (config : D → SpiConfiguration) (actions : List (SpiAction T D)) (s : SpiBus T D)
    (run : Run (fun s a s' => s.Careful a ∧ Step s a s') (attached config) actions s) (a : SpiAction T D)
    (careful : s.Careful a) : s.XferConfigured a := by
  have inv : Inv s := run.invariant Inv (fun _ a _ inv step => inv.step a step.1 step.2) (inv_attached config)
  cases a with
  | xfer t ok =>
    intro device left place
    exact inv.owns device (inv.sends t device _ place).2 careful
  | configure => trivial
  | apply => trivial
  | begin => trivial
  | finish => trivial
  | takeBus => trivial
  | releaseBus => trivial

theorem xfer_configured_second :
    ∃ s : SpiBus Unit Bool, s.configured = some ⟨true, true, ⟨0, 8, 8000000⟩⟩ ∧ s.XferConfigured (.xfer () true) := by
  let taken (s : SpiBus Unit Bool) (a : SpiAction Unit Bool) (s' : SpiBus Unit Bool) := s.Careful a ∧ Step s a s'
  have first : Run taken (attached fun _ => ⟨0, 8, 8000000⟩) [.begin () false .transfer true] _ :=
    .snoc (.nil _) ⟨fun _ _ => rfl, rfl⟩
  have sent : Run taken (attached fun _ => ⟨0, 8, 8000000⟩) _ _ :=
    @Run.snoc _ (SpiAction Unit Bool) _ _ _ _ _ (.xfer () true) first ⟨rfl, rfl⟩
  have done : Run taken (attached fun _ => ⟨0, 8, 8000000⟩) _ _ :=
    @Run.snoc _ (SpiAction Unit Bool) _ _ _ _ _ (.finish ()) sent ⟨trivial, rfl⟩
  have second : Run taken (attached fun _ => ⟨0, 8, 8000000⟩) _ _ :=
    @Run.snoc _ (SpiAction Unit Bool) _ _ _ _ _ (.begin () true .sendThenRecv true) done ⟨fun _ _ => rfl, rfl⟩
  exact ⟨_, rfl, xfer_configured _ _ _ second (.xfer () true) rfl⟩

end steps

/-- `ops->configure` fails for a second device, and the first goes on with a bus that it has not been configured for. -/
theorem xfer_misconfigured :
    ∃ (actions : List (SpiAction Unit Bool)) (s : SpiBus Unit Bool),
      Run Step (attached fun _ => ⟨0, 8, 8000000⟩) actions s ∧ (∃ s', Step s (.xfer () true) s') ∧
      s.configured = some ⟨false, true, ⟨0, 8, 8000000⟩⟩ ∧ ¬s.XferConfigured (.xfer () true) := by
  have run : Run Step (attached fun _ => ⟨0, 8, 8000000⟩) _ _ := @run_of_foldlM _ _ _ [.begin () false .transfer true,
    .xfer () true, .finish (), .begin () true .transfer false, .begin () false .transfer true] _ _ rfl
  exact ⟨_, _, run, ⟨_, rfl⟩, rfl, fun set => absurd (set false 0 rfl) (by decide)⟩

end SpiBus
end RtThread.Spi
