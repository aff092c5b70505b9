import RtThread.Lib.Throughout

/-! The table of pin interrupt handlers, which the GPIO driver keeps beside the GPIOTE channels of nrfx. -/

set_option autoImplicit false
namespace RtThread.Drivers
open RtThread.Lib

structure PinIrqHdr (Handler Arg : Type) where
  pin : Int
  mode : UInt8
  hdr : Option Handler
  args : Option Arg

variable {Handler Arg : Type}

def PinIrqHdr.free : PinIrqHdr Handler Arg := ⟨-1, 0, none, none⟩

inductive NrfxErr where
  | success
  | busy
  | noMem
  | other
  deriving DecidableEq

inductive PinErr where
  | eok
  | enosys
  | enomem
  | ebusy
  | error
  deriving DecidableEq

def NrfxErr.toPinErr : NrfxErr → PinErr
  | .busy => .ebusy
  | .success => .eok
  | .noMem => .enomem
  | .other => .error

inductive Sense where
  | loToHi
  | hiToLo
  | toggle

structure InConfig where
  sense : Sense
  hiAccuracy : Bool
  pullUp : Bool

/-- What the three modes ask of `nrfx_gpiote_in_init`; the driver has no branch for another mode. -/
def inConfig (mode : UInt8) (args : Option Arg) : Option InConfig :=
  if mode = 0 then some ⟨.loToHi, args.isSome, false⟩
  else if mode = 1 then some ⟨.hiToLo, args.isSome, true⟩
  else if mode = 2 then some ⟨.toggle, args.isSome, true⟩
  else none

inductive NrfxCall where
  | inInit (pin : Int) (config : InConfig)
  | inUninit (pin : Int)
  | inEventEnable (pin : Int) (enabled : UInt8)
  | inEventDisable (pin : Int)

structure Gpio (Handler Arg : Type) where
  pinIrqHdrTab : List (PinIrqHdr Handler Arg)
  /-- The calls of nrfx so far -/
  calls : List NrfxCall

/-- The rows of `pins`: `SOC_NRF52840` and `SOC_NRF5340` have a second port. -/
def pinsNum (secondPort : Bool) : Nat := if secondPort then 48 else 32

/-- The parameter is a `uint8_t`; no row has the index -1. -/
def getPin (secondPort : Bool) (pin : Int) : Option Nat :=
  let pin := (pin % 256).toNat
  if pin < pinsNum secondPort then some pin else none

/-- `result` is what `nrfx_gpiote_in_init` returns, `errCode` what the variable holds before. -/
def nrf5xPinAttachIrq (secondPort : Bool) (gpio : Gpio Handler Arg) (pin : Int) (mode : UInt8) (hdr : Option Handler)
    (args : Option Arg) (result errCode : NrfxErr) : Gpio Handler Arg × PinErr :=
  match getPin secondPort pin with
  | none => (gpio, .enosys)
  | some _ =>
    match gpio.pinIrqHdrTab.findIdx? (fun slot => slot.pin == -1) with
    | none => (gpio, .enomem)
    | some irqindex =>
      let tab := gpio.pinIrqHdrTab.set irqindex ⟨pin, mode, hdr, args⟩
      match inConfig mode args with
      | some config => (⟨tab, gpio.calls ++ [.inInit pin config]⟩, result.toPinErr)
      | none => (⟨tab, gpio.calls⟩, errCode.toPinErr)

def nrf5xPinDettachIrq (secondPort : Bool) (gpio : Gpio Handler Arg) (pin : Int) : Gpio Handler Arg × PinErr :=
  match getPin secondPort pin with
  | none => (gpio, .enosys)
  | some _ =>
    match gpio.pinIrqHdrTab.findIdx? (fun slot => slot.pin == pin) with
    | none => (gpio, .enosys)
    | some i => (⟨gpio.pinIrqHdrTab.set i .free, gpio.calls ++ [.inUninit pin]⟩, .eok)

def nrf5xPinIrqEnable (secondPort : Bool) (gpio : Gpio Handler Arg) (pin : Int) (enabled : UInt8) :
    Gpio Handler Arg × PinErr :=
  match getPin secondPort pin with
  | none => (gpio, .enosys)
  | some _ =>
    match gpio.pinIrqHdrTab.findIdx? (fun slot => slot.pin == pin) with
    | none => (gpio, .enosys)
    | some _ =>
      if enabled = 1 then ({ gpio with calls := gpio.calls ++ [.inEventEnable pin enabled] }, .eok)
      else if enabled = 0 then ({ gpio with calls := gpio.calls ++ [.inEventDisable pin] }, .eok)
      else (gpio, .eok)

inductive PinCall (Handler Arg : Type) where
  | attachIrq (pin : Int) (mode : UInt8) (hdr : Option Handler) (args : Option Arg) (result errCode : NrfxErr)
  | dettachIrq (pin : Int)
  | irqEnable (pin : Int) (enabled : UInt8)

/-- The driver, with the pins whose last successful attach no detach has followed, the table before the last call, and
whether that was an attach that returned an error -/
structure PinSession (Handler Arg : Type) where
  gpio : Gpio Handler Arg
  attached : Int → Bool
  before : List (PinIrqHdr Handler Arg)
  refused : Bool

def PinSession.call (secondPort : Bool) (s : PinSession Handler Arg) : PinCall Handler Arg → PinSession Handler Arg
  | .attachIrq pin mode hdr args result errCode =>
    let (gpio, ret) := nrf5xPinAttachIrq secondPort s.gpio pin mode hdr args result errCode
    ⟨gpio, if ret = .eok then Function.update s.attached pin true else s.attached, s.gpio.pinIrqHdrTab, ret != .eok⟩
  | .dettachIrq pin =>
    ⟨(nrf5xPinDettachIrq secondPort s.gpio pin).1, Function.update s.attached pin false, s.gpio.pinIrqHdrTab, false⟩
  | .irqEnable pin enabled =>
    ⟨(nrf5xPinIrqEnable secondPort s.gpio pin enabled).1, s.attached, s.gpio.pinIrqHdrTab, false⟩

def PinSession.Step (secondPort : Bool) (s : PinSession Handler Arg) (call : PinCall Handler Arg)
    (s' : PinSession Handler Arg) : Prop := s.call secondPort call = s'

def pinIrqHdrTab : List (PinIrqHdr Handler Arg) := List.replicate 9 .free

def pinStart : PinSession Handler Arg := ⟨⟨pinIrqHdrTab, []⟩, fun _ => false, pinIrqHdrTab, false⟩

def Occupies (tab : List (PinIrqHdr Handler Arg)) (i : Nat) (pin : Int) : Prop :=
  pin ≠ -1 ∧ ∃ slot, tab[i]? = some slot ∧ slot.pin = pin

structure PinSession.Sound (secondPort : Bool) (s : PinSession Handler Arg) : Prop where
  refused : s.refused = true → s.gpio.pinIrqHdrTab = s.before
  once : ∀ i j pin, Occupies s.gpio.pinIrqHdrTab i pin → Occupies s.gpio.pinIrqHdrTab j pin → i = j
  attached : ∀ pin, (∃ i, Occupies s.gpio.pinIrqHdrTab i pin) ↔ s.attached pin = true
  again : ∀ pin mode hdr args errCode, (nrf5xPinDettachIrq secondPort s.gpio pin).2 = .eok →
    (inConfig mode args).isSome = true →
    (nrf5xPinAttachIrq secondPort (nrf5xPinDettachIrq secondPort s.gpio pin).1 pin mode hdr args .success errCode).2 = .eok

/-- An attach that gets as far as a free slot is for a pin that has none, and it returns `RT_EOK`: nrfx accepts it, or
the mode is none of the three and the variable happens to hold `NRFX_SUCCESS`. -/
def PinSession.Allowed (secondPort : Bool) (s : PinSession Handler Arg) : PinCall Handler Arg → Prop
  | .attachIrq pin mode _ args result errCode =>
    (getPin secondPort pin).isSome = true → (∃ slot ∈ s.gpio.pinIrqHdrTab, slot.pin = -1) →
      (∀ i, ¬Occupies s.gpio.pinIrqHdrTab i pin) ∧
        (if (inConfig mode args).isSome then result else errCode) = .success
  | .dettachIrq _ | .irqEnable .. => True

section slots
variable {tab : List (PinIrqHdr Handler Arg)} {slot new : PinIrqHdr Handler Arg} {i j : Nat} {p pin : Int}

theorem occupies_claim (here : tab[i]? = some slot) (vacant : slot.pin = -1) (named : new.pin ≠ -1) :
    Occupies (tab.set i new) j p ↔ j = i ∧ p = new.pin ∨ Occupies tab j p := by
  obtain ⟨inside, -⟩ := List.getElem?_eq_some_iff.mp here
  unfold Occupies
  by_cases same : j = i
  · subst same
    simp only [List.getElem?_set_self inside, here, Option.some.injEq, exists_eq_left']
    constructor
    · rintro ⟨-, rfl⟩
      exact .inl ⟨trivial, rfl⟩
    · rintro (⟨-, rfl⟩ | ⟨nonfree, held⟩)
      · exact ⟨named, rfl⟩
      · exact absurd (held.symm.trans vacant) nonfree
  · rw [List.getElem?_set_ne (Ne.symm same)]
    exact ⟨.inr, fun either => either.resolve_left fun taken => same taken.1⟩

theorem occupies_free (here : tab[i]? = some slot) :
    Occupies (tab.set i .free) j p ↔ j ≠ i ∧ Occupies tab j p := by
  obtain ⟨inside, -⟩ := List.getElem?_eq_some_iff.mp here
  unfold Occupies
  by_cases same : j = i
  · subst same
    simp only [List.getElem?_set_self inside, Option.some.injEq, exists_eq_left']
    exact iff_of_false (fun held => held.1 held.2.symm) fun both => both.1 rfl
  · rw [List.getElem?_set_ne (Ne.symm same)]
    exact ⟨fun held => ⟨same, held⟩, And.right⟩

theorem occupies_mem (held : Occupies tab i p) : ∃ slot ∈ tab, slot.pin = p := by
  obtain ⟨-, slot, here, name⟩ := held
  exact ⟨slot, List.mem_of_getElem? here, name⟩

theorem findSlot_cases (tab : List (PinIrqHdr Handler Arg)) (pin : Int) :
    tab.findIdx? (fun slot => slot.pin == pin) = none ∧ (∀ slot ∈ tab, slot.pin ≠ pin) ∨
      ∃ i slot, tab.findIdx? (fun slot => slot.pin == pin) = some i ∧ tab[i]? = some slot ∧ slot.pin = pin := by
  cases found : tab.findIdx? (fun slot => slot.pin == pin) with
  | none =>
    refine .inl ⟨rfl, fun slot inside => ?_⟩
    exact beq_eq_false_iff_ne.mp (List.findIdx?_eq_none_iff.mp found slot inside)
  | some i =>
    obtain ⟨inside, name, -⟩ := List.findIdx?_eq_some_iff_getElem.mp found
    exact .inr ⟨i, _, rfl, List.getElem?_eq_getElem inside, beq_iff_eq.mp name⟩

end slots

section calls
variable {secondPort : Bool} {gpio : Gpio Handler Arg} {pin : Int}

theorem getPin_ne (valid : (getPin secondPort pin).isSome = true) : pin ≠ -1 := by
  rintro rfl
  revert valid
  cases secondPort <;> decide

/-- An attach names no pin of the driver, or finds no slot, or claims a free one whatever nrfx makes of it. -/
theorem attach_cases (secondPort : Bool) (gpio : Gpio Handler Arg) (pin : Int) (mode : UInt8) (hdr : Option Handler)
    (args : Option Arg) (result errCode : NrfxErr) :
    getPin secondPort pin = none ∧
        nrf5xPinAttachIrq secondPort gpio pin mode hdr args result errCode = (gpio, .enosys) ∨
      (∀ slot ∈ gpio.pinIrqHdrTab, slot.pin ≠ -1) ∧
        nrf5xPinAttachIrq secondPort gpio pin mode hdr args result errCode = (gpio, .enomem) ∨
      (getPin secondPort pin).isSome = true ∧ ∃ i slot calls, gpio.pinIrqHdrTab[i]? = some slot ∧ slot.pin = -1 ∧
        nrf5xPinAttachIrq secondPort gpio pin mode hdr args result errCode =
          (⟨gpio.pinIrqHdrTab.set i ⟨pin, mode, hdr, args⟩, calls⟩,
            (if (inConfig mode args).isSome then result else errCode).toPinErr) := by
  unfold nrf5xPinAttachIrq
  cases getPin secondPort pin with
  | none => exact .inl ⟨rfl, rfl⟩
  | some row =>
    obtain ⟨search, full⟩ | ⟨i, slot, search, here, vacant⟩ := findSlot_cases gpio.pinIrqHdrTab (-1)
    · simp only [search]
      exact .inr (.inl ⟨full, trivial⟩)
    · simp only [search]
      refine .inr (.inr ⟨rfl, i, slot, ?_⟩)
      cases inConfig mode args with
      | some config | none => exact ⟨_, here, vacant, rfl⟩

theorem dettach_cases (secondPort : Bool) (gpio : Gpio Handler Arg) (pin : Int) :
    getPin secondPort pin = none ∧ nrf5xPinDettachIrq secondPort gpio pin = (gpio, .enosys) ∨
      (∀ slot ∈ gpio.pinIrqHdrTab, slot.pin ≠ pin) ∧ nrf5xPinDettachIrq secondPort gpio pin = (gpio, .enosys) ∨
      (getPin secondPort pin).isSome = true ∧ ∃ i slot, gpio.pinIrqHdrTab[i]? = some slot ∧ slot.pin = pin ∧
        nrf5xPinDettachIrq secondPort gpio pin =
          (⟨gpio.pinIrqHdrTab.set i .free, gpio.calls ++ [.inUninit pin]⟩, .eok) := by
  unfold nrf5xPinDettachIrq
  cases getPin secondPort pin with
  | none => exact .inl ⟨rfl, rfl⟩
  | some row =>
    obtain ⟨search, missing⟩ | ⟨i, slot, search, here, name⟩ := findSlot_cases gpio.pinIrqHdrTab pin
    · simp only [search]
      exact .inr (.inl ⟨missing, trivial⟩)
    · simp only [search]
      exact .inr (.inr ⟨rfl, i, slot, here, name, rfl⟩)

theorem irqEnable_tab (enabled : UInt8) :
    (nrf5xPinIrqEnable secondPort gpio pin enabled).1.pinIrqHdrTab = gpio.pinIrqHdrTab := by
  unfold nrf5xPinIrqEnable
  split
  · rfl
  · split
    · rfl
    · split
      · rfl
      · split <;> rfl

theorem toPinErr_eq_eok {err : NrfxErr} : err.toPinErr = .eok ↔ err = .success := by
  cases err <;> decide

theorem attach_again (mode : UInt8) (hdr : Option Handler) (args : Option Arg) (errCode : NrfxErr)
    (freed : (nrf5xPinDettachIrq secondPort gpio pin).2 = .eok) (known : (inConfig mode args).isSome = true) :
    (nrf5xPinAttachIrq secondPort (nrf5xPinDettachIrq secondPort gpio pin).1 pin mode hdr args .success errCode).2 =
      .eok := by
  obtain ⟨-, done⟩ | ⟨-, done⟩ | ⟨valid, i, slot, here, -, done⟩ := dettach_cases secondPort gpio pin
  · rw [done] at freed
    cases freed
  · rw [done] at freed
    cases freed
  · rw [done]
    obtain ⟨inside, -⟩ := List.getElem?_eq_some_iff.mp here
    obtain ⟨invalid, -⟩ | ⟨full, -⟩ | ⟨-, k, slot', calls, -, -, attached⟩ :=
      attach_cases secondPort ⟨gpio.pinIrqHdrTab.set i .free, gpio.calls ++ [.inUninit pin]⟩ pin mode hdr args .success
        errCode
    · rw [invalid] at valid
      cases valid
    · exact absurd rfl (full .free (List.mem_set inside _))
    · rw [attached, if_pos known]
      rfl

end calls

section sessions
variable {secondPort : Bool} {s : PinSession Handler Arg} {call : PinCall Handler Arg}

structure PinSession.Inv (secondPort : Bool) (s : PinSession Handler Arg) : Prop extends s.Sound secondPort where
  valid : ∀ i pin, Occupies s.gpio.pinIrqHdrTab i pin → (getPin secondPort pin).isSome = true

theorem pinStart_inv : (pinStart : PinSession Handler Arg).Inv secondPort := by
  have vacant : ∀ i pin, ¬Occupies (pinIrqHdrTab : List (PinIrqHdr Handler Arg)) i pin := by
    intro i pin held
    obtain ⟨slot, inside, name⟩ := occupies_mem held
    rw [List.eq_of_mem_replicate inside] at name
    exact held.1 name.symm
  exact
    { refused := fun _ => rfl
      once := fun i _ pin held _ => absurd held (vacant i pin)
      attached := fun pin => iff_of_false (fun ⟨i, held⟩ => vacant i pin held) Bool.false_ne_true
      again := fun _ mode hdr args errCode => attach_again mode hdr args errCode
      valid := fun i pin held => absurd held (vacant i pin) }

theorem PinSession.Inv.same (inv : s.Inv secondPort) {s' : PinSession Handler Arg}
    (tab : s'.gpio.pinIrqHdrTab = s.gpio.pinIrqHdrTab) (before : s'.before = s.gpio.pinIrqHdrTab)
    (attached : s'.attached = s.attached) : s'.Inv secondPort where
  refused _ := tab.trans before.symm
  once := by rw [tab]; exact inv.once
  attached := by rw [tab, attached]; exact inv.attached
  again _ mode hdr args errCode := attach_again mode hdr args errCode
  valid := by rw [tab]; exact inv.valid

theorem PinSession.Inv.kept (inv : s.Inv secondPort) (allowed : s.Allowed secondPort call) :
    (s.call secondPort call).Inv secondPort := by
  cases call with
  | attachIrq pin mode hdr args result errCode =>
    obtain ⟨-, done⟩ | ⟨-, done⟩ | ⟨valid, i, slot, calls, here, vacant, done⟩ :=
      attach_cases secondPort s.gpio pin mode hdr args result errCode
    · simp only [PinSession.call, done]
      exact inv.same rfl rfl rfl
    · simp only [PinSession.call, done]
      exact inv.same rfl rfl rfl
    · obtain ⟨absent, accepted⟩ := allowed valid ⟨slot, List.mem_of_getElem? here, vacant⟩
      have held : ∀ j p, Occupies (s.gpio.pinIrqHdrTab.set i ⟨pin, mode, hdr, args⟩) j p ↔
          j = i ∧ p = pin ∨ Occupies s.gpio.pinIrqHdrTab j p := fun j p => occupies_claim here vacant (getPin_ne valid)
      simp only [PinSession.call, done, accepted]
      refine ⟨⟨nofun, ?_, ?_, fun _ mode hdr args errCode => attach_again mode hdr args errCode⟩, ?_⟩
      · intro j k p first second
        obtain ⟨rfl, rfl⟩ | old := (held j p).mp first
        · exact ((held k p).mp second).elim (fun new => new.1.symm) fun old => absurd old (absent k)
        · obtain ⟨rfl, rfl⟩ | other := (held k p).mp second
          · exact absurd old (absent j)
          · exact inv.once j k p old other
      · intro p
        simp only [held, exists_or, exists_and_right, exists_eq, true_and, inv.attached]
        change p = pin ∨ _ ↔ Function.update s.attached pin true p = true
        by_cases own : p = pin
        · rw [own, Function.update_self]
          exact iff_of_true (.inl rfl) rfl
        · rw [Function.update_of_ne own, or_iff_right own]
      · intro j p occupied
        obtain ⟨-, rfl⟩ | old := (held j p).mp occupied
        · exact valid
        · exact inv.valid j p old
  | dettachIrq pin =>
    -- a pin that no slot names is not attached
    have unnamed : (∀ i, ¬Occupies s.gpio.pinIrqHdrTab i pin) → Function.update s.attached pin false = s.attached := by
      intro absent
      refine Function.update_eq_self_iff.mpr (Bool.eq_false_iff.mpr fun yes => ?_).symm
      obtain ⟨i, held⟩ := (inv.attached pin).mpr yes
      exact absent i held
    obtain ⟨invalid, done⟩ | ⟨missing, done⟩ | ⟨valid, i, slot, here, name, done⟩ := dettach_cases secondPort s.gpio pin
    · simp only [PinSession.call, done]
      refine inv.same rfl rfl (unnamed fun i held => ?_)
      have valid := inv.valid i pin held
      rw [invalid] at valid
      cases valid
    · simp only [PinSession.call, done]
      refine inv.same rfl rfl (unnamed fun i held => ?_)
      obtain ⟨slot, inside, name⟩ := occupies_mem held
      exact missing slot inside name
    · have held : ∀ j p, Occupies (s.gpio.pinIrqHdrTab.set i .free) j p ↔ j ≠ i ∧ Occupies s.gpio.pinIrqHdrTab j p :=
        fun j p => occupies_free here
      have own : Occupies s.gpio.pinIrqHdrTab i pin := ⟨getPin_ne valid, slot, here, name⟩
      simp only [PinSession.call, done]
      refine ⟨⟨nofun, ?_, ?_, fun _ mode hdr args errCode => attach_again mode hdr args errCode⟩, ?_⟩
      · exact fun j k p first second => inv.once j k p ((held j p).mp first).2 ((held k p).mp second).2
      · intro p
        simp only [held]
        by_cases mine : p = pin
        · rw [mine, Function.update_self]
          refine iff_of_false ?_ Bool.false_ne_true
          rintro ⟨j, other, occupied⟩
          exact other (inv.once j i pin occupied own)
        · rw [Function.update_of_ne mine, ← inv.attached]
          refine exists_congr fun j => and_iff_right_of_imp fun occupied same => mine ?_
          obtain ⟨-, slot', there, named⟩ := occupied
          rw [same, here] at there
          cases there
          exact named.symm.trans name
      · exact fun j p occupied => inv.valid j p ((held j p).mp occupied).2
  | irqEnable pin enabled => exact inv.same (irqEnable_tab enabled) rfl rfl

theorem allowed_of_sound (sound : (s.call secondPort call).Sound secondPort) :
    s.Allowed secondPort call := by
  cases call with
  | dettachIrq pin => trivial
  | irqEnable pin enabled => trivial
  | attachIrq pin mode hdr args result errCode =>
    intro valid room
    obtain ⟨invalid, -⟩ | ⟨full, -⟩ | ⟨-, i, slot, calls, here, vacant, done⟩ :=
      attach_cases secondPort s.gpio pin mode hdr args result errCode
    · rw [invalid] at valid
      cases valid
    · obtain ⟨slot, inside, vacant⟩ := room
      exact absurd vacant (full slot inside)
    have held : ∀ j p, Occupies (s.gpio.pinIrqHdrTab.set i ⟨pin, mode, hdr, args⟩) j p ↔
        j = i ∧ p = pin ∨ Occupies s.gpio.pinIrqHdrTab j p := fun j p => occupies_claim here vacant (getPin_ne valid)
    have claimed := (held i pin).mpr (.inl ⟨rfl, rfl⟩)
    have unheld : ¬Occupies s.gpio.pinIrqHdrTab i pin := by
      rintro ⟨-, slot', there, name⟩
      rw [here] at there
      cases there
      exact getPin_ne valid (name.symm.trans vacant)
    have refused := sound.refused
    have once := sound.once
    simp only [PinSession.call, done] at refused once
    constructor
    · intro j old
      have same := once j i pin ((held j pin).mpr (.inr old)) claimed
      exact unheld (same ▸ old)
    · by_contra failed
      have error := mt toPinErr_eq_eok.mp failed
      rw [refused (bne_iff_ne.mpr error)] at claimed
      exact unheld claimed

/-- The table is sound throughout just if each attach that finds a slot is for a pin without one and returns `RT_EOK`. -/
theorem pin_irq_table (secondPort : Bool) (calls : List (PinCall Handler Arg)) :
    Throughout (PinSession.Step secondPort) pinStart calls (PinSession.Sound secondPort) ↔
      EachStep (PinSession.Step secondPort) pinStart calls (PinSession.Allowed secondPort) := by
  refine throughout_iff_eachStep (fun s inv => inv.toSound) ?_ ?_ pinStart_inv
  · rintro s call _ inv allowed rfl
    exact inv.kept allowed
  · rintro s call _ - rfl sound
    exact allowed_of_sound sound

/-- The channel of pin 13 is busy: the attach returns `-RT_EBUSY`, and its slot is taken. -/
theorem pin_irq_leaks :
    nrf5xPinAttachIrq false (pinStart : PinSession Unit Unit).gpio 13 0 (some ()) none .busy .success =
        (⟨⟨13, 0, some (), none⟩ :: List.replicate 8 .free, [.inInit 13 ⟨.loToHi, false, false⟩]⟩, .ebusy) ∧
      ¬Throughout (PinSession.Step false) (pinStart : PinSession Unit Unit)
        [.attachIrq 13 0 (some ()) none .busy .success] (PinSession.Sound false) := by
  refine ⟨rfl, fun all => ?_⟩
  have refused := (all _ _ (List.prefix_refl _) (.snoc (.nil _) rfl)).refused rfl
  cases refused

end sessions

end RtThread.Drivers
