import RtThread.Spi.Bus
import Mathlib.Data.Nat.Basic

/-! The transfer calls of `spi_core.c` over `spixfer` of the nRF5x driver: what they report, and where they leave chip
select and the bus lock. -/

set_option autoImplicit false
namespace RtThread.Spi

/-- `struct rt_spi_message`; of its buffers, whether they are there. -/
structure SpiMessage where
  sendBuf : Bool
  recvBuf : Bool
  length : UInt32
  csTake : Bool
  csRelease : Bool
  deriving DecidableEq

/-- The lengths of `nrfx_spi_xfer_desc_t`. -/
structure XferDesc where
  txLength : UInt32
  rxLength : UInt32
  deriving DecidableEq

/-- A caller and its device: how often the caller holds the bus lock, whether the device owns the bus, whether its chip
select is asserted, and the transfers of the call so far. -/
structure SpiLine where
  hold : Nat
  owner : Bool
  selected : Bool
  sent : List XferDesc
  deriving DecidableEq

/-- An unsigned length where the caller reads an `rt_ssize_t`. -/
def ssize (n : UInt32) : Int := if n.toNat < 2147483648 then n.toNat else (n.toNat : Int) - 4294967296

/-- `-RT_ERROR` and `-RT_EIO` -/
def rtError : Int := -1
def rtEio : Int := -8

namespace SpiLine

/-- `spixfer`; `nrfx n` tells whether the transfer after `n` others of the call succeeds. -/
def spixfer (nrfx : Nat → Bool) (s : SpiLine) (message : SpiMessage) : SpiLine × Int :=
  ({ s with
      selected := (s.selected || message.csTake) && !message.csRelease
      sent := s.sent ++
        [⟨if message.sendBuf then message.length else 0, if message.recvBuf then message.length else 0⟩] },
    if nrfx s.sent.length then ssize message.length else 0)

/-- The bus lock, and the bus set up for the device; `configureOk` is what `ops->configure` answers. -/
def withBus {R : Type} (configureOk : Bool) (s : SpiLine) (refused failed : R) (use : SpiLine → SpiLine × R) :
    SpiLine × R :=
  if mutexHoldMax ≤ s.hold then (s, refused)
  else if s.owner || configureOk then
    let used := use { s with hold := s.hold + 1, owner := true }
    ({ used.1 with hold := used.1.hold - 1 }, used.2)
  else (s, failed)

/-- What `rt_spi_send_then_send` and `rt_spi_send_then_recv` do with the bus. -/
def sendThen (nrfx : Nat → Bool) (s : SpiLine) (message1 message2 : SpiMessage) : SpiLine × Int :=
  let first := s.spixfer nrfx message1
  if first.2 < 0 then first
  else
    let second := first.1.spixfer nrfx message2
    if second.2 < 0 then second else (second.1, 0)

def rtSpiSendThenSend (nrfx : Nat → Bool) (configureOk : Bool) (s : SpiLine) (sendLength1 sendLength2 : UInt32) :
    SpiLine × Int :=
  s.withBus configureOk rtEio rtError
    (·.sendThen nrfx ⟨true, false, sendLength1, true, false⟩ ⟨true, false, sendLength2, false, true⟩)

def rtSpiSendThenRecv (nrfx : Nat → Bool) (configureOk : Bool) (s : SpiLine) (sendLength recvLength : UInt32) :
    SpiLine × Int :=
  s.withBus configureOk rtEio rtError
    (·.sendThen nrfx ⟨true, false, sendLength, true, false⟩ ⟨false, true, recvLength, false, true⟩)

def rtSpiTransfer (nrfx : Nat → Bool) (configureOk : Bool) (s : SpiLine) (sendBuf recvBuf : Bool) (length : UInt32) :
    SpiLine × Int :=
  s.withBus configureOk rtEio rtError (·.spixfer nrfx ⟨sendBuf, recvBuf, length, true, true⟩)

/-- The loop of `rt_spi_transfer_message`, and the messages that it leaves. -/
def xferLoop (nrfx : Nat → Bool) (s : SpiLine) : List SpiMessage → SpiLine × List SpiMessage
  | [] => (s, [])
  | message :: next =>
    if (s.spixfer nrfx message).2 < 0 then ((s.spixfer nrfx message).1, message :: next)
    else xferLoop nrfx (s.spixfer nrfx message).1 next

def rtSpiTransferMessage (nrfx : Nat → Bool) (configureOk : Bool) (s : SpiLine) (message : List SpiMessage) :
    SpiLine × List SpiMessage :=
  match message with
  | [] => (s, [])
  | _ => s.withBus configureOk message message (·.xferLoop nrfx message)

end SpiLine

def leaves (selected : Bool) : List SpiMessage → Bool
  | [] => selected
  | message :: next => leaves ((selected || message.csTake) && !message.csRelease) next

/-- What a call is promised that has `messages` to send: it has succeeded only if every transfer of its own has, it gives
chip select back if it took it and was to give it back, and it gives the lock back. -/
structure Served (nrfx : Nat → Bool) (messages : List SpiMessage) (s : SpiLine) (after : SpiLine) (success : Prop) :
    Prop where
  honest : success → ∀ i < after.sent.length, nrfx i = true
  deselected : (∃ message ∈ messages.take after.sent.length, message.csTake = true) →
    leaves s.selected messages = false → after.selected = false
  unlocked : after.hold = s.hold

def SpiMessage.overlong (message : SpiMessage) : Bool := 2147483648 ≤ message.length

/-- The messages that are tried, from transfer `n` on. -/
def tried (nrfx : Nat → Bool) (n : Nat) : List SpiMessage → List SpiMessage
  | [] => []
  | message :: next => message :: if nrfx n && message.overlong then [] else tried nrfx (n + 1) next

def stops (nrfx : Nat → Bool) (n : Nat) : List SpiMessage → Bool
  | [] => false
  | message :: next => nrfx n && message.overlong || stops nrfx (n + 1) next

section lemmas
variable (nrfx : Nat → Bool)

theorem ssize_neg (message : SpiMessage) : ssize message.length < 0 ↔ message.overlong = true := by
  have bound : message.length.toNat < 4294967296 := message.length.toNat_lt
  have le : 2147483648 ≤ message.length ↔ 2147483648 ≤ message.length.toNat := by
    rw [UInt32.le_iff_toNat_le]
    rfl
  rw [SpiMessage.overlong, decide_eq_true_iff, le]
  unfold ssize
  split <;> omega

theorem spixfer_neg (s : SpiLine) (message : SpiMessage) :
    (s.spixfer nrfx message).2 < 0 ↔ (nrfx s.sent.length && message.overlong) = true := by
  unfold SpiLine.spixfer
  cases nrfx s.sent.length with
  | false => simp
  | true => simpa using ssize_neg message

theorem tried_begins (n : Nat) (messages : List SpiMessage) : tried nrfx n messages <+: messages := by
  induction messages generalizing n with
  | nil => exact List.nil_prefix
  | cons message next ih =>
    rw [tried, List.cons_prefix_cons]
    refine ⟨rfl, ?_⟩
    split
    · exact List.nil_prefix
    · exact ih _

theorem tried_of_stops_eq_false {n : Nat} {messages : List SpiMessage} (goes : stops nrfx n messages = false) :
    tried nrfx n messages = messages := by
  induction messages generalizing n with
  | nil => rfl
  | cons message next ih =>
    rw [stops, Bool.or_eq_false_iff] at goes
    rw [tried, goes.1, ih goes.2]
    rfl

theorem xferLoop_spec (s : SpiLine) (messages : List SpiMessage) :
    ((s.xferLoop nrfx messages).1.hold = s.hold ∧
      (s.xferLoop nrfx messages).1.selected = leaves s.selected (tried nrfx s.sent.length messages) ∧
      (s.xferLoop nrfx messages).1.sent.length = s.sent.length + (tried nrfx s.sent.length messages).length) ∧
    ((s.xferLoop nrfx messages).2 = [] ↔ stops nrfx s.sent.length messages = false) := by
  induction messages generalizing s with
  | nil => simp [SpiLine.xferLoop, tried, leaves, stops]
  | cons message next ih =>
    have length : (s.spixfer nrfx message).1.sent.length = s.sent.length + 1 := by simp [SpiLine.spixfer]
    have neg := spixfer_neg nrfx s message
    rw [SpiLine.xferLoop, tried, stops]
    by_cases stop : (nrfx s.sent.length && message.overlong) = true
    · rw [if_pos (neg.mpr stop), if_pos stop, stop]
      exact ⟨⟨rfl, rfl, length⟩, by simp⟩
    · rw [if_neg (mt neg.mp stop), if_neg stop, Bool.eq_false_iff.mpr stop, Bool.false_or]
      have rest := ih (s.spixfer nrfx message).1
      rw [length] at rest
      refine ⟨⟨rest.1.1, rest.1.2.1, rest.1.2.2.trans ?_⟩, rest.2⟩
      simp only [List.length_cons]
      omega

theorem sendThen_eq_xferLoop (s : SpiLine) (message1 message2 : SpiMessage) :
    (s.sendThen nrfx message1 message2).1 = (s.xferLoop nrfx [message1, message2]).1 ∧
      ((s.sendThen nrfx message1 message2).2 = 0 ↔ (s.xferLoop nrfx [message1, message2]).2 = []) := by
  simp only [SpiLine.sendThen, SpiLine.xferLoop]
  by_cases first : (s.spixfer nrfx message1).2 < 0
  · simp only [if_pos first]
    exact ⟨trivial, ⟨fun done => by omega, nofun⟩⟩
  · simp only [if_neg first]
    by_cases second : ((s.spixfer nrfx message1).1.spixfer nrfx message2).2 < 0
    · simp only [if_pos second]
      exact ⟨trivial, ⟨fun done => by omega, nofun⟩⟩
    · simp [if_neg second]

theorem spixfer_eq_xferLoop (s : SpiLine) (message : SpiMessage) :
    (s.spixfer nrfx message).1 = (s.xferLoop nrfx [message]).1 := by
  simp only [SpiLine.xferLoop]
  split <;> rfl

/-- The result is the length only if the transfer succeeded and the length is no negative number, or if the length is
zero. -/
theorem spixfer_length (s : SpiLine) (message : SpiMessage) :
    (s.spixfer nrfx message).2 = message.length.toNat ↔
      nrfx s.sent.length = true ∧ message.overlong = false ∨ message.length = 0 := by
  have zero : message.length = 0 ↔ message.length.toNat = 0 := UInt32.toNat_inj.symm
  have neg := ssize_neg message
  have size : ssize message.length = message.length.toNat ↔ ¬ssize message.length < 0 := by
    have bound : message.length.toNat < 4294967296 := message.length.toNat_lt
    unfold ssize
    split <;> omega
  unfold SpiLine.spixfer
  cases nrfx s.sent.length with
  | false => simp only [Bool.false_eq_true, if_false, false_and, false_or, zero]; omega
  | true =>
    simp only [if_true, true_and, size, neg, Bool.not_eq_true]
    refine ⟨.inl, ?_⟩
    rintro (short | none)
    · exact short
    · rw [SpiMessage.overlong, none]
      decide

end lemmas

inductive SpiRequest where
  | sendThenSend (sendLength1 sendLength2 : UInt32)
  | sendThenRecv (sendLength recvLength : UInt32)
  | transfer (sendBuf recvBuf : Bool) (length : UInt32)
  | transferMessage (message : List SpiMessage)

namespace SpiRequest

def messages : SpiRequest → List SpiMessage
  | .sendThenSend sendLength1 sendLength2 =>
    [⟨true, false, sendLength1, true, false⟩, ⟨true, false, sendLength2, false, true⟩]
  | .sendThenRecv sendLength recvLength =>
    [⟨true, false, sendLength, true, false⟩, ⟨false, true, recvLength, false, true⟩]
  | .transfer sendBuf recvBuf length => [⟨sendBuf, recvBuf, length, true, true⟩]
  | .transferMessage message => message

def after (nrfx : Nat → Bool) (configureOk : Bool) (s : SpiLine) : SpiRequest → SpiLine
  | .sendThenSend sendLength1 sendLength2 => (s.rtSpiSendThenSend nrfx configureOk sendLength1 sendLength2).1
  | .sendThenRecv sendLength recvLength => (s.rtSpiSendThenRecv nrfx configureOk sendLength recvLength).1
  | .transfer sendBuf recvBuf length => (s.rtSpiTransfer nrfx configureOk sendBuf recvBuf length).1
  | .transferMessage message => (s.rtSpiTransferMessage nrfx configureOk message).1

/-- The call reports success: RT_EOK, the length, or no message left. -/
def Succeeds (nrfx : Nat → Bool) (configureOk : Bool) (s : SpiLine) : SpiRequest → Prop
  | .sendThenSend sendLength1 sendLength2 => (s.rtSpiSendThenSend nrfx configureOk sendLength1 sendLength2).2 = 0
  | .sendThenRecv sendLength recvLength => (s.rtSpiSendThenRecv nrfx configureOk sendLength recvLength).2 = 0
  | .transfer sendBuf recvBuf length => (s.rtSpiTransfer nrfx configureOk sendBuf recvBuf length).2 = length.toNat
  | .transferMessage message => (s.rtSpiTransferMessage nrfx configureOk message).2 = []

def Granted (configureOk : Bool) (s : SpiLine) : Prop := s.hold < mutexHoldMax ∧ (s.owner || configureOk) = true

/-- All transfers succeed, or a failing `rt_spi_transfer` has a length that its result of 0 is not; a call that stops at
a message of 2 ^ 31 bytes or more reports an error, but must not leave out the message that gives chip select back. -/
def Holds (nrfx : Nat → Bool) (selected : Bool) (request : SpiRequest) : Prop :=
  if stops nrfx 0 request.messages then
    (∃ message ∈ tried nrfx 0 request.messages, message.csTake = true) →
      leaves selected request.messages = false → leaves selected (tried nrfx 0 request.messages) = false
  else (∀ i < request.messages.length, nrfx i = true) ∨
    ∃ sendBuf recvBuf length, request = .transfer sendBuf recvBuf length ∧ length ≠ 0

section calls
variable {nrfx : Nat → Bool} {configureOk : Bool} {s : SpiLine}

theorem withBus_granted {R : Type} {refused failed : R} {use : SpiLine → SpiLine × R} (granted : Granted configureOk s) :
    s.withBus configureOk refused failed use =
      (let used := use { s with hold := s.hold + 1, owner := true }
       ({ used.1 with hold := used.1.hold - 1 }, used.2)) := by
  rw [SpiLine.withBus, if_neg (Nat.not_le.mpr granted.1), if_pos granted.2]

theorem withBus_denied {R : Type} {refused failed : R} {use : SpiLine → SpiLine × R}
    (denied : ¬Granted configureOk s) :
    (s.withBus configureOk refused failed use).1 = s ∧
      ((s.withBus configureOk refused failed use).2 = refused ∨ (s.withBus configureOk refused failed use).2 = failed) := by
  unfold SpiLine.withBus
  split
  case isTrue => exact ⟨rfl, .inl rfl⟩
  case isFalse below =>
    rw [if_neg fun ready => denied ⟨Nat.not_le.mp below, ready⟩]
    exact ⟨rfl, .inr rfl⟩

theorem denied_served (denied : ¬Granted configureOk s) (request : SpiRequest) (fresh : s.sent = []) :
    Served nrfx request.messages s (request.after nrfx configureOk s) (request.Succeeds nrfx configureOk s) := by
  have same : request.after nrfx configureOk s = s := by
    cases request with
    | sendThenSend | sendThenRecv | transfer => exact (withBus_denied denied).1
    | transferMessage message =>
      cases message with
      | nil => rfl
      | cons => exact (withBus_denied denied).1
  refine ⟨fun _ i below => ?_, fun took _ => ?_, by rw [same]⟩
  · simp [same, fresh] at below
  · simp [same, fresh] at took

theorem granted_after (granted : Granted configureOk s) (request : SpiRequest) (some : request ≠ .transferMessage []) :
    request.after nrfx configureOk s =
      (let looped := SpiLine.xferLoop nrfx { s with hold := s.hold + 1, owner := true } request.messages
       { looped.1 with hold := looped.1.hold - 1 }) := by
  cases request with
  | sendThenSend sendLength1 sendLength2 =>
    rw [after, SpiLine.rtSpiSendThenSend, withBus_granted granted]
    simp only [(sendThen_eq_xferLoop nrfx _ _ _).1]
    rfl
  | sendThenRecv sendLength recvLength =>
    rw [after, SpiLine.rtSpiSendThenRecv, withBus_granted granted]
    simp only [(sendThen_eq_xferLoop nrfx _ _ _).1]
    rfl
  | transfer sendBuf recvBuf length =>
    rw [after, SpiLine.rtSpiTransfer, withBus_granted granted]
    simp only [spixfer_eq_xferLoop]
    rfl
  | transferMessage message =>
    cases message with
    | nil => exact absurd rfl some
    | cons => exact congrArg Prod.fst (withBus_granted granted)

theorem granted_succeeds (granted : Granted configureOk s) (request : SpiRequest) (fresh : s.sent = []) :
    request.Succeeds nrfx configureOk s ↔ stops nrfx 0 request.messages = false ∧
      ∀ sendBuf recvBuf length, request = .transfer sendBuf recvBuf length → nrfx 0 = true ∨ length = 0 := by
  have loop := (xferLoop_spec nrfx { s with hold := s.hold + 1, owner := true } request.messages).2
  simp only [fresh, List.length_nil] at loop
  cases request with
  | sendThenSend sendLength1 sendLength2 =>
    rw [Succeeds, SpiLine.rtSpiSendThenSend, withBus_granted granted]
    simp only [(sendThen_eq_xferLoop nrfx _ _ _).2]
    simp only [messages] at loop ⊢
    simpa [fresh] using loop
  | sendThenRecv sendLength recvLength =>
    rw [Succeeds, SpiLine.rtSpiSendThenRecv, withBus_granted granted]
    simp only [(sendThen_eq_xferLoop nrfx _ _ _).2]
    simp only [messages] at loop ⊢
    simpa [fresh] using loop
  | transfer sendBuf recvBuf length =>
    rw [Succeeds, SpiLine.rtSpiTransfer, withBus_granted granted, fresh]
    have result := spixfer_length nrfx { s with hold := s.hold + 1, owner := true } ⟨sendBuf, recvBuf, length, true, true⟩
    simp only [fresh, List.length_nil] at result
    have short : length = 0 → SpiMessage.overlong ⟨sendBuf, recvBuf, length, true, true⟩ = false := by
      rintro rfl
      rfl
    simp only [messages, stops, Bool.or_false, SpiRequest.transfer.injEq]
    refine result.trans ⟨?_, ?_⟩
    · rintro (⟨sent, under⟩ | none)
      · exact ⟨by simp [under], fun _ _ _ _ => .inl sent⟩
      · exact ⟨by simp [short none], fun _ _ _ same => .inr (same.2.2 ▸ none)⟩
    · rintro ⟨goes, honest⟩
      rcases honest _ _ _ ⟨rfl, rfl, rfl⟩ with sent | none
      · exact .inl ⟨sent, by simpa [sent] using goes⟩
      · exact .inr none
  | transferMessage message =>
    cases message with
    | nil => simp [Succeeds, SpiLine.rtSpiTransferMessage, messages, stops]
    | cons first next =>
      have opened : s.rtSpiTransferMessage nrfx configureOk (first :: next) =
        s.withBus configureOk (first :: next) (first :: next) (·.xferLoop nrfx (first :: next)) := rfl
      rw [Succeeds, opened, withBus_granted granted, fresh]
      exact loop.trans ⟨fun goes => ⟨goes, nofun⟩, And.left⟩

theorem served_iff {messages : List SpiMessage} {line : SpiLine} {success : Prop} (hold : line.hold = s.hold)
    (selected : line.selected = leaves s.selected (tried nrfx 0 messages))
    (length : line.sent.length = (tried nrfx 0 messages).length) :
    Served nrfx messages s line success ↔
      (success → ∀ i < (tried nrfx 0 messages).length, nrfx i = true) ∧
        ((∃ message ∈ tried nrfx 0 messages, message.csTake = true) → leaves s.selected messages = false →
          leaves s.selected (tried nrfx 0 messages) = false) := by
  have part : messages.take line.sent.length = tried nrfx 0 messages := by
    rw [length]
    exact (List.prefix_iff_eq_take.mp (tried_begins nrfx 0 messages)).symm
  constructor
  · intro served
    refine ⟨length ▸ served.honest, fun took gives => ?_⟩
    rw [← selected]
    exact served.deselected (part ▸ took) gives
  · rintro ⟨honest, deselected⟩
    exact ⟨length.symm ▸ honest, fun took gives => selected ▸ deselected (part ▸ took) gives, hold⟩

/-- A call is served just if it is denied the bus, or its transfers and messages are as `Holds` says. -/
theorem request_served (nrfx : Nat → Bool) (configureOk : Bool) (hold : Nat) (owner selected : Bool)
    (request : SpiRequest) :
    Served nrfx request.messages ⟨hold, owner, selected, []⟩ (request.after nrfx configureOk ⟨hold, owner, selected, []⟩)
        (request.Succeeds nrfx configureOk ⟨hold, owner, selected, []⟩) ↔
      ¬Granted configureOk ⟨hold, owner, selected, []⟩ ∨ request.Holds nrfx selected := by
  by_cases granted : Granted configureOk ⟨hold, owner, selected, []⟩
  case neg => exact iff_of_true (denied_served granted request rfl) (.inl granted)
  case pos =>
    rw [or_iff_right (not_not_intro granted)]
    by_cases none : request = .transferMessage []
    · subst none
      refine iff_of_true ⟨fun _ i below => absurd below (Nat.not_lt_zero i), ?_, rfl⟩ ?_
      · rintro ⟨message, inside, -⟩
        simp [messages] at inside
      · simp [Holds, messages, stops]
    have loop := (xferLoop_spec nrfx ⟨hold + 1, true, selected, []⟩ request.messages).1
    simp only [List.length_nil, Nat.zero_add] at loop
    have shape := @granted_after nrfx _ _ granted request none
    rw [served_iff (by rw [shape]; simp [loop.1]) (by rw [shape]; exact loop.2.1) (by rw [shape]; exact loop.2.2),
      granted_succeeds granted request rfl, Holds]
    cases goes : stops nrfx 0 request.messages with
    | true => simp
    | false =>
      rw [tried_of_stops_eq_false nrfx goes]
      simp only [true_and, Bool.false_eq_true, if_false]
      constructor
      · rintro ⟨honest, -⟩
        by_cases truthful : ∀ sendBuf recvBuf length,
            request = .transfer sendBuf recvBuf length → nrfx 0 = true ∨ length = 0
        · exact .inl (honest truthful)
        · right
          by_contra short
          exact truthful fun sendBuf recvBuf length same => .inr (by_contra fun long =>
            short ⟨sendBuf, recvBuf, length, same, long⟩)
      · rintro (all | ⟨sendBuf, recvBuf, length, rfl, long⟩)
        · exact ⟨fun _ => all, fun _ gives => gives⟩
        · refine ⟨fun truthful i below => ?_, fun _ gives => gives⟩
          obtain rfl : i = 0 := Nat.lt_one_iff.mp below
          exact (truthful sendBuf recvBuf length rfl).resolve_right long

theorem request_failed_unseen : ∃ (nrfx : Nat → Bool) (s : SpiLine) (request : SpiRequest),
    nrfx 0 = false ∧ (request.after nrfx true s).sent.length = 2 ∧ request.Succeeds nrfx true s ∧
      ¬Served nrfx request.messages s (request.after nrfx true s) (request.Succeeds nrfx true s) := by
  refine ⟨fun n => n == 1, ⟨0, true, false, []⟩, .sendThenRecv 1 4, rfl, rfl, rfl, fun served => ?_⟩
  exact absurd (served.honest rfl 0 (by decide)) (by decide)

end calls

end SpiRequest

end RtThread.Spi
