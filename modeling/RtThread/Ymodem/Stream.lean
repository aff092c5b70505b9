import RtThread.Ymodem.Receiver

/-! What the receiver of `ymodem.c` hands out, and when it returns RT_EOK, for every stream. -/

set_option autoImplicit false
namespace RtThread.Ymodem
open Lib

/-- Packets that came intact, with the numbers 1, 2, 3 and on, modulo 256. -/
def Numbered (packets : List Packet) : Prop :=
  ∀ k p, packets[k]? = some p → p.Intact ∧ p.number = UInt8.ofNat (k + 1)

def Packet.Closes (p : Packet) : Prop :=
  p.number = 0 ∧ p.inverse = 0xFF ∧ p.crc = crc16 p.payload ∧ p.payload.head? = some 0

instance (p : Packet) : Decidable p.Closes := inferInstanceAs (Decidable (_ ∧ _))

theorem numbered_nil : Numbered [] := fun _ _ => nofun

theorem numbered_snoc {packets : List Packet} {p : Packet} :
    Numbered (packets ++ [p]) ↔ Numbered packets ∧ p.Intact ∧ p.number = UInt8.ofNat (packets.length + 1) := by
  constructor
  · intro numbered
    refine ⟨fun k q found => numbered k q ?_, numbered packets.length p (by simp)⟩
    rw [List.getElem?_append_left (List.getElem?_eq_some_iff.mp found).1]
    exact found
  · rintro ⟨numbered, last⟩ k q found
    rcases Nat.lt_trichotomy k packets.length with less | same | more
    · exact numbered k q (by rwa [List.getElem?_append_left less] at found)
    · cases same
      have own : p = q := by simpa using found
      exact own ▸ last
    · have inside := (List.getElem?_eq_some_iff.mp found).1
      rw [List.length_append, List.length_singleton] at inside
      omega

structure Log.Counted (log : Log) : Prop where
  earlier : ∀ packets ∈ log.earlier, Numbered packets
  handed : Numbered log.handed

structure Log.Closed (log : Log) : Prop where
  phases : ∀ result ∈ log.phases, result = 0
  closing : ∃ p, log.closing = some p ∧ p.Closes

namespace Receiver
variable {S : Type}

structure Sound (w : Receiver S) : Prop where
  counted : w.log.Counted
  closed : w.pc = .ended 0 → w.log.Closed

def arrives (w : Receiver S) (n dataSz : Nat) (item : Option UInt8) : Option Packet :=
  let read := w.readData n item
  match read.2 with
  | some i => if i = n then some (packetIn read.1.buf dataSz) else none
  | none => none

/-- `on_data` gets the packet. -/
def Hands (callbacks : Callbacks S) (w : Receiver S) (p : Packet) : Prop :=
  callbacks.onData.isSome = true ∧ p.Intact ∧ ¬(w.stage = .established ∧ p.number = 0)

instance (callbacks : Callbacks S) (w : Receiver S) (p : Packet) : Decidable (Hands callbacks w p) :=
  inferInstanceAs (Decidable (_ ∧ _))

/-- A packet that arrives intact has the next number, and the session is not closed after a file that was given up. -/
def allows (callbacks : Callbacks S) (w : Receiver S) (item : Option UInt8) : Bool :=
  match w.pc with
  | .transData dataSz =>
    match w.arrives (dataSz + 4) dataSz item with
    | some p => Hands callbacks w p → p.number = UInt8.ofNat (w.log.handed.length + 1)
    | none => true
  | .finData _ =>
    match w.arrives 132 128 item with
    | some p => p.Closes → ∀ result ∈ w.log.phases, result = 0
    | none => true
  | _ => true

structure Quiet (w w' : Receiver S) : Prop where
  counted : w'.log.Counted ↔ w.log.Counted
  going : w'.pc ≠ .ended 0

theorem sound_iff {w : Receiver S} (going : w.pc ≠ .ended 0) : w.Sound ↔ w.log.Counted :=
  ⟨Sound.counted, fun counted => ⟨counted, fun ended => absurd ended going⟩⟩

theorem Quiet.sound {w w' : Receiver S} (quiet : Quiet w w') (going : w.pc ≠ .ended 0) : w'.Sound ↔ w.Sound :=
  (sound_iff quiet.going).trans (quiet.counted.trans (sound_iff going).symm)

section quiet
variable (callbacks : Callbacks S) (w : Receiver S)

theorem readData_log (n : Nat) (item : Option UInt8) :
    (w.readData n item).1.log = w.log ∧ (w.readData n item).1.pc = w.pc ∧ (w.readData n item).1.stage = w.stage := by
  cases item <;> exact ⟨rfl, rfl, rfl⟩

theorem readCode_log (item : Option UInt8) : (w.readCode item).1.log = w.log := by
  cases item <;> rfl

theorem ends_quiet {result : Int} (bad : result ≠ 0) : Quiet w (w.ends result) :=
  ⟨.rfl, fun same => bad (RecvPc.ended.inj same)⟩

theorem doTrans_quiet : Quiet w w.doTrans.1 := by
  refine ⟨⟨fun counted => ?_, fun counted => ?_⟩, nofun⟩
  · exact ⟨fun packets inside => counted.earlier packets (List.mem_append_left _ inside),
      counted.earlier _ (List.mem_append_right _ List.mem_cons_self)⟩
  · refine ⟨fun packets inside => ?_, numbered_nil⟩
    rcases List.mem_append.mp inside with before | last
    · exact counted.earlier packets before
    · exact List.mem_singleton.mp last ▸ counted.handed

theorem doFin_quiet (result : Int) : Quiet w (w.doFin callbacks result).1 :=
  ⟨⟨fun counted => ⟨counted.earlier, counted.handed⟩, fun counted => ⟨counted.earlier, counted.handed⟩⟩, nofun⟩

theorem begins_log (payload : List UInt8) : (w.begins callbacks payload).1.log = w.log := by
  unfold begins
  split <;> rfl

theorem Quiet.of_log {w w' w'' : Receiver S} (quiet : Quiet w' w'') (same : w'.log = w.log) : Quiet w w'' :=
  ⟨quiet.counted.trans (same ▸ .rfl), quiet.going⟩

theorem next_quiet (payload : List UInt8) :
    Quiet w (if (w.begins callbacks payload).2 then (w.begins callbacks payload).1.doTrans
      else ((w.begins callbacks payload).1.ends (-errCan), [])).1 := by
  have same := begins_log callbacks w payload
  split
  case isTrue => exact (doTrans_quiet _).of_log same
  case isFalse => exact (ends_quiet _ (by decide)).of_log same

theorem handshakeData_quiet (dataSz i : Nat) : Quiet w (w.handshakeData callbacks dataSz i).1 := by
  simp only [handshakeData]
  split
  · exact ends_quiet w (by decide)
  split
  · exact ends_quiet w (by decide)
  split
  · exact ends_quiet w (by decide)
  exact next_quiet callbacks w _

theorem transError_quiet (err : Int) : Quiet w (w.transError callbacks err).1 := by
  simp only [transError]
  split
  · exact (doFin_quiet callbacks _ err).of_log rfl
  · exact ⟨.rfl, nofun⟩

theorem transTurn_quiet (result : Except Int UInt8) : Quiet w (w.transTurn callbacks result).1 := by
  cases result with
  | error err => exact transError_quiet callbacks w err
  | ok code =>
    simp only [transTurn]
    split
    · exact (doFin_quiet callbacks _ _).of_log rfl
    · exact ⟨.rfl, nofun⟩

theorem transData_counted (dataSz i : Nat) :
    (w.transData callbacks dataSz i).1.log.Counted ↔ w.log.Counted ∧
      (i = dataSz + 4 → Hands callbacks w (packetIn w.buf dataSz) →
        (packetIn w.buf dataSz).number = UInt8.ofNat (w.log.handed.length + 1)) := by
  have silent (same : (w.transData callbacks dataSz i).1.log = w.log)
      (refused : i = dataSz + 4 → ¬Hands callbacks w (packetIn w.buf dataSz)) :
      (w.transData callbacks dataSz i).1.log.Counted ↔ w.log.Counted ∧
        (i = dataSz + 4 → Hands callbacks w (packetIn w.buf dataSz) →
          (packetIn w.buf dataSz).number = UInt8.ofNat (w.log.handed.length + 1)) := by
    rw [same]
    exact ⟨fun counted => ⟨counted, fun whole hands => absurd hands (refused whole)⟩, And.left⟩
  by_cases whole : i = dataSz + 4
  case neg => exact silent (by simp [transData, whole]) fun same => absurd same whole
  by_cases number : (packetIn w.buf dataSz).number.toNat + (packetIn w.buf dataSz).inverse.toNat = 0xFF
  case neg => exact silent (by simp [transData, whole, number]) fun _ hands => number hands.2.1.1
  by_cases again : w.stage = .established ∧ (packetIn w.buf dataSz).number = 0
  case pos => exact silent (by simp only [transData]; grind) fun _ hands => hands.2.2 again
  by_cases crc : (packetIn w.buf dataSz).crc = crc16 (packetIn w.buf dataSz).payload
  case neg => exact silent (by simp [transData, whole, number, again, crc]) fun _ hands => crc hands.2.1.2
  cases given : callbacks.onData with
  | none =>
    refine silent (by simp [transData, whole, number, again, crc, given]) fun _ hands => ?_
    have some := hands.1
    rw [given] at some
    cases some
  | some onData =>
    have handed : (w.transData callbacks dataSz i).1.log =
        { w.log with handed := w.log.handed ++ [packetIn w.buf dataSz] } := by
      simp [transData, whole, number, again, crc, given]
    have hands : Hands callbacks w (packetIn w.buf dataSz) := ⟨by rw [given]; rfl, ⟨number, crc⟩, again⟩
    rw [handed]
    constructor
    · rintro ⟨earlier, numbered⟩
      obtain ⟨before, -, last⟩ := numbered_snoc.mp numbered
      exact ⟨⟨earlier, before⟩, fun _ _ => last⟩
    · rintro ⟨⟨earlier, before⟩, next⟩
      exact ⟨earlier, numbered_snoc.mpr ⟨before, hands.2.1, next whole hands⟩⟩

theorem finData_sound (dataSz i : Nat) (going : w.pc ≠ .ended 0) :
    (w.finData callbacks dataSz i).1.Sound ↔ w.Sound ∧
      (i = 132 → (packetIn w.buf 128).Closes → ∀ result ∈ w.log.phases, result = 0) := by
  have silent (quiet : Quiet w (w.finData callbacks dataSz i).1)
      (refused : i = 132 → ¬(packetIn w.buf 128).Closes) :
      (w.finData callbacks dataSz i).1.Sound ↔ w.Sound ∧
        (i = 132 → (packetIn w.buf 128).Closes → ∀ result ∈ w.log.phases, result = 0) := by
    rw [quiet.sound going]
    exact ⟨fun sound => ⟨sound, fun whole closes => absurd closes (refused whole)⟩, And.left⟩
  by_cases whole : i ≠ 132
  case pos =>
    have refused : w.finData callbacks dataSz i = (w.ends (-errDsz), []) := by simp only [finData, if_pos whole]
    exact silent (refused ▸ ends_quiet w (by decide)) fun same => absurd same whole
  by_cases number : (packetIn w.buf 128).number ≠ 0 ∨ (packetIn w.buf 128).inverse ≠ 0xFF
  case pos =>
    have refused : w.finData callbacks dataSz i = (w.ends (-errSeq), []) := by
      simp only [finData, if_neg whole, if_pos number]
    exact silent (refused ▸ ends_quiet w (by decide)) fun _ closes => number.elim (absurd closes.1) (absurd closes.2.1)
  by_cases crc : (packetIn w.buf 128).crc ≠ crc16 (packetIn w.buf 128).payload
  case pos =>
    have refused : w.finData callbacks dataSz i = (w.ends (-errCrc), []) := by
      simp only [finData, if_neg whole, if_neg number, if_pos crc]
    exact silent (refused ▸ ends_quiet w (by decide)) fun _ closes => crc closes.2.2.1
  have name : (packetIn w.buf 128).payload.head? = some (w.buf 3) := rfl
  by_cases null : w.buf 3 ≠ 0
  case pos =>
    have next : w.finData callbacks dataSz i =
        if (w.begins callbacks (slice w.buf 3 dataSz)).2 then (w.begins callbacks (slice w.buf 3 dataSz)).1.doTrans
        else ((w.begins callbacks (slice w.buf 3 dataSz)).1.ends (-errCan), []) := by
      simp only [finData, if_neg whole, if_neg number, if_neg crc, if_pos null]
    refine silent (next ▸ next_quiet callbacks w _) fun _ closes => null ?_
    exact Option.some.inj (name.symm.trans closes.2.2.2)
  have closed : w.finData callbacks dataSz i =
      ({ w.ends 0 with stage := .finished, log := { w.log with closing := some (packetIn w.buf 128) } }, [codeAck]) := by
    simp only [finData, if_neg whole, if_neg number, if_neg crc, if_neg null]
  simp only [ne_eq, not_or, Decidable.not_not] at whole number crc null
  have closes : (packetIn w.buf 128).Closes := ⟨number.1, number.2, crc, name.trans (congrArg some null)⟩
  rw [closed]
  constructor
  · rintro ⟨counted, closed⟩
    exact ⟨⟨⟨counted.earlier, counted.handed⟩, fun ended => absurd ended going⟩, fun _ _ => (closed rfl).phases⟩
  · rintro ⟨⟨counted, -⟩, ended⟩
    exact ⟨⟨counted.earlier, counted.handed⟩, fun _ => ⟨ended whole closes, _, rfl, closes⟩⟩

end quiet

section runs
variable {callbacks : Callbacks S} {tmSec : Nat} {w w' : Receiver S} {item : Option UInt8} {out : List UInt8}

theorem step_sound (taken : step callbacks tmSec w item = some (w', out)) :
    w'.Sound ↔ w.Sound ∧ allows callbacks w item = true := by
  have silent (going : w.pc ≠ .ended 0) (free : allows callbacks w item = true) (quiet : Quiet w w') :
      w'.Sound ↔ w.Sound ∧ allows callbacks w item = true := by
    rw [quiet.sound going]
    exact ⟨fun sound => ⟨sound, free⟩, And.left⟩
  have code := readCode_log w item
  have data (n : Nat) := readData_log w n item
  cases here : w.pc with
  | handshakeCode i =>
    refine silent (by simp [here]) (by simp only [allows, here]) ?_
    simp only [step, here] at taken
    split at taken
    · cases taken
      exact ⟨code ▸ .rfl, by simp [waitData]⟩
    split at taken
    · cases taken
      exact ⟨code ▸ .rfl, by simp⟩
    · cases taken
      exact (ends_quiet _ (by decide)).of_log code
  | handshakeData dataSz =>
    refine silent (by simp [here]) (by simp only [allows, here]) ?_
    simp only [step, here] at taken
    split at taken
    · obtain rfl : _ = w' := congrArg Prod.fst (Option.some.inj taken)
      exact (handshakeData_quiet callbacks _ dataSz _).of_log (data _).1
    · cases taken
      exact ⟨(data _).1 ▸ .rfl, by simp [(data _).2.1.trans here]⟩
  | transCode =>
    refine silent (by simp [here]) (by simp only [allows, here]) ?_
    simp only [step, here] at taken
    split at taken
    · cases taken
      exact ⟨code ▸ .rfl, by simp [waitData]⟩
    split at taken
    · obtain rfl : _ = w' := congrArg Prod.fst (Option.some.inj taken)
      exact (doFin_quiet callbacks _ 0).of_log code
    · obtain rfl : _ = w' := congrArg Prod.fst (Option.some.inj taken)
      exact (transError_quiet callbacks _ _).of_log code
  | transData dataSz =>
    have going : w.pc ≠ .ended 0 := by simp [here]
    simp only [step, here] at taken
    split at taken
    next i read =>
      obtain rfl : _ = w' := congrArg Prod.fst (Option.some.inj taken)
      obtain ⟨same, -, stage⟩ := data (dataSz + 4)
      have turn := transTurn_quiet callbacks ((w.readData (dataSz + 4) item).1.transData callbacks dataSz i).1
        ((w.readData (dataSz + 4) item).1.transData callbacks dataSz i).2
      rw [sound_iff turn.going, turn.counted, transData_counted, same, sound_iff going]
      refine and_congr_right fun _ => ?_
      have hands (p : Packet) : Hands callbacks (w.readData (dataSz + 4) item).1 p ↔ Hands callbacks w p := by
        simp only [Hands, stage]
      simp only [allows, here, arrives, read, hands]
      by_cases whole : i = dataSz + 4
      · simp only [if_pos whole, decide_eq_true_iff]
        exact ⟨fun next => next whole, fun next _ => next⟩
      · simp only [if_neg whole]
        exact ⟨fun _ => trivial, fun _ same => absurd same whole⟩
    next read =>
      cases taken
      refine silent going ?_ ⟨(data _).1 ▸ .rfl, by simp [(data _).2.1.trans here]⟩
      simp only [allows, here, arrives, read]
  | finEot =>
    refine silent (by simp [here]) (by simp only [allows, here]) ?_
    simp only [step, here] at taken
    split at taken
    · cases taken
      exact ⟨code ▸ .rfl, by simp⟩
    · cases taken
      exact (ends_quiet _ (by decide)).of_log code
  | finHeader =>
    refine silent (by simp [here]) (by simp only [allows, here]) ?_
    simp only [step, here] at taken
    split at taken
    · cases taken
      exact ⟨code ▸ .rfl, by simp [waitData]⟩
    · cases taken
      exact (ends_quiet _ (by decide)).of_log code
  | finData dataSz =>
    have going : w.pc ≠ .ended 0 := by simp [here]
    simp only [step, here] at taken
    split at taken
    next i read =>
      obtain rfl : _ = w' := congrArg Prod.fst (Option.some.inj taken)
      obtain ⟨same, still, -⟩ := data 132
      have ongoing : (w.readData 132 item).1.pc ≠ .ended 0 := by simp [still.trans here]
      rw [finData_sound callbacks _ dataSz i ongoing, sound_iff ongoing, same, sound_iff going]
      refine and_congr_right fun _ => ?_
      simp only [allows, here, arrives, read]
      by_cases whole : i = 132
      · simp only [if_pos whole, decide_eq_true_iff]
        exact ⟨fun ended => ended whole, fun ended _ => ended⟩
      · simp only [if_neg whole]
        exact ⟨fun _ => trivial, fun _ same => absurd same whole⟩
    next read =>
      cases taken
      refine silent going ?_ ⟨(data _).1 ▸ .rfl, by simp [(data _).2.1.trans here]⟩
      simp only [allows, here, arrives, read]
  | ended result => simp only [step, here] at taken; cases taken

theorem recvOnDevice_sound (opened : Int) (buffer : Option (Nat → UInt8)) (client : S) :
    (recvOnDevice tmSec opened buffer client).1.Sound := by
  have counted : Log.Counted ⟨[], [], [], none⟩ := ⟨fun _ => nofun, numbered_nil⟩
  unfold recvOnDevice
  split
  next failed => exact ⟨counted, fun ended => absurd (RecvPc.ended.inj ended) failed⟩
  split
  next => exact ⟨counted, nofun⟩
  next =>
    simp only
    split
    · exact ⟨counted, nofun⟩
    · exact ⟨counted, nofun⟩

/-- Whatever arrives, what it hands out is numbered and the session ends well only with EOT and the closing header,
as long as no intact packet is sent again or left out, and no session is closed after a file that was given up. -/
theorem recv_stream (opened : Int) (buffer : Option (Nat → UInt8)) (client : S)
    {stream : List (Option UInt8 × List UInt8)}
    (run : Run (Performs (step callbacks tmSec)) (recvOnDevice tmSec opened buffer client).1 stream w) :
    w.Sound ↔
      Run (Performs (guarded (step callbacks tmSec) (allows callbacks))) (recvOnDevice tmSec opened buffer client).1
        stream w := by
  constructor
  · intro sound
    induction run with
    | nil => exact .nil _
    | snoc _ taken ih =>
      obtain ⟨before, allowed⟩ := (step_sound taken).mp sound
      exact .snoc (ih before) ((if_pos allowed).trans taken)
  · intro run
    refine run.invariant Sound (fun w item w' sound taken => ?_) (recvOnDevice_sound opened buffer client)
    obtain ⟨allowed, taken⟩ := guarded_eq_some taken
    exact (step_sound taken).mpr ⟨sound, allowed⟩

end runs

section demo

def takeAll : Callbacks Unit := ⟨none, some fun _ _ => ((), codeAck), none⟩

/-- A packet with 128 bytes of data, from the code on. -/
def shortPacket (index fill : UInt8) : List (Option UInt8) :=
  (codeSoh :: packetBytes index (List.replicate 128 fill)).map some

theorem onePacket : ∃ labels w, labels.map Prod.fst = shortPacket 0 0x61 ++ shortPacket 1 0x78 ∧
    Run (Performs (step takeAll 1)) (recvOnDevice 1 0 (some fun _ => 0) ()).1 labels w ∧ w.pc = .transCode ∧
    w.stage = .transmitting ∧ w.log = ⟨[[]], [sentPacket 1 (List.replicate 128 0x78)], [], none⟩ := by
  have long (b : UInt8) : (List.replicate 128 b).length = 128 := List.length_replicate
  obtain ⟨header, w, sent, first, here, -, -, log⟩ :=
    run_header (w := (recvOnDevice 1 0 (some fun _ => 0) ()).1) takeAll 1 codeSoh rfl rfl (long 0x61) rfl
  obtain ⟨packet, w', again, second, there, stage, -, log'⟩ :=
    run_packet 1 codeSoh 1 here rfl (long 0x78) (fun same => absurd same.2 (by decide))
      (show takeAll.onData = some fun _ _ => ((), codeAck) from rfl) rfl
  refine ⟨_, w', ?_, first.trans second, there, stage, by rw [log', log]; rfl⟩
  rw [List.map_append, sent, again]
  rfl

theorem recv_stream_onePacket : ∃ labels w, labels.map Prod.fst = shortPacket 0 0x61 ++ shortPacket 1 0x78 ∧
    Run (Performs (guarded (step takeAll 1) (allows takeAll))) (recvOnDevice 1 0 (some fun _ => 0) ()).1 labels w := by
  obtain ⟨labels, w, same, run, here, -, log⟩ := onePacket
  have numbered : Numbered [sentPacket 1 (List.replicate 128 0x78)] :=
    numbered_snoc.mpr ⟨numbered_nil, sent_intact 1 _, rfl⟩
  have counted : w.log.Counted := log ▸ ⟨fun packets inside => List.mem_singleton.mp inside ▸ numbered_nil, numbered⟩
  exact ⟨labels, w, same, (recv_stream 0 _ () run).mp ⟨counted, here ▸ nofun⟩⟩

/-- The packet 1 comes again because its ACK was lost, and is handed out twice. -/
theorem recv_stream_repeated :
    ¬∀ (w : Receiver Unit) (stream : List (Option UInt8 × List UInt8)),
      stream.map Prod.fst = shortPacket 0 0x61 ++ shortPacket 1 0x78 ++ shortPacket 1 0x78 →
      Run (Performs (step takeAll 1)) (recvOnDevice 1 0 (some fun _ => 0) ()).1 stream w → w.Sound := by
  intro claimed
  obtain ⟨labels, w, same, run, here, stage, log⟩ := onePacket
  have long : (List.replicate 128 (0x78 : UInt8)).length = 128 := List.length_replicate
  obtain ⟨packet, w', again, more, -, -, -, log'⟩ :=
    run_packet 1 codeSoh 1 here rfl long (fun same => absurd same.2 (by decide))
      (show takeAll.onData = some fun _ _ => ((), codeAck) from rfl) rfl
  have sound := claimed w' (labels ++ packet) (by rw [List.map_append, same, again]; rfl) (run.trans more)
  have number := (sound.counted.handed 1 (sentPacket 1 (List.replicate 128 0x78)) (by rw [log', log]; rfl)).2
  exact absurd number (by decide)

end demo

end Receiver
end RtThread.Ymodem
