import RtThread.Lib.Throughout
import RtThread.Ymodem.Files

/-! A sender and a receiver of `ymodem.c` at the two ends of a line that keeps every byte in order. A read gives up only
where no byte is on the way. -/

set_option autoImplicit false
namespace RtThread.Ymodem
open Lib

/-- `sy` and `ry`, with the bytes under way in both directions. -/
structure Link where
  sender : Sender Sy
  receiver : Receiver Ry
  toReceiver : List UInt8
  toSender : List UInt8

inductive LinkAction where
  /-- the sender reads a byte -/
  | send
  /-- the receiver reads a byte -/
  | recv
  | sendSilence
  | recvSilence
  deriving DecidableEq

def LinkAction.Silent : LinkAction → Prop
  | .sendSilence => True
  | .recvSilence => True
  | _ => False

namespace Link

/-- The sender goes on with an item, behind which `toSender` is left. -/
def sends (tmSec : Nat) (w : Link) (item : Option UInt8) (toSender : List UInt8) : Option Link :=
  (w.sender.step sy tmSec item).map fun next =>
    { w with sender := next.1, toSender := toSender, toReceiver := w.toReceiver ++ next.2 }

def receives (tmSec : Nat) (w : Link) (item : Option UInt8) (toReceiver : List UInt8) : Option Link :=
  (w.receiver.step ry tmSec item).map fun next =>
    { w with receiver := next.1, toReceiver := toReceiver, toSender := w.toSender ++ next.2 }

def step (tmSec : Nat) (w : Link) : LinkAction → Option Link
  | .send =>
    match w.toSender with
    | [] => none
    | b :: rest => w.sends tmSec (some b) rest
  | .recv =>
    match w.toReceiver with
    | [] => none
    | b :: rest => w.receives tmSec (some b) rest
  | .sendSilence => if w.toSender = [] then w.sends tmSec none [] else none
  | .recvSilence => if w.toReceiver = [] then w.receives tmSec none [] else none

abbrev Steps (tmSec : Nat) (w : Link) (a : LinkAction) (w' : Link) : Prop := w.step tmSec a = some w'

end Link

/-! ## What the sender still has to read -/

section split
variable {α : Type} {a b : List α}

def Split (a b : List α) : Prop := ¬a <+: b ∧ ¬b <+: a

theorem Split.append (split : Split a b) (more : List α) : Split (a ++ more) b := by
  refine ⟨fun begins => split.1 ((List.prefix_append a more).trans begins), fun begins => ?_⟩
  exact (List.prefix_or_prefix_of_prefix begins (List.prefix_append a more)).elim split.2 split.1

theorem split_cons {x : α} : Split (x :: a) (x :: b) ↔ Split a b := by
  simp [Split, List.cons_prefix_cons]

theorem split_mid {x y : α} (differ : x ≠ y) (front : List α) : Split (front ++ x :: a) (front ++ y :: b) := by
  induction front with
  | nil => simp [Split, List.cons_prefix_cons, differ, Ne.symm differ]
  | cons z front ih => exact split_cons.mpr ih

end split

def eotAnswers : List UInt8 := [codeNak, codeAck, codeC]

def blocks (rest : List UInt8) : Nat := rest.length / 1024 + 1

def Sender.needs (w : Sender Sy) : List UInt8 :=
  let answers := List.replicate (blocks w.client.rest) codeAck ++ eotAnswers
  match w.pc with
  | .code _ => codeC :: codeAck :: codeC :: answers
  | .ackBegin => codeAck :: codeC :: answers
  | .cBegin => codeC :: answers
  | .ackData => codeAck :: if w.stage = .finishing then eotAnswers else answers
  | .nakEot => eotAnswers
  | .ackEot => [codeAck, codeC]
  | .cEot => [codeC]
  | .ended _ => []

namespace Sender
variable {tmSec : Nat} {w w' : Sender Sy} {b e : UInt8} {out more : List UInt8}

theorem blocks_last {rest : List UInt8} (short : rest.length < 1024) : blocks rest = 1 := by
  rw [blocks, Nat.div_eq_of_lt short]

theorem blocks_more {rest : List UInt8} (long : ¬rest.length < 1024) : blocks rest = blocks (rest.drop 1024) + 1 := by
  simp only [blocks, List.length_drop]
  omega

theorem needs_sendTurn (w : Sender Sy) (going : w.stage ≠ .finishing) :
    (w.sendTurn sy).1.needs = List.replicate (blocks w.client.rest) codeAck ++ eotAnswers := by
  by_cases last : w.client.rest.length < 1024
  · have stage : (w.sendTurn sy).1.stage = .finishing := by simp [sendTurn, sy, Sy.sendData, returned, last]
    have pc : (w.sendTurn sy).1.pc = .ackData := rfl
    rw [blocks_last last]
    simp only [needs, pc, if_pos stage]
    rfl
  · have stage : (w.sendTurn sy).1.stage = w.stage := by simp [sendTurn, sy, Sy.sendData, returned, last]
    have pc : (w.sendTurn sy).1.pc = .ackData := rfl
    have rest : (w.sendTurn sy).1.client.rest = w.client.rest.drop 1024 := rfl
    rw [blocks_more last, List.replicate_succ]
    simp only [needs, pc, rest, stage, if_neg going]
    rfl

theorem waits (begun : ∀ i, w.pc ≠ .code i) : w.step sy tmSec none = none := by
  cases here : w.pc with
  | code i => exact absurd here (begun i)
  | _ => simp only [step, here]

theorem needs_cons (going : ∀ result, w.pc ≠ .ended result) : ∃ e more, w.needs = e :: more := by
  cases here : w.pc with
  | ended result => exact absurd here (going result)
  | _ => exact ⟨_, _, by simp only [needs, here, eotAnswers]; rfl⟩

theorem step_needed (needs : w.needs = e :: more) (taken : w.step sy tmSec (some e) = some (w', out)) :
    w'.needs = more ∧ ∀ i, w'.pc ≠ .code i := by
  cases here : w.pc with
  | code i | ackBegin | nakEot | ackEot | cEot =>
    simp only [Sender.needs, here] at needs
    cases needs
    simp only [step, here, if_pos] at taken
    cases taken
    exact ⟨rfl, nofun⟩
  | cBegin =>
    simp only [Sender.needs, here] at needs
    cases needs
    simp only [step, here, if_pos] at taken
    obtain rfl : _ = w' := congrArg Prod.fst (Option.some.inj taken)
    exact ⟨needs_sendTurn { w with stage := .transmitting, index := 1 } nofun, nofun⟩
  | ackData =>
    simp only [Sender.needs, here] at needs
    cases needs
    simp only [step, here, if_pos] at taken
    split at taken
    next finishing =>
      cases taken
      rw [if_pos finishing]
      exact ⟨rfl, nofun⟩
    next going =>
      obtain rfl : _ = w' := congrArg Prod.fst (Option.some.inj taken)
      rw [if_neg going]
      exact ⟨needs_sendTurn w going, nofun⟩
  | ended result => simp only [Sender.needs, here] at needs; cases needs

theorem step_other (needs : w.needs = e :: more) (begun : ∀ i, w.pc ≠ .code i) (other : b ≠ e) :
    w.step sy tmSec (some b) = some (w.ends (-errAck), []) := by
  cases here : w.pc with
  | code i => exact absurd here (begun i)
  | ended result => simp only [Sender.needs, here] at needs; cases needs
  | _ =>
    simp only [Sender.needs, here] at needs
    cases needs
    simp only [step, here, if_neg other]

end Sender

namespace Link
variable {tmSec : Nat} {w w' : Link} {a : LinkAction}

structure Early (w : Link) : Prop where
  needs : w.sender.needs = w.toSender ++ [codeAck, codeC]
  late : w.sender.pc = .ackData ∧ w.sender.stage = .finishing ∨ w.sender.pc = .nakEot ∨ w.sender.pc = .ackEot
  receiver : w.receiver.pc = .transCode
  eot : ∀ b ∈ w.toReceiver, b = codeEot

inductive Lost (w : Link) : Prop where
  | sender (result : Int) (bad : result ≠ 0) (here : w.sender.pc = .ended result)
  | receiver (result : Int) (bad : result ≠ 0) (here : w.receiver.pc = .ended result)
  /-- what the receiver has sent is not what the sender needs -/
  | split (split : Split w.toSender w.sender.needs) (begins : ∀ i, w.sender.pc = .code i → w.toSender.head? = some codeC)
  | early (early : Early w)

theorem step_receiver (taken : w.step tmSec a = some w') (own : a = .recv ∨ a = .recvSilence) :
    ∃ item out, w.receiver.step ry tmSec item = some (w'.receiver, out) ∧ w'.sender = w.sender ∧
      w'.toSender = w.toSender ++ out ∧ (∀ b, item = some b → w.toReceiver.head? = some b) := by
  rcases own with rfl | rfl
  · simp only [step] at taken
    split at taken
    next => cases taken
    next b rest under =>
      obtain ⟨next, done, rfl⟩ := Option.map_eq_some_iff.mp taken
      exact ⟨some b, next.2, done, rfl, rfl, fun c same => under ▸ same⟩
  · simp only [step] at taken
    split at taken
    next =>
      obtain ⟨next, done, rfl⟩ := Option.map_eq_some_iff.mp taken
      exact ⟨none, next.2, done, rfl, rfl, fun c same => by cases same⟩
    next => cases taken

theorem step_sender (taken : w.step tmSec a = some w') (own : a = .send ∨ a = .sendSilence) :
    ∃ item out, w.sender.step sy tmSec item = some (w'.sender, out) ∧ w'.receiver = w.receiver ∧
      w'.toReceiver = w.toReceiver ++ out ∧
      match item with
      | some b => w.toSender = b :: w'.toSender
      | none => w.toSender = [] := by
  rcases own with rfl | rfl
  · simp only [step] at taken
    split at taken
    next => cases taken
    next b rest under =>
      obtain ⟨next, done, rfl⟩ := Option.map_eq_some_iff.mp taken
      exact ⟨some b, next.2, done, rfl, rfl, under⟩
  · simp only [step] at taken
    split at taken
    next nothing =>
      obtain ⟨next, done, rfl⟩ := Option.map_eq_some_iff.mp taken
      exact ⟨none, next.2, done, rfl, rfl, nothing⟩
    next => cases taken

theorem answers_nak {v v' : Receiver Ry} {item : Option UInt8} {out : List UInt8} (here : v.pc = .transCode)
    (nothing : ∀ b, item = some b → b = codeEot) (taken : v.step ry tmSec item = some (v', out)) :
    ∃ more, out = codeNak :: more := by
  have nak (v : Receiver Ry) (err : Int) : (v.transError ry err).2 = [codeNak] := by
    simp only [Receiver.transError]
    split <;> rfl
  cases item with
  | none =>
    simp only [Receiver.step, here, Receiver.readCode] at taken
    have same := congrArg Prod.snd (Option.some.inj taken)
    exact ⟨[], same.symm.trans (nak _ _)⟩
  | some b =>
    cases nothing b rfl
    simp only [Receiver.step, here, Receiver.readCode] at taken
    have same := congrArg Prod.snd (Option.some.inj taken)
    exact ⟨[], same.symm⟩

section
variable (lost : Lost w) (taken : w.step tmSec a = some w')
include lost taken

theorem Lost.receives (own : a = .recv ∨ a = .recvSilence) :
    Lost w' := by
  obtain ⟨item, out, done, same, sent, from_⟩ := step_receiver taken own
  cases lost with
  | sender result bad here => exact .sender result bad (same ▸ here)
  | receiver result bad here =>
    simp only [Receiver.step, here] at done
    cases done
  | split split begins =>
    refine .split (same ▸ sent ▸ split.append out) fun i here => ?_
    have head := begins i (same ▸ here)
    rw [sent, List.head?_append, head]
    rfl
  | early early =>
    have nothing (b : UInt8) (read : item = some b) : b = codeEot :=
      early.eot b (List.mem_of_mem_head? (from_ b read))
    obtain ⟨more, rfl⟩ := answers_nak early.receiver nothing done
    refine .split ?_ fun i here => ?_
    · rw [sent, same, early.needs]
      exact split_mid (by decide) w.toSender
    · rw [same] at here
      rcases early.late with ⟨there, -⟩ | there | there <;> cases here.symm.trans there

theorem Lost.sends (own : a = .send ∨ a = .sendSilence) :
    Lost w' := by
  obtain ⟨item, out, done, same, sent, from_⟩ := step_sender taken own
  cases lost with
  | sender result bad here =>
    simp only [Sender.step, here] at done
    cases done
  | receiver result bad here => exact .receiver result bad (same ▸ here)
  | split split begins =>
    cases item with
    | none =>
      rw [from_] at split
      exact absurd List.nil_prefix split.1
    | some b =>
      have going (result : Int) : w.sender.pc ≠ .ended result := by
        intro here
        simp only [Sender.step, here] at done
        cases done
      obtain ⟨e, more, needs⟩ := Sender.needs_cons going
      by_cases needed : b = e
      · subst needed
        obtain ⟨needs', begun⟩ := Sender.step_needed needs done
        rw [from_, needs, split_cons] at split
        exact .split (needs' ▸ split) fun i here => absurd here (begun i)
      · have begun (i : Nat) : w.sender.pc ≠ .code i := by
          intro here
          have head := begins i here
          rw [from_] at head
          simp only [Sender.needs, here] at needs
          exact needed ((Option.some.inj head).trans (List.cons.inj needs).1)
        have ended := (Prod.mk.inj (Option.some.inj ((Sender.step_other needs begun needed).symm.trans done))).1
        exact .sender (-errAck) (by decide) (ended ▸ rfl)
  | early early =>
    cases item with
    | none =>
      rcases early.late with ⟨there, -⟩ | there | there <;> simp only [Sender.step, there] at done <;> cases done
    | some b =>
      have needs : w.sender.needs = b :: (w'.toSender ++ [codeAck, codeC]) := by
        rw [early.needs, from_]
        rfl
      obtain ⟨needs', -⟩ := Sender.step_needed needs done
      have eot (answer : out = [codeEot]) : ∀ c ∈ w'.toReceiver, c = codeEot := by
        intro c inside
        rw [sent, answer, List.mem_append, List.mem_singleton] at inside
        exact inside.elim (early.eot c) id
      rcases early.late with ⟨there, stage⟩ | there | there
      · simp only [Sender.needs, there, if_pos stage] at needs
        rw [← (List.cons.inj needs).1] at done
        simp only [Sender.step, there, if_pos, stage] at done
        obtain ⟨next, answer⟩ := Prod.mk.inj (Option.some.inj done)
        exact .early ⟨needs', .inr (.inl (next ▸ rfl)), same ▸ early.receiver, eot answer.symm⟩
      · simp only [Sender.needs, there, eotAnswers] at needs
        rw [← (List.cons.inj needs).1] at done
        simp only [Sender.step, there, if_pos] at done
        obtain ⟨next, answer⟩ := Prod.mk.inj (Option.some.inj done)
        exact .early ⟨needs', .inr (.inr (next ▸ rfl)), same ▸ early.receiver, eot answer.symm⟩
      · simp only [Sender.needs, there] at needs
        have long := congrArg List.length needs
        simp at long

theorem Lost.kept : Lost w' := by
  cases a with
  | send => exact lost.sends taken (.inl rfl)
  | recv => exact lost.receives taken (.inl rfl)
  | sendSilence => exact lost.sends taken (.inr rfl)
  | recvSilence => exact lost.receives taken (.inr rfl)

end

end Link

end RtThread.Ymodem
