import RtThread.Ymodem.Link

/-! A file on its way from `sy` to `ry`. -/

set_option autoImplicit false
namespace RtThread.Ymodem
open Lib

/-! ## The blocks of a file -/

section blocks
variable {rest : List UInt8}

end blocks

/-! ## The header -/

/-- The name and the length fit into the header packet, each with a NUL behind it, and the length into an `int`. -/
structure Fits (file : Sy) : Prop where
  text : (file.name ++ 0 :: decimal file.content.length ++ [0]).length ≤ 128
  name : (0 : UInt8) ∉ file.name
  length : file.content.length < 2 ^ 31

section header
variable {file : Sy}

end header

/-! ## The way of a session without silences -/

namespace Link
variable {tmSec n : Nat}

/-- The session goes on from `w` to `t`, if no read gives up. -/
def Leads (tmSec : Nat) (w t : Link) : Prop := ∃ actions, Course (Steps tmSec) LinkAction.Silent Lost w actions t

theorem Leads.trans {w mid t : Link} (first : Leads tmSec w mid) (rest : Leads tmSec mid t) : Leads tmSec w t := by
  obtain ⟨before, first⟩ := first
  obtain ⟨after, rest⟩ := rest
  exact ⟨before ++ after, first.trans rest⟩

section ways
variable {s s' : Sender Sy} {v v' : Receiver Ry} {b : UInt8} {out rest : List UInt8}

section stray
variable {q more : List UInt8} {e : UInt8}

end stray

end ways

/-! ## Whole sessions -/

/-- `ry` waits for a file in a directory, and `sy` has waited `i` turns to send it. -/
def start (tmSec i : Nat) (file : Sy) (dir : List UInt8) (payload : List UInt8) (buf : Nat → UInt8) : Link :=
  let receiver := Receiver.recvOnDevice tmSec 0 (some buf) (⟨dir, none, false, 0⟩ : Ry)
  { sender := { Sender.sendOnDevice tmSec 0 (some payload) { file with rest := file.content } with pc := .code i }
    receiver := receiver.1, toReceiver := [], toSender := receiver.2 }

def Ended (w : Link) : Prop := (∃ result, w.sender.pc = .ended result) ∧ ∃ result, w.receiver.pc = .ended result

theorem Ended.final {tmSec : Nat} {w w' : Link} {a : LinkAction} (ended : Ended w) : ¬Steps tmSec w a w' := by
  intro taken
  obtain ⟨⟨r, sent⟩, r', received⟩ := ended
  cases a with
  | send =>
    obtain ⟨item, out, done, -⟩ := step_sender taken (.inl rfl)
    simp only [Sender.step, sent] at done
    cases done
  | sendSilence =>
    obtain ⟨item, out, done, -⟩ := step_sender taken (.inr rfl)
    simp only [Sender.step, sent] at done
    cases done
  | recv =>
    obtain ⟨item, out, done, -⟩ := step_receiver taken (.inl rfl)
    simp only [Receiver.step, received] at done
    cases done
  | recvSilence =>
    obtain ⟨item, out, done, -⟩ := step_receiver taken (.inr rfl)
    simp only [Receiver.step, received] at done
    cases done

section sessions

end sessions
end Link

end RtThread.Ymodem
