import Mathlib.Data.UInt

/-! A group of flags: who waits for which of them, and what a set of flags gives to those who wait. -/

set_option autoImplicit false

namespace RtThread.Lib

structure FlagRequest where
  mask : UInt32
  /-- every flag of the mask, and not just one of them -/
  all : Bool
  clear : Bool
  deriving DecidableEq, Repr

def FlagRequest.satisfied (r : FlagRequest) (value : UInt32) : Bool :=
  if r.all then value &&& r.mask == r.mask else value &&& r.mask != 0

def FlagRequest.receive (r : FlagRequest) (value : UInt32) : Option UInt32 :=
  if r.satisfied value then some (value &&& r.mask) else none

/-- The flags a request that received `bits` takes out of the value. -/
def FlagRequest.cleared (r : FlagRequest) (bits : UInt32) : UInt32 := if r.clear then bits else 0

structure FlagGroup (T : Type) where
  value : UInt32
  waiting : List (T × FlagRequest)
  /-- what a thread has been given that still has to take it -/
  received : T → Option UInt32

inductive FlagEvent (T : Type) where
  | send (flags : UInt32)
  /-- a request that is satisfied at once -/
  | receive (t : T) (r : FlagRequest) (bits : UInt32)
  | wait (t : T) (r : FlagRequest)
  | leave (t : T)
  /-- a request that was satisfied while it waited -/
  | taken (t : T) (bits : UInt32)
  /-- a thread goes away with nothing -/
  | refused (t : T)
  | reset
  | nothing

namespace FlagGroup
variable {T : Type}

/-- The waiting requests that `value` satisfies, and the flags each of them receives. -/
def woken (g : FlagGroup T) (value : UInt32) : List (T × FlagRequest) :=
  g.waiting.filter fun w => w.2.satisfied value

def clearedBy (value : UInt32) (woken : List (T × FlagRequest)) : UInt32 :=
  woken.foldl (fun bits w => bits ||| w.2.cleared (value &&& w.2.mask)) 0

variable [DecidableEq T]

/-- All waiting requests are judged against the same value, and the union of what they take out of it is
cleared when all have received. -/
def send (g : FlagGroup T) (flags : UInt32) : FlagGroup T :=
  let value := g.value ||| flags
  { value := value &&& ~~~(clearedBy value (g.woken value))
    waiting := g.waiting.filter fun w => !w.2.satisfied value
    received t :=
      match (g.woken value).find? fun w => w.1 == t with
      | some (_, r) => r.receive value
      | none => g.received t }

def apply (g : FlagGroup T) : FlagEvent T → Option (FlagGroup T)
  | .send flags => some (g.send flags)
  | .receive _ r bits =>
    if r.receive g.value = some bits then some { g with value := g.value &&& ~~~(r.cleared bits) } else none
  | .wait t r =>
    if r.satisfied g.value = false ∧ g.received t = none then
      some { g with waiting := g.waiting ++ [(t, r)] }
    else none
  | .leave t => some { g with waiting := g.waiting.filter fun w => w.1 ≠ t }
  | .taken t bits =>
    if g.received t = some bits then some { g with received := Function.update g.received t none } else none
  | .refused t => if g.received t = none then some g else none
  | .reset => some { g with value := 0, waiting := [] }
  | .nothing => some g

def replay (g : FlagGroup T) : List (FlagEvent T) → Option (FlagGroup T)
  | [] => some g
  | e :: rest => (g.apply e).bind fun next => next.replay rest

end FlagGroup

theorem FlagRequest.satisfied_cleared {r : FlagRequest} {value : UInt32}
    (missing : r.satisfied value = false) (bits : UInt32) : r.satisfied (value &&& ~~~bits) = false := by
  apply eq_false_of_ne_true
  intro full
  unfold satisfied at missing full
  cases every : r.all with
  | true =>
    simp only [every, if_true, beq_iff_eq] at full
    have whole : value &&& r.mask = r.mask :=
      calc value &&& r.mask = value &&& (value &&& ~~~bits &&& r.mask) := by rw [full]
        _ = value &&& ~~~bits &&& r.mask := by
          rw [← UInt32.and_assoc, ← UInt32.and_assoc, UInt32.and_self]
        _ = r.mask := full
    simp [every, whole] at missing
  | false =>
    simp only [every, Bool.false_eq_true, if_false, bne_eq_false_iff_eq] at missing
    have none : value &&& ~~~bits &&& r.mask = 0 := by
      rw [UInt32.and_assoc, UInt32.and_comm (~~~bits), ← UInt32.and_assoc, missing, UInt32.zero_and]
    simp [every, none] at full

theorem clear_received (value mask : UInt32) : value &&& ~~~(value &&& mask) = value &&& ~~~mask := by
  apply UInt32.toBitVec_inj.mp
  simp only [UInt32.toBitVec_and, UInt32.toBitVec_not]
  ext i
  simp
  cases value.toBitVec[i] <;> simp

end RtThread.Lib
