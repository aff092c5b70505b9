import RtThread.Lib.Ranking
import Mathlib.Data.Fintype.Basic
import Mathlib.Data.Finset.Card

/-! Counted permits: who waits for one, who has been handed one, and that none is lost or doubled. -/

set_option autoImplicit false

namespace RtThread.Lib
open Function (update)

structure Permits (T : Type) where
  value : Nat
  /-- in the order in which they came -/
  waiting : List T
  /-- a permit was handed to a waiting thread, which has not taken notice yet -/
  granted : T → Bool

inductive PermitEvent (T : Type) where
  /-- a permit is taken at once -/
  | take (t : T)
  | wait (t : T)
  /-- a thread waits no longer, if it waited -/
  | leave (t : T)
  /-- a permit is given back, or handed to a waiting thread -/
  | release (heir : Option T)
  /-- a thread that waited goes on with its permit, or with none -/
  | taken (t : T)
  | refused (t : T)
  | nothing

namespace Permits
variable {R T : Type} [LinearOrder R] [DecidableEq T]

def apply (rank : T → R) (max : Nat) (p : Permits T) : PermitEvent T → Option (Permits T)
  | .take _ => if 0 < p.value then some { p with value := p.value - 1 } else none
  | .wait t =>
    if p.value = 0 ∧ p.granted t = false then some { p with waiting := p.waiting ++ [t] } else none
  | .leave t => some { p with waiting := p.waiting.erase t }
  | .release heir =>
    match p.waiting.find? (foremost rank p.waiting), heir with
    | some t, some u =>
      if u = t ∧ p.granted t = false then
        some { p with
          waiting := p.waiting.eraseP (foremost rank p.waiting)
          granted := Function.update p.granted t true }
      else none
    | none, none => if p.value < max then some { p with value := p.value + 1 } else none
    | _, _ => none
  | .taken t => if p.granted t then some { p with granted := Function.update p.granted t false } else none
  | .refused t => if p.granted t then none else some p
  | .nothing => some p

def replay (rank : T → R) (max : Nat) (p : Permits T) : List (PermitEvent T) → Option (Permits T)
  | [] => some p
  | e :: rest => (p.apply rank max e).bind fun next => next.replay rank max rest

variable {rank : T → R} {max : Nat}

end Permits

def takes {T : Type} (history : List (PermitEvent T)) : Nat :=
  history.countP fun
    | .take _ | .taken _ => true
    | _ => false

namespace Permits
variable {R T : Type} [LinearOrder R] [DecidableEq T] [Fintype T] {rank : T → R} {max : Nat}

def handed (p : Permits T) : Finset T := Finset.univ.filter fun t => p.granted t = true

end Permits

end RtThread.Lib
