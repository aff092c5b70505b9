import Mathlib.Data.List.Chain
import Mathlib.Data.List.TakeWhile
import RtThread.Drivers.RingBlkDescriptors

/-! Queues of blocks that lie one behind the other, taken off a ring block buffer at once. -/

set_option autoImplicit false
namespace RtThread.Drivers
open Lib

structure RbbBlkQueue where
  blocks : Nat
  blkNum : Nat

section code
variable (rbb : Rbb)

end code

/-! ## What the loops take -/

variable {rbb rbb' : Rbb} {used free : List Nat} {limit : UInt32}

def Rbb.Ascends (rbb : Rbb) (i j : Nat) : Prop := (rbb.blkSet i).buf ≤ (rbb.blkSet j).buf

def Rbb.total (rbb : Rbb) : List Nat → Nat
  | [] => 0
  | i :: rest => rbb.size i + rbb.total rest

/-- The blocks of a queue, along `blk_list` -/
def RbbBlkQueue.taken (queue : RbbBlkQueue) (rbb : Rbb) : List Nat :=
  (queue.blocks :: rbb.behind queue.blocks).take queue.blkNum

structure PutRun (rbb : Rbb) (run : List Nat) : Prop where
  put : ∀ i ∈ run, (rbb.blkSet i).status = .put
  ascends : run.IsChain rbb.Ascends

section run
variable {last i j : Nat} {total : UInt32} {ys run : List Nat}

end run

/-! ## Reading the whole list -/

variable {i : Nat} {rest : List Nat}

section sound
variable {total : UInt32} {run : List Nat}

theorem PutRun.front {more : List Nat} (isRun : PutRun rbb (run ++ more)) : PutRun rbb run :=
  ⟨fun i inside => isRun.put i (List.mem_append_left _ inside), isRun.ascends.left_of_append⟩

end sound

end RtThread.Drivers
