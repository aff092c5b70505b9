import RtThread.Lib.Transition
import Mathlib.Logic.Function.Basic

/-! `signal.c` on one processor: a step of a thread is a section that runs with the interrupts disabled, or an allocation.
A thread has a stack of calls and signal handlers, and another thread may put the handling of a signal on top of it. -/

set_option autoImplicit false
namespace RtThread.Signal

abbrev Signo := Fin 32
abbrev Sigset := BitVec 32

/-- `1u << sig_no` -/
def sigMask (signo : Signo) : Sigset := BitVec.twoPow 32 signo

/-- `sig_no >= 0 && sig_no < RT_SIG_MAX` -/
def sigValid (sig : Int) : Option Signo :=
  if valid : 0 ≤ sig ∧ sig < 32 then some ⟨sig.toNat, by omega⟩ else none

inductive Handler where
  | default
  | user (address : Nat)
  deriving DecidableEq

/-- What `rt_signal_install` is given. -/
inductive Disposition where
  | sigIgn
  | sigDfl
  | handler (address : Nat)

/-- A `struct siginfo_node` in a block of the pool; `si_code` and `si_value` are always the same. -/
structure SiginfoNode where
  block : Nat
  signo : Signo
  deriving DecidableEq

inductive Error where
  | eok
  | eintr
  | etimeout
  deriving DecidableEq

/-- A call of `rt_thread_kill`, `_signal_deliver`, `rt_signal_wait` or `rt_thread_handle_sig` in front of one of its
sections, a handler that runs, or the part of `_signal_entry` behind its call. -/
inductive Frame (T : Type) where
  | handler (handler : Handler)
  | killTest (tid : T) (sig : Signo)
  | killAlloc (tid : T) (sig : Signo)
  | killAppend (tid : T) (node : SiginfoNode)
  | deliver (tid : T)
  | waitTest (set : Sigset) (timeout : Int32)
  | waitSleep (set : Sigset)
  | handleSig (cleanState : Bool)
  /-- the interrupts are enabled, and the handler is about to be called -/
  | handleCall (cleanState : Bool) (node : SiginfoNode) (handler : Option Handler)
  | handleFree (cleanState : Bool) (node : SiginfoNode)
  | signalEntry
  deriving DecidableEq

structure Thread (T : Type) where
  sigMask : Sigset
  sigPending : Sigset
  /-- the stack as it was at `sig_ret` -/
  sigRet : Option (List (Frame T))
  sigVectors : Option (Signo → Option Handler)
  siList : List SiginfoNode
  suspended : Bool
  statSignal : Bool
  statSignalPending : Bool
  statSignalWait : Bool
  error : Error
  /-- the calls, the innermost first -/
  stack : List (Frame T)

/-- The threads, and the free blocks of `_siginfo_pool`. -/
structure World (T : Type) where
  threads : T → Thread T
  pool : List Nat

inductive Call (T : Type) where
  | kill (tid : T) (sig : Int)
  | mask (signo : Signo)
  | unmask (signo : Signo)
  | install (signo : Signo) (handler : Disposition)
  | wait (set : Sigset) (timeout : Int32)

inductive SignalAction (T : Type) where
  /-- the code of a thread, or of a handler, makes a call -/
  | call (t : T) (c : Call T)
  /-- the handler returns -/
  | ret (t : T)
  /-- the next section of the innermost call -/
  | go (t : T)
  /-- the thread sleeps in another call of the kernel -/
  | suspend (t : T)
  | resume (t : T)
  /-- the timer of the thread -/
  | timeout (t : T)
  /-- `rt_schedule` returns in a thread that a signal has resumed -/
  | handle (t : T)

/-- The blocks of the pool, RT_SIG_INFO_MAX of them. -/
def blocks : List Nat := List.range 32

def Thread.init {T : Type} : Thread T where
  sigMask := 0
  sigPending := 0
  sigRet := none
  sigVectors := none
  siList := []
  suspended := false
  statSignal := false
  statSignalPending := false
  statSignalWait := false
  error := .eok
  stack := []

/-- Behind `rt_system_signal_init`, with threads that have not yet run. -/
def World.init {T : Type} : World T := ⟨fun _ => .init, blocks⟩

namespace Thread
variable {T : Type}

/-- `sig_pending & sig_mask` -/
def Wanted (th : Thread T) : Prop := th.sigPending &&& th.sigMask ≠ 0

instance (th : Thread T) : Decidable th.Wanted := inferInstanceAs (Decidable (_ ≠ _))

def inCode (th : Thread T) : Bool :=
  match th.stack with
  | [] => true
  | .handler _ :: _ => true
  | _ => false

/-- `tid->sig_vectors[signo]`; `low` is what a read through the null pointer finds. -/
def vector (low : Signo → Option Handler) (th : Thread T) (signo : Signo) : Option Handler :=
  match th.sigVectors with
  | some vectors => vectors signo
  | none => low signo

def rtThreadAllocSig (th : Thread T) : Signo → Option Handler := th.sigVectors.getD fun _ => some .default

def rtSignalInstall (th : Thread T) (signo : Signo) (handler : Disposition) : Thread T :=
  { th with
    sigVectors := some (Function.update th.rtThreadAllocSig signo
      (match handler with
        | .sigIgn => none
        | .sigDfl => some .default
        | .handler address => some (.user address))) }

def rtSignalMask (th : Thread T) (signo : Signo) : Thread T :=
  { th with sigMask := th.sigMask &&& ~~~Signal.sigMask signo }

/-- The section of `rt_signal_unmask`. -/
def rtSignalUnmask (th : Thread T) (t : T) (signo : Signo) : Thread T :=
  let th := { th with sigMask := th.sigMask ||| Signal.sigMask signo }
  if th.Wanted then { th with stack := .deliver t :: th.stack } else th

/-- The first pending signal of the set, and what is left of the list and of the pending signals. -/
def fetch (th : Thread T) (set : Sigset) : Thread T × Option SiginfoNode :=
  match th.siList.find? fun node => Signal.sigMask node.signo &&& set ≠ 0 with
  | none => (th, none)
  | some node =>
    ({ th with
        siList := th.siList.eraseP fun node => Signal.sigMask node.signo &&& set ≠ 0
        sigPending := th.sigPending &&& ~~~Signal.sigMask node.signo }, some node)

/-- The test of the loop of `rt_thread_handle_sig`, and what it does up to the handler or behind the loop. -/
def handleLoop (low : Signo → Option Handler) (th : Thread T) (cleanState : Bool) (rest : List (Frame T)) : Thread T :=
  if th.Wanted then
    match th.siList with
    | [] => { th with statSignal := th.statSignal && !cleanState, stack := rest }
    | node :: siList =>
      { th with
        siList := siList
        sigPending := th.sigPending &&& ~~~Signal.sigMask node.signo
        stack := .handleCall cleanState node (th.vector low node.signo) :: rest }
  else { th with statSignal := th.statSignal && !cleanState, stack := rest }

end Thread

namespace World
variable {T : Type} [DecidableEq T]

def set (w : World T) (t : T) (th : Thread T) : World T := { w with threads := Function.update w.threads t th }

def goto (w : World T) (t : T) (stack : List (Frame T)) : World T := w.set t { w.threads t with stack := stack }

def mpFree (w : World T) : Option SiginfoNode → World T
  | none => w
  | some node => { w with pool := node.block :: w.pool }

/-- `_signal_deliver` by the thread `t`, which goes on with `rest`. -/
def signalDeliver (w : World T) (t tid : T) (rest : List (Frame T)) : World T :=
  let th := w.threads tid
  if ¬th.Wanted then w.goto t rest
  else if th.suspended then
    (w.set tid { th with suspended := false, statSignal := true, statSignalPending := true }).goto t rest
  else if tid = t then w.set t { th with statSignal := true, stack := .handleSig true :: rest }
  else if ¬th.statSignal then
    (w.set tid { th with
      statSignal := true
      statSignalPending := false
      sigRet := some th.stack
      stack := .handleSig false :: .signalEntry :: th.stack }).goto t rest
  else w.goto t rest

/-- The end of `rt_signal_wait`, from `__done` on. -/
def waitDone (w : World T) (t : T) (th : Thread T) (set : Sigset) (rest : List (Frame T)) : World T :=
  let (th, node) := th.fetch set
  (w.set t { th with stack := rest }).mpFree node

def go (low : Signo → Option Handler) (w : World T) (t : T) : Option (World T) :=
  let th := w.threads t
  if th.suspended then none
  else
    match th.stack with
    | [] => none
    | .handler _ :: _ => none
    | .killTest tid sig :: rest =>
      if (w.threads tid).sigPending &&& sigMask sig ≠ 0 ∧ ∃ node ∈ (w.threads tid).siList, node.signo = sig then
        some (w.goto t rest)
      else some (w.goto t (.killAlloc tid sig :: rest))
    | .killAlloc tid sig :: rest =>
      match w.pool with
      | [] => some (w.goto t (.deliver tid :: rest))
      | block :: pool => some ({ w with pool := pool }.goto t (.killAppend tid ⟨block, sig⟩ :: rest))
    | .killAppend tid node :: rest =>
      let receiver := w.threads tid
      some ((w.set tid { receiver with
        siList := receiver.siList ++ [node]
        sigPending := receiver.sigPending ||| sigMask node.signo }).goto t (.deliver tid :: rest))
    | .deliver tid :: rest => some (w.signalDeliver t tid rest)
    | .waitTest set timeout :: rest =>
      if set = 0 then some (w.goto t rest)
      else if th.sigPending &&& set ≠ 0 then some (w.waitDone t th set rest)
      else if timeout = 0 then some (w.goto t rest)
      else some (w.set t { th with suspended := true, statSignalWait := true, stack := .waitSleep set :: rest })
    | .waitSleep set :: rest =>
      let th := { th with statSignalWait := false }
      if th.error = .etimeout then some (w.set t { th with error := .eok, stack := rest })
      else some (w.waitDone t th set rest)
    | .handleSig cleanState :: rest =>
      if th.Wanted ∧ ¬th.statSignalWait then some (w.set t (th.handleLoop low cleanState rest))
      else some (w.goto t rest)
    | .handleCall cleanState node handler :: rest =>
      match handler with
      | some handler => some (w.goto t (.handler handler :: .handleFree cleanState node :: rest))
      | none => some (w.goto t (.handleFree cleanState node :: rest))
    | .handleFree cleanState node :: rest =>
      some ((w.set t ({ th with error := .eintr }.handleLoop low cleanState rest)).mpFree (some node))
    | .signalEntry :: _ =>
      -- a return to a null stack pointer is a fault
      th.sigRet.map fun stack => w.set t { th with sigRet := none, statSignal := false, stack := stack }

def startCall (w : World T) (t : T) (c : Call T) : World T :=
  let th := w.threads t
  match c with
  | .kill tid sig =>
    match sigValid sig with
    | none => w
    | some sig => w.goto t (.killTest tid sig :: th.stack)
  | .mask signo => w.set t (th.rtSignalMask signo)
  | .unmask signo => w.set t (th.rtSignalUnmask t signo)
  | .install signo handler => w.set t (th.rtSignalInstall signo handler)
  | .wait set timeout => w.goto t (.waitTest set timeout :: th.stack)

def act (low : Signo → Option Handler) (w : World T) : SignalAction T → Option (World T)
  | .call t c => if (w.threads t).inCode ∧ ¬(w.threads t).suspended then some (w.startCall t c) else none
  | .ret t =>
    match (w.threads t).stack with
    | .handler _ :: rest => if (w.threads t).suspended then none else some (w.goto t rest)
    | _ => none
  | .go t => w.go low t
  | .suspend t =>
    if (w.threads t).inCode ∧ ¬(w.threads t).suspended then some (w.set t { w.threads t with suspended := true }) else none
  | .resume t => if (w.threads t).suspended then some (w.set t { w.threads t with suspended := false }) else none
  | .timeout t =>
    if (w.threads t).suspended then some (w.set t { w.threads t with suspended := false, error := .etimeout }) else none
  | .handle t =>
    let th := w.threads t
    if th.statSignalPending ∧ ¬th.suspended then
      some (w.set t { th with statSignalPending := false, stack := .handleSig true :: th.stack })
    else none

def Step (low : Signo → Option Handler) (w : World T) (a : SignalAction T) (w' : World T) : Prop := w.act low a = some w'

end World
end RtThread.Signal
