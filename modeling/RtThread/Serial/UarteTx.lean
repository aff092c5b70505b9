import RtThread.Lib.Transition
import Mathlib.Data.List.Flatten

/-! `_serial_int_tx` over `_uart_putc` of the UARTE driver: a thread that writes a buffer, and the interrupts of the
transfers that it starts. -/

set_option autoImplicit false
namespace RtThread.Serial
open Lib

/-- Where the writer is in `rt_serial_write`. -/
inductive TxPc where
  | entry
  | loop
  /-- in `_uart_putc` of the carriage return, before it stores the byte, and before it calls `nrfx_uarte_tx` -/
  | storeCr
  | startCr
  | waitCr
  /-- in `_uart_putc` of the byte itself -/
  | store
  | start
  | wait
  | returned (n : Int)
  deriving DecidableEq

/-- The driver's byte and its transfer, the completion of `rt_serial_tx_fifo`, and the writer with the part of its
buffer that is left. -/
structure UarteTx where
  txBuffer : UInt8
  inProgress : Bool
  completed : Bool
  size : Int
  data : List UInt8
  pc : TxPc
  /-- the bytes of the transfers so far -/
  started : List UInt8
  /-- a byte was stored while a transfer was in progress -/
  overwritten : Bool
  deriving DecidableEq

inductive TxAction where
  | writer
  | txDone

/-- `rtn` in `_uart_putc` -/
def uartPutcResult : Int := -1

namespace UarteTx

/-- The call of `rt_serial_write` on an opened device. -/
def write (txBuffer : UInt8) (data : List UInt8) : UarteTx where
  txBuffer := txBuffer
  inProgress := false
  completed := false
  size := data.length
  data := data
  pc := .entry
  started := []
  overwritten := false

/-- `p_cb->tx_buffer[0] = c` -/
def storeByte (s : UarteTx) (c : UInt8) (next : TxPc) : UarteTx :=
  { s with txBuffer := c, overwritten := s.overwritten || s.inProgress, pc := next }

/-- `nrfx_uarte_tx`: refused while a transfer is in progress. -/
def nrfxUarteTx (s : UarteTx) : UarteTx :=
  if s.inProgress then s else { s with inProgress := true, started := s.started ++ [s.txBuffer] }

def completionWait (s : UarteTx) (next : TxPc) : Option UarteTx :=
  if s.completed then some { s with completed := false, pc := next } else none

def go (stream : Bool) (s : UarteTx) : Option UarteTx :=
  match s.pc with
  | .entry => some { s with pc := if s.size = 0 then .returned 0 else .loop }
  | .loop =>
    match s.data with
    | [] => some { s with pc := .returned (s.size - s.data.length) }
    | c :: _ => some { s with pc := if c = 10 ∧ stream then .storeCr else .store }
  | .storeCr => some (s.storeByte 13 .startCr)
  | .startCr => some { s.nrfxUarteTx with pc := if uartPutcResult = -1 then .waitCr else .store }
  | .waitCr => s.completionWait .loop
  | .store => some (s.storeByte (s.data.headD 0) .start)
  | .start =>
    if uartPutcResult = -1 then some { s.nrfxUarteTx with pc := .wait }
    else some { s.nrfxUarteTx with data := s.data.tail, pc := .loop }
  | .wait => s.completionWait .store
  | .returned _ => none

/-- NRFX_UARTE_EVT_TX_DONE: `rt_completion_done`. -/
def txDone (s : UarteTx) : Option UarteTx :=
  if s.inProgress then some { s with inProgress := false, completed := true } else none

def act (stream : Bool) (s : UarteTx) : TxAction → Option UarteTx
  | .writer => s.go stream
  | .txDone => s.txDone

def Step (stream : Bool) (s : UarteTx) (a : TxAction) (s' : UarteTx) : Prop := s.act stream a = some s'

def wireText (stream : Bool) (data : List UInt8) : List UInt8 :=
  data.flatMap fun c => if c = 10 ∧ stream then [13, c] else [c]

structure Served (stream : Bool) (txBuffer : UInt8) (data : List UInt8) : Prop where
  order : ∀ actions s, Run (Step stream) (write txBuffer data) actions s → s.started <+: wireText stream data
  kept : ∀ actions s, Run (Step stream) (write txBuffer data) actions s → s.overwritten = false
  result : ∀ actions s n, Run (Step stream) (write txBuffer data) actions s → s.pc = .returned n →
    n = data.length ∧ s.started = wireText stream data
  /-- wherever the run stands, it can still come to the end of the write -/
  returns : ∀ actions s, Run (Step stream) (write txBuffer data) actions s →
    ∃ more s' n, Run (Step stream) s more s' ∧ s'.pc = .returned n

theorem served_nil (stream : Bool) (txBuffer : UInt8) : Served stream txBuffer [] := by
  have reached : ∀ actions s, Run (Step stream) (write txBuffer []) actions s →
      s.size = 0 ∧ s.started = [] ∧ s.overwritten = false ∧ s.inProgress = false ∧ (s.pc = .entry ∨ s.pc = .returned 0) := by
    intro actions s run
    refine Run.invariant (fun s => s.size = 0 ∧ s.started = [] ∧ s.overwritten = false ∧ s.inProgress = false ∧
      (s.pc = .entry ∨ s.pc = .returned 0)) ?_ ⟨rfl, rfl, rfl, rfl, .inl rfl⟩ run
    rintro s a s' ⟨size, started, kept, idle, place⟩ step
    cases a with
    | txDone => simp [Step, act, txDone, idle] at step
    | writer =>
      rcases place with place | place
      · simp only [Step, act, go, place, size, if_true, Option.some.injEq] at step
        subst step
        exact ⟨rfl, started, kept, idle, .inr rfl⟩
      · simp [Step, act, go, place] at step
  refine ⟨fun actions s run => ?_, fun actions s run => (reached actions s run).2.2.1, fun actions s n run done => ?_,
    fun actions s run => ?_⟩
  · rw [(reached actions s run).2.1]
    exact List.nil_prefix
  · obtain ⟨-, started, -, -, place⟩ := reached actions s run
    rcases place with place | place
    · simp [place] at done
    · cases place.symm.trans done
      exact ⟨rfl, started⟩
  · obtain ⟨size, -, -, -, place⟩ := reached actions s run
    rcases place with place | place
    · refine ⟨[.writer], { s with pc := .returned 0 }, 0, .snoc (.nil _) ?_, rfl⟩
      simp [Step, act, go, place, size]
    · exact ⟨[], s, 0, .nil _, place⟩

def firstByte (stream : Bool) (c : UInt8) : UInt8 := if c = 10 ∧ stream then 13 else c

/-- The writer is still at the first byte of its buffer, however many transfers it has started. -/
structure Stuck (stream : Bool) (c : UInt8) (rest : List UInt8) (s : UarteTx) : Prop where
  data : s.data = c :: rest
  size : s.size ≠ 0
  started : ∃ k, s.started = List.replicate k (firstByte stream c)
  byte : s.pc = .startCr ∨ s.pc = .start → s.txBuffer = firstByte stream c
  cr : s.pc = .storeCr → firstByte stream c = 13
  plain : s.pc = .store ∨ s.pc = .start ∨ s.pc = .wait → firstByte stream c = c
  pending : ∀ n, s.pc ≠ .returned n
  /-- there is a transfer or a completion to wait for only while the writer waits -/
  quiet : s.pc ≠ .waitCr → s.pc ≠ .wait → s.inProgress = false ∧ s.completed = false
  settled : s.completed = true → s.inProgress = false
  kept : s.overwritten = false

theorem stuck_write (stream : Bool) (txBuffer c : UInt8) (rest : List UInt8) :
    Stuck stream c rest (write txBuffer (c :: rest)) where
  data := rfl
  size := by simp [write]; omega
  started := ⟨0, rfl⟩
  byte := by simp [write]
  cr := by simp [write]
  plain := by simp [write]
  pending := by simp [write]
  quiet _ _ := ⟨rfl, rfl⟩
  settled _ := rfl
  kept := rfl

section steps
variable {stream : Bool} {c : UInt8} {rest : List UInt8} {s s' : UarteTx}

section
variable (stuck : Stuck stream c rest s)
include stuck

theorem Stuck.txDone (step : s.txDone = some s') : Stuck stream c rest s' := by
  unfold UarteTx.txDone at step
  split at step
  case isFalse => cases step
  case isTrue busy =>
    cases step
    exact { stuck with
      quiet := fun first second => by simp [(stuck.quiet first second).1] at busy
      settled := fun _ => rfl }

/-- A transfer of the first byte is started, and the writer waits for it: it was told that the byte was refused. -/
theorem Stuck.transfer (place : s.pc = .startCr ∨ s.pc = .start)
    {next : TxPc} (waits : next = .waitCr ∨ next = .wait) (plain : next = .wait → firstByte stream c = c) :
    Stuck stream c rest { s.nrfxUarteTx with pc := next } := by
  have idle : s.inProgress = false ∧ s.completed = false := by
    apply stuck.quiet <;> rcases place with place | place <;> simp [place]
  obtain ⟨k, started⟩ := stuck.started
  have same : s.nrfxUarteTx = { s with inProgress := true, started := s.started ++ [s.txBuffer] } := by
    simp [nrfxUarteTx, idle.1]
  rw [same]
  refine ⟨stuck.data, stuck.size, ⟨k + 1, ?_⟩, ?_, ?_, ?_, ?_, ?_, ?_, stuck.kept⟩
  · rw [List.replicate_succ', ← started, stuck.byte place]
  · rcases waits with rfl | rfl <;> simp
  · rcases waits with rfl | rfl <;> simp
  · rcases waits with rfl | rfl
    · simp
    · exact fun _ => plain rfl
  · rcases waits with rfl | rfl <;> simp
  · rcases waits with rfl | rfl <;> simp
  · simp [idle.2]

/-- With no transfer under way the writer goes to the loop, or to the store of the byte that comes first. -/
theorem Stuck.goto (idle : s.inProgress = false ∧ s.completed = false) {next : TxPc}
    (place : next = .loop ∨ next = .storeCr ∧ firstByte stream c = 13 ∨ next = .store ∧ firstByte stream c = c) :
    Stuck stream c rest { s with pc := next } := by
  refine ⟨stuck.data, stuck.size, stuck.started, ?_, ?_, ?_, ?_, fun _ _ => idle, stuck.settled, stuck.kept⟩
  · rcases place with rfl | ⟨rfl, -⟩ | ⟨rfl, -⟩ <;> simp
  · rcases place with rfl | ⟨rfl, same⟩ | ⟨rfl, -⟩ <;> simp [*]
  · rcases place with rfl | ⟨rfl, -⟩ | ⟨rfl, same⟩ <;> simp [*]
  · rcases place with rfl | ⟨rfl, -⟩ | ⟨rfl, -⟩ <;> simp

theorem Stuck.storeByte (idle : s.inProgress = false ∧ s.completed = false)
    {next : TxPc} (place : next = .startCr ∨ next = .start ∧ firstByte stream c = c) :
    Stuck stream c rest (s.storeByte (firstByte stream c) next) := by
  refine ⟨stuck.data, stuck.size, stuck.started, fun _ => rfl, ?_, ?_, ?_, fun _ _ => idle, stuck.settled, ?_⟩
  · rcases place with rfl | ⟨rfl, -⟩ <;> simp [UarteTx.storeByte]
  · rcases place with rfl | ⟨rfl, same⟩ <;> simp [UarteTx.storeByte, *]
  · rcases place with rfl | ⟨rfl, -⟩ <;> simp [UarteTx.storeByte]
  · simp [UarteTx.storeByte, stuck.kept, idle.1]

theorem Stuck.completionWait {next : TxPc} (step : s.completionWait next = some s')
    (place : next = .loop ∨ next = .storeCr ∧ firstByte stream c = 13 ∨ next = .store ∧ firstByte stream c = c) :
    Stuck stream c rest s' := by
  unfold UarteTx.completionWait at step
  split at step
  case isFalse => cases step
  case isTrue done =>
    cases step
    have idle := stuck.settled done
    refine ⟨stuck.data, stuck.size, stuck.started, ?_, ?_, ?_, ?_, fun _ _ => ⟨idle, rfl⟩, fun _ => idle, stuck.kept⟩
    · rcases place with rfl | ⟨rfl, -⟩ | ⟨rfl, -⟩ <;> simp
    · rcases place with rfl | ⟨rfl, same⟩ | ⟨rfl, -⟩ <;> simp [*]
    · rcases place with rfl | ⟨rfl, -⟩ | ⟨rfl, same⟩ <;> simp [*]
    · rcases place with rfl | ⟨rfl, -⟩ | ⟨rfl, -⟩ <;> simp

theorem Stuck.go (step : s.go stream = some s') : Stuck stream c rest s' := by
  have quiet := stuck.quiet
  unfold UarteTx.go at step
  cases place : s.pc with
  | entry =>
    simp only [place, stuck.size, if_false, Option.some.injEq] at step
    exact step ▸ stuck.goto (quiet (by simp [place]) (by simp [place])) (.inl rfl)
  | loop =>
    simp only [place, stuck.data, Option.some.injEq] at step
    rw [← step, ← stuck.data]
    refine stuck.goto (quiet (by simp [place]) (by simp [place])) (.inr ?_)
    by_cases feed : c = 10 ∧ stream = true
    · exact .inl (by simp [firstByte, feed])
    · exact .inr (by simp [firstByte, feed])
  | storeCr =>
    simp only [place, Option.some.injEq] at step
    rw [← step, ← stuck.cr place]
    exact stuck.storeByte (quiet (by simp [place]) (by simp [place])) (.inl rfl)
  | startCr =>
    simp only [place, uartPutcResult, if_true, Option.some.injEq] at step
    exact step ▸ stuck.transfer (.inl place) (.inl rfl) (fun same => by cases same)
  | waitCr =>
    rw [place] at step
    exact stuck.completionWait step (.inl rfl)
  | store =>
    simp only [place, stuck.data, List.headD_cons, Option.some.injEq] at step
    have same := stuck.plain (.inl place)
    have stored := stuck.storeByte (quiet (by simp [place]) (by simp [place])) (.inr ⟨rfl, same⟩)
    rw [same] at stored
    exact step ▸ stored
  | start =>
    simp only [place, uartPutcResult, if_true, Option.some.injEq] at step
    exact step ▸ stuck.transfer (.inr place) (.inr rfl) (fun _ => stuck.plain (.inr (.inl place)))
  | wait =>
    rw [place] at step
    exact stuck.completionWait step (.inr (.inr ⟨rfl, stuck.plain (.inr (.inr place))⟩))
  | returned n => exact absurd place (stuck.pending n)

end

end steps

theorem stuck_run {stream : Bool} {txBuffer c : UInt8} {rest : List UInt8} {actions : List TxAction} {s : UarteTx}
    (run : Run (Step stream) (write txBuffer (c :: rest)) actions s) : Stuck stream c rest s :=
  run.invariant (Stuck stream c rest)
    (fun _ a _ stuck step => match a with
      | .writer => stuck.go step
      | .txDone => stuck.txDone step)
    (stuck_write stream txBuffer c rest)

/-- The serial layer takes −1 for a byte that was refused, and the driver answers every byte so: only a write of no
bytes is served. -/
theorem write_served (stream : Bool) (txBuffer : UInt8) (data : List UInt8) :
    Served stream txBuffer data ↔ data = [] := by
  constructor
  · intro served
    cases data with
    | nil => rfl
    | cons c rest =>
      obtain ⟨more, s', n, run, done⟩ := served.returns [] _ (.nil _)
      exact absurd done ((stuck_run run).pending n)
  · rintro rfl
    exact served_nil stream txBuffer

theorem write_served_letter : ¬ Served false 0 [65] := by
  intro served
  have run : Run (Step false) (write 0 [65]) _ _ :=
    @run_of_foldlM _ _ _ [.writer, .writer, .writer, .writer, .txDone, .writer, .writer, .writer] _ _ rfl
  exact absurd (served.order _ _ run) (by decide)

end UarteTx
end RtThread.Serial
