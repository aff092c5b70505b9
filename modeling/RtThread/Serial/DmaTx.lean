import RtThread.Lib.Throughout

/-! `_serial_dma_tx` and the TX_DMADONE interrupt: any number of threads write, each from a buffer of its own. -/

set_option autoImplicit false
namespace RtThread.Serial
open Lib

/-- Where a thread is in `_serial_dma_tx`. -/
inductive WriterPc (B : Type) where
  | idle
  /-- its buffer is in the data queue, and it has not looked at the flag yet -/
  | pushed (data : B)
  /-- it has set the flag, and has not called `dma_transmit` yet -/
  | starting (data : B)

/-- `struct rt_serial_tx_dma`, with the threads, the number of transfers under way, and the buffers that entered the
queue and those handed to `dma_transmit` so far. -/
structure DmaTx (T B : Type) where
  dataQueue : List B
  activated : Bool
  pc : T → WriterPc B
  outstanding : Nat
  accepted : List B
  handed : List B

inductive DmaTxAction (T B : Type) where
  /-- `rt_data_queue_push`, once there is room -/
  | push (t : T) (data : B)
  /-- the critical section that tests and sets the flag -/
  | test (t : T)
  | transmit (t : T)
  | txDmadone

/-- The size of the data queue, from `rt_serial_open`. -/
def queueSize : Nat := 8

namespace DmaTx
variable {T B : Type}

/-- `rt_serial_open` -/
def opened : DmaTx T B where
  dataQueue := []
  activated := false
  pc _ := .idle
  outstanding := 0
  accepted := []
  handed := []

/-- `ops->dma_transmit` -/
def dmaTransmit (s : DmaTx T B) (data : B) : DmaTx T B :=
  { s with handed := s.handed ++ [data], outstanding := s.outstanding + 1 }

/-- TX_DMADONE of `rt_hw_serial_isr`. -/
def txDmadone (s : DmaTx T B) : DmaTx T B :=
  let popped := { s with dataQueue := s.dataQueue.tail, outstanding := s.outstanding - 1 }
  match popped.dataQueue with
  | data :: _ => { popped with activated := true }.dmaTransmit data
  | [] => { popped with activated := false }

section steps
variable [DecidableEq T]

def goto (s : DmaTx T B) (t : T) (pc : WriterPc B) : DmaTx T B := { s with pc := Function.update s.pc t pc }

def act (s : DmaTx T B) : DmaTxAction T B → Option (DmaTx T B)
  | .push t data =>
    match s.pc t with
    | .idle =>
      if s.dataQueue.length < queueSize then
        some { s.goto t (.pushed data) with dataQueue := s.dataQueue ++ [data], accepted := s.accepted ++ [data] }
      else none
    | _ => none
  | .test t =>
    match s.pc t with
    | .pushed data =>
      if s.activated then some (s.goto t .idle) else some { s.goto t (.starting data) with activated := true }
    | _ => none
  | .transmit t =>
    match s.pc t with
    | .starting data => some ((s.goto t .idle).dmaTransmit data)
    | _ => none
  | .txDmadone => if 0 < s.outstanding then some s.txDmadone else none

def Step (s : DmaTx T B) (a : DmaTxAction T B) (s' : DmaTx T B) : Prop := s.act a = some s'

end steps

def Starting (s : DmaTx T B) : Prop := ∃ t data, s.pc t = .starting data

structure Sound (s : DmaTx T B) : Prop where
  order : s.handed <+: s.accepted
  one : s.outstanding ≤ 1
  flag : s.activated = true ↔ s.outstanding = 1 ∨ s.Starting
  /-- once nothing is under way, everything has been handed over -/
  done : s.outstanding = 0 → (∀ t, s.pc t = .idle) → s.handed = s.accepted

/-- The buffer that a thread hands over is the one that the interrupt will take from the queue. -/
def HeadFirst (s : DmaTx T B) : DmaTxAction T B → Prop
  | .transmit t => ∀ data, s.pc t = .starting data → s.dataQueue.head? = some data
  | _ => True

/-- The queue holds what is still to be handed over, after the buffer of the transfer under way. -/
structure Inv (s : DmaTx T B) : Prop where
  flag : s.activated = true ↔ s.outstanding = 1 ∨ s.Starting
  one : s.outstanding ≤ 1
  single : ∀ t u data other, s.pc t = .starting data → s.pc u = .starting other → t = u
  apart : s.Starting → s.outstanding = 0
  waiting : s.outstanding = 0 → s.handed ++ s.dataQueue = s.accepted
  sending : s.outstanding = 1 → ∃ data, s.dataQueue = data :: s.dataQueue.tail ∧ s.handed ++ s.dataQueue.tail = s.accepted
  /-- while nothing is under way, some thread will still look at the flag -/
  owed : s.activated = false → s.dataQueue ≠ [] → ∃ t data, s.pc t = .pushed data

theorem inv_opened : Inv (opened : DmaTx T B) where
  flag := by simp [opened, Starting]
  one := by simp [opened]
  single := by simp [opened]
  apart := by simp [opened]
  waiting := by simp [opened]
  sending := by simp [opened]
  owed := by simp [opened]

theorem Inv.sound {s : DmaTx T B} (inv : Inv s) : Sound s where
  order := by
    rcases Nat.le_one_iff_eq_zero_or_eq_one.mp inv.one with none | one
    · exact ⟨_, inv.waiting none⟩
    · obtain ⟨data, -, whole⟩ := inv.sending one
      exact ⟨_, whole⟩
  one := inv.one
  flag := inv.flag
  done none idle := by
    have rest : s.activated = false := by
      cases flag : s.activated with
      | false => rfl
      | true =>
        rcases inv.flag.mp flag with one | ⟨t, data, starting⟩
        · omega
        · simp [idle t] at starting
    have empty : s.dataQueue = [] := by
      by_contra full
      obtain ⟨t, data, pushed⟩ := inv.owed rest full
      simp [idle t] at pushed
    rw [← inv.waiting none, empty, List.append_nil]

section steps
variable [DecidableEq T] {s s' : DmaTx T B} {t : T}

theorem goto_pc_self (pc : WriterPc B) : (s.goto t pc).pc t = pc := Function.update_self ..

theorem goto_pc_of_ne (pc : WriterPc B) {u : T} (apart : u ≠ t) : (s.goto t pc).pc u = s.pc u :=
  Function.update_of_ne apart ..

theorem starting_goto {pc : WriterPc B} (other : ∀ data, pc ≠ .starting data) {u : T} {data : B}
    (starting : (s.goto t pc).pc u = .starting data) : u ≠ t ∧ s.pc u = .starting data := by
  by_cases same : u = t
  · rw [same, goto_pc_self] at starting
    exact absurd starting (other data)
  · exact ⟨same, (goto_pc_of_ne pc same).symm.trans starting⟩

theorem starting_goto_iff {pc : WriterPc B} (before : ∀ data, s.pc t ≠ .starting data)
    (after : ∀ data, pc ≠ .starting data) : (s.goto t pc).Starting ↔ s.Starting := by
  constructor
  · rintro ⟨u, data, starting⟩
    exact ⟨u, data, (starting_goto after starting).2⟩
  · rintro ⟨u, data, starting⟩
    have apart : u ≠ t := fun same => before data (same ▸ starting)
    exact ⟨u, data, (goto_pc_of_ne pc apart).trans starting⟩

theorem inv_push {data : B} (inv : Inv s) (idle : s.pc t = .idle) :
    Inv { s.goto t (.pushed data) with dataQueue := s.dataQueue ++ [data], accepted := s.accepted ++ [data] } := by
  have same : (s.goto t (.pushed data)).Starting ↔ s.Starting := starting_goto_iff (by simp [idle]) nofun
  refine ⟨inv.flag.trans (or_congr_right same.symm), inv.one, ?_, fun starting => inv.apart (same.mp starting),
    fun none => ?_, fun one => ?_, fun _ _ => ⟨t, data, goto_pc_self _⟩⟩
  · intro u v first second here there
    exact inv.single u v first second (starting_goto nofun here).2 (starting_goto nofun there).2
  · exact (List.append_assoc ..).symm.trans (congrArg (· ++ [data]) (inv.waiting none))
  · obtain ⟨head, queue, whole⟩ := inv.sending one
    have tail : (s.dataQueue ++ [data]).tail = s.dataQueue.tail ++ [data] := by rw [queue]; rfl
    refine ⟨head, ?_, ?_⟩
    · rw [tail, ← List.cons_append, ← queue]
    · rw [tail, ← whole, ← List.append_assoc]
      rfl

theorem inv_skip {data : B} (inv : Inv s) (pushed : s.pc t = .pushed data) (active : s.activated = true) :
    Inv (s.goto t .idle) := by
  have same : (s.goto t .idle).Starting ↔ s.Starting := starting_goto_iff (by simp [pushed]) nofun
  refine ⟨inv.flag.trans (or_congr_right same.symm), inv.one, ?_, fun starting => inv.apart (same.mp starting),
    inv.waiting, inv.sending, fun rest => ?_⟩
  · intro u v first second here there
    exact inv.single u v first second (starting_goto nofun here).2 (starting_goto nofun there).2
  · exact absurd active (by simpa [goto] using rest)

theorem inv_claim {data : B} (inv : Inv s) (rest : s.activated = false) :
    Inv { s.goto t (.starting data) with activated := true } := by
  have none : s.outstanding = 0 := by
    have one := inv.one
    have not_one : s.outstanding ≠ 1 := fun one => by simp [inv.flag.mpr (.inl one)] at rest
    omega
  have nobody : ∀ u other, s.pc u ≠ .starting other := fun u other starting => by
    simp [inv.flag.mpr (.inr ⟨u, other, starting⟩)] at rest
  have self : ∀ u other, (s.goto t (.starting data)).pc u = .starting other → u = t := by
    intro u other starting
    by_contra apart
    exact nobody u other ((goto_pc_of_ne _ apart).symm.trans starting)
  refine ⟨?_, inv.one, ?_, fun _ => none, inv.waiting, inv.sending, fun rest => by simp at rest⟩
  · simp only [true_iff]
    exact .inr ⟨t, data, goto_pc_self _⟩
  · intro u v first second here there
    exact (self u first here).trans (self v second there).symm

theorem inv_transmit {data : B} (inv : Inv s) (starting : s.pc t = .starting data)
    (head : s.dataQueue.head? = some data) : Inv ((s.goto t .idle).dmaTransmit data) := by
  have none := inv.apart ⟨t, data, starting⟩
  have nobody : ¬((s.goto t .idle).dmaTransmit data).Starting := by
    rintro ⟨u, other, still⟩
    have here : u ≠ t ∧ s.pc u = .starting other := starting_goto nofun still
    exact here.1 (inv.single u t other data here.2 starting)
  obtain ⟨rest, queue⟩ := List.head?_eq_some_iff.mp head
  refine ⟨?_, ?_, fun u v first second here _ => absurd ⟨u, first, here⟩ nobody, fun here => absurd here nobody,
    fun never => ?_, fun _ => ⟨data, ?_, ?_⟩, fun rest => ?_⟩
  · have active := inv.flag.mpr (.inr ⟨t, data, starting⟩)
    simp [dmaTransmit, goto, active, none]
  · simp [dmaTransmit, goto, none]
  · simp [dmaTransmit] at never
  · simp [dmaTransmit, goto, queue]
  · simp [dmaTransmit, goto, ← inv.waiting none, queue]
  · have active := inv.flag.mpr (.inr ⟨t, data, starting⟩)
    simp [dmaTransmit, goto, active] at rest

omit [DecidableEq T] in
theorem inv_txDmadone (inv : Inv s) (busy : 0 < s.outstanding) : Inv s.txDmadone := by
  have one : s.outstanding = 1 := by
    have := inv.one
    omega
  have nobody : ¬s.Starting := fun starting => by simp [inv.apart starting] at one
  obtain ⟨data, queue, whole⟩ := inv.sending one
  cases rest : s.dataQueue.tail with
  | nil =>
    have last : s.txDmadone = { s with dataQueue := [], outstanding := 0, activated := false } := by
      simp [txDmadone, rest, one]
    rw [last]
    exact ⟨iff_of_false nofun (not_or_intro nofun nobody), by simp, inv.single, fun _ => rfl, fun _ => by simpa [rest] using whole,
      fun one => by simp at one, fun _ full => absurd rfl full⟩
  | cons next rest' =>
    have more : s.txDmadone =
        { s with dataQueue := next :: rest', outstanding := 1, activated := true, handed := s.handed ++ [next] } := by
      simp [txDmadone, dmaTransmit, rest, one]
    rw [more]
    refine ⟨by simp, by simp, inv.single, fun starting => absurd starting nobody, fun none => by simp at none,
      fun _ => ⟨next, rfl, ?_⟩, fun idle => by simp at idle⟩
    simpa [rest] using whole

theorem Inv.step (a : DmaTxAction T B) (inv : Inv s) (first : s.HeadFirst a) (step : Step s a s') : Inv s' := by
  cases a with
  | push t data =>
    simp only [Step, act] at step
    split at step
    case h_2 => cases step
    case h_1 idle =>
      split at step
      case isFalse => cases step
      case isTrue => exact Option.some.inj step ▸ inv_push inv idle
  | test t =>
    simp only [Step, act] at step
    split at step
    case h_2 => cases step
    case h_1 data pushed =>
      split at step
      case isTrue active => exact Option.some.inj step ▸ inv_skip inv pushed active
      case isFalse rest => exact Option.some.inj step ▸ inv_claim inv (by simpa using rest)
  | transmit t =>
    simp only [Step, act] at step
    split at step
    case h_2 => cases step
    case h_1 data starting => exact Option.some.inj step ▸ inv_transmit inv starting (first data starting)
  | txDmadone =>
    simp only [Step, act] at step
    split at step
    case isFalse => cases step
    case isTrue busy => exact Option.some.inj step ▸ inv_txDmadone inv busy

theorem Inv.needed (a : DmaTxAction T B) (inv : Inv s) (step : Step s a s') (sound : Sound s') : s.HeadFirst a := by
  cases a with
  | transmit t =>
    intro data starting
    simp only [Step, act, starting, Option.some.injEq] at step
    subst step
    have order := sound.order
    simp only [dmaTransmit, goto] at order
    rw [← inv.waiting (inv.apart ⟨t, data, starting⟩), List.prefix_append_right_inj] at order
    obtain ⟨rest, queue⟩ := order
    rw [← queue]
    rfl
  | push t data => trivial
  | test t => trivial
  | txDmadone => trivial

/-- The writes are served in every state of a run just if each thread that starts a transfer itself starts the one of
the first buffer in the queue. -/
theorem dma_tx_sound (actions : List (DmaTxAction T B)) :
    Throughout Step (opened : DmaTx T B) actions Sound ↔ EachStep Step (opened : DmaTx T B) actions HeadFirst :=
  throughout_iff_eachStep (fun _ => Inv.sound) (fun _ a _ inv first step => inv.step a first step)
    (fun _ a _ inv step sound => inv.needed a step sound) inv_opened

end steps

/-- A thread is preempted between its push and its test, and another starts its own buffer in front of it: that buffer
is sent twice, the first never. -/
theorem dma_tx_overtaken :
    ∃ s : DmaTx Bool Nat, (∃ actions, Run Step opened actions s) ∧ s.outstanding = 0 ∧ (∀ t, s.pc t = .idle) ∧
      s.activated = false ∧ s.accepted = [1, 2] ∧ s.handed = [2, 2] ∧ ¬Sound s := by
  refine ⟨_, ⟨_, @run_of_foldlM _ _ _
    [.push false 1, .push true 2, .test true, .transmit true, .test false, .txDmadone, .txDmadone] _ _ rfl⟩,
    rfl, ?_, rfl, rfl, rfl, fun sound => ?_⟩
  · intro t
    cases t <;> rfl
  · exact absurd sound.order (by decide)

end DmaTx
end RtThread.Serial
