import RtThread.Lib.Ranking
import Mathlib.Data.UInt

/-! Timer lists: the insertion of rt_timer_start by modular differences, and when it is an insertion by
due time. -/

set_option autoImplicit false
namespace RtThread.Timers
open Lib

def rtTickMax : UInt32 := 0xFFFFFFFF

structure Timer where
  initTick : UInt32
  timeoutTick : UInt32
  /-- RT_TIMER_FLAG_PERIODIC and RT_TIMER_FLAG_ACTIVATED -/
  periodic : Bool
  activated : Bool
  -- a mark of the model: the timeout in ticks that are never wrapped
  due : Nat
  /-- the assertion of rt_timer_init -/
  short : initTick < rtTickMax / 2

/-- `rt_tick_get` at a time that is never wrapped. -/
def rtTickGet (time : Nat) : UInt32 := UInt32.ofNat time

section
variable {I : Type}

/-- The scan of rt_timer_start (RT_TIMER_SKIP_LIST_LEVEL is 1): behind the timers of the same timeout. -/
def timerInsert (timer : I → Timer) (n : I) : List I → List I
  | [] => [n]
  | t :: rest =>
    if (timer t).timeoutTick - (timer n).timeoutTick = 0 then t :: timerInsert timer n rest
    else if (timer t).timeoutTick - (timer n).timeoutTick < rtTickMax / 2 then n :: t :: rest
    else t :: timerInsert timer n rest

/-- Timer `t` started at `time`. -/
def Timer.start (t : Timer) (time : Nat) : Timer :=
  { t with timeoutTick := rtTickGet time + t.initTick, due := time + t.initTick.toNat, activated := true }

variable {timer : I → Timer} {n : I}

theorem half_toNat : (rtTickMax / 2).toNat = 0x7FFFFFFF := rfl

theorem rtTickGet_toNat (time : Nat) : (rtTickGet time).toNat = time % 2 ^ 32 := UInt32.toNat_ofNat'

theorem Timer.short_toNat (t : Timer) : t.initTick.toNat < 0x7FFFFFFF := UInt32.lt_iff_toNat_lt.mp t.short

theorem Timer.start_timeout (t : Timer) (time : Nat) :
    (t.start time).timeoutTick = rtTickGet (t.start time).due := by
  apply UInt32.toNat.inj
  rw [rtTickGet_toNat]
  simp only [start, UInt32.toNat_add, rtTickGet_toNat]
  omega

/-- The difference of two ticks is less than half the range just where the first time is the later, as
long as neither is too far behind the other. -/
theorem tick_sub_lt_half {a b : Nat} (ahead : a < b + 0x7FFFFFFF) (behind : b ≤ a + 0x80000001) :
    rtTickGet a - rtTickGet b < rtTickMax / 2 ↔ b ≤ a := by
  rw [UInt32.lt_iff_toNat_lt, half_toNat, UInt32.toNat_sub, rtTickGet_toNat, rtTickGet_toNat]
  omega

theorem tick_sub_eq_zero {a b : Nat} (ahead : a < b + 0x7FFFFFFF) (behind : b ≤ a + 0x80000001) :
    rtTickGet a - rtTickGet b = 0 ↔ a = b := by
  rw [← UInt32.toNat_inj, UInt32.toNat_sub, rtTickGet_toNat, rtTickGet_toNat]
  have zero : (0 : UInt32).toNat = 0 := rfl
  omega

/-- What the scan needs to go by due times: the timers' ticks are their due times, none of them is due half
the range after the new one, and none so long before it. -/
structure Comparable (timer : I → Timer) (list : List I) (n : I) : Prop where
  own : (timer n).timeoutTick = rtTickGet (timer n).due
  ticks : ∀ t ∈ list, (timer t).timeoutTick = rtTickGet (timer t).due
  ahead : ∀ t ∈ list, (timer t).due < (timer n).due + 0x7FFFFFFF
  behind : ∀ t ∈ list, (timer n).due ≤ (timer t).due + 0x80000001

def dueRank (timer : I → Timer) (t : I) : Int := -((timer t).due : Int)

theorem timerInsert_eq {list : List I} (comparable : Comparable timer list n) :
    timerInsert timer n list = list.orderedInsert (fun a b => dueRank timer b < dueRank timer a) n := by
  induction list with
  | nil => rfl
  | cons t rest ih =>
    have less : Comparable timer rest n :=
      ⟨comparable.own, fun u inside => comparable.ticks u (List.mem_cons_of_mem t inside),
        fun u inside => comparable.ahead u (List.mem_cons_of_mem t inside),
        fun u inside => comparable.behind u (List.mem_cons_of_mem t inside)⟩
    have ahead := comparable.ahead t List.mem_cons_self
    have behind := comparable.behind t List.mem_cons_self
    rw [timerInsert, comparable.own, comparable.ticks t List.mem_cons_self, List.orderedInsert_cons, ih less]
    have order : dueRank timer t < dueRank timer n ↔ (timer n).due < (timer t).due := by
      simp only [dueRank]
      omega
    simp only [tick_sub_eq_zero ahead behind, tick_sub_lt_half ahead behind, order]
    by_cases same : (timer t).due = (timer n).due
    · rw [if_pos same, if_neg (by omega)]
    · rw [if_neg same]
      by_cases later : (timer n).due ≤ (timer t).due
      · rw [if_pos later, if_pos (by omega)]
      · rw [if_neg later, if_neg (by omega)]

end

end RtThread.Timers
