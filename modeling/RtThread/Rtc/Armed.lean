import RtThread.Rtc.Nearest
import RtThread.Lib.Transition

/-! The hardware alarm is set to the next of the started alarms: what the calls keep, and where they lose it. -/

set_option autoImplicit false
namespace RtThread.Rtc
open Lib

section
variable {t now : Tm} {low high value n hour min sec : Int}

end

section
variable {I : Type} [DecidableEq I] {w w' w'' : AlarmContainer I} {now : Tm} {i c : I} {k : Alarm} {before after : Nat}

/-- What the wake-ups of `alarm_update` may change: started alarms are stopped, or get other times of day. -/
structure Woken (w w' : AlarmContainer I) : Prop where
  head : w'.head = w.head
  current : w'.current = w.current
  stopped : ∀ j, (w.alarm j).started = false → w'.alarm j = w.alarm j
  ranged : ∀ j, (w.alarm j).wktime.InRange → (w'.alarm j).wktime.InRange

namespace Woken

omit [DecidableEq I] in
theorem refl (w : AlarmContainer I) : Woken w w := ⟨rfl, rfl, fun _ _ => rfl, fun _ range => range⟩

omit [DecidableEq I] in
theorem started (woken : Woken w w') (j : I) (on : (w'.alarm j).started = true) : (w.alarm j).started = true := by
  by_contra off
  rw [woken.stopped j (eq_false_of_ne_true off)] at on
  exact off on

omit [DecidableEq I] in
theorem trans (first : Woken w w') (second : Woken w' w'') : Woken w w'' where
  head := second.head.trans first.head
  current := second.current.trans first.current
  stopped j off := by
    have same := first.stopped j off
    rw [← same] at off ⊢
    exact second.stopped j off
  ranged j range := second.ranged j (first.ranged j range)

theorem set (on : (w.alarm i).started = true) (range : (w.alarm i).wktime.InRange → k.wktime.InRange) :
    Woken w (w.set i k) where
  head := rfl
  current := rfl
  stopped j off := by
    have other : j ≠ i := by
      rintro rfl
      rw [on] at off
      cases off
    exact Function.update_of_ne other ..
  ranged j before := by
    by_cases own : j = i
    · rw [own] at before ⊢
      simpa [AlarmContainer.set] using range before
    · simpa [AlarmContainer.set, own] using before

omit [DecidableEq I] in
theorem alarmSet (woken : Woken w w') (i : I) : Woken w (w'.alarmSet i) :=
  ⟨woken.head, woken.current, woken.stopped, woken.ranged⟩

end Woken

def Alarm.rtc (k : Alarm) : RtcAlarm := ⟨k.started, k.wktime.sec, k.wktime.min, k.wktime.hour⟩

structure AlarmContainer.Sane (w : AlarmContainer I) : Prop where
  ranged : w.Ranged
  nodup : w.head.Nodup
  live : ∀ c, w.current = some c → c ∈ w.head

structure AlarmContainer.Good (w : AlarmContainer I) : Prop extends w.Sane where
  armed : ∀ i ∈ w.head, (w.alarm i).started = true →
    ∃ c, w.current = some c ∧ (w.alarm c).started = true ∧ w.rtc = (w.alarm c).rtc

def AlarmContainer.Leads (w : AlarmContainer I) (time : Nat) : Prop :=
  ∀ c, w.current = some c → (w.alarm c).started = true → w.First (time % daySeconds) c

omit [DecidableEq I] in
theorem arm_good (sane : w.Sane) (inside : c ∈ w.head) (on : (w.alarm c).started = true) : (arm w (some c)).Good where
  ranged := sane.ranged
  nodup := sane.nodup
  live d current := by
    cases current
    exact inside
  armed _ _ _ := ⟨c, rfl, on, rfl⟩

omit [DecidableEq I] in
theorem Woken.sane (woken : Woken w w') (sane : w.Sane) : w'.Sane where
  ranged j inside on := by
    rw [woken.head] at inside
    exact woken.ranged j (sane.ranged j inside (woken.started j on))
  nodup := by
    rw [woken.head]
    exact sane.nodup
  live c current := by
    rw [woken.head]
    rw [woken.current] at current
    exact sane.live c current

theorem AlarmContainer.Good.set (good : w.Good) (idle : w.current = some i → (w.alarm i).started = false)
    (still : k.started = false) : (w.set i k).Good := by
  have other : ∀ j, ((w.set i k).alarm j).started = true → j ≠ i ∧ (w.set i k).alarm j = w.alarm j := by
    intro j on
    have apart : j ≠ i := by
      rintro rfl
      simp [AlarmContainer.set, still] at on
    exact ⟨apart, Function.update_of_ne apart ..⟩
  refine ⟨⟨fun j inside on => ?_, good.nodup, good.live⟩, fun j inside on => ?_⟩
  · have same := (other j on).2
    rw [same] at on ⊢
    exact good.ranged j inside on
  · have same := (other j on).2
    rw [same] at on
    obtain ⟨c, current, started, rtc⟩ := good.armed j inside on
    have apart : c ≠ i := by
      rintro rfl
      rw [idle current] at started
      cases started
    have kept : (w.set i k).alarm c = w.alarm c := Function.update_of_ne apart ..
    exact ⟨c, current, by rw [kept]; exact started, by rw [kept]; exact rtc⟩

theorem AlarmContainer.Leads.set {time : Nat} (leads : w.Leads time) (still : k.started = false) :
    (w.set i k).Leads time := by
  have other : ∀ j, ((w.set i k).alarm j).started = true → (w.set i k).alarm j = w.alarm j := by
    intro j on
    have apart : j ≠ i := by
      rintro rfl
      simp [AlarmContainer.set, still] at on
    exact Function.update_of_ne apart ..
  intro c current on j inside started
  have same := other c on
  have own := other j started
  rw [same] at on
  rw [own] at started
  simp only [AlarmContainer.at, same, own]
  exact leads c current on j inside started

structure Starts (w v : AlarmContainer I) (i : I) : Prop where
  sane : v.Sane
  inside : i ∈ v.head
  on : (v.alarm i).started = true
  current : v.current = w.current
  rtc : v.rtc = w.rtc
  head : v.head = w.head
  others : ∀ j, j ≠ i → v.alarm j = w.alarm j

theorem Starts.set (good : w.Good) (inside : i ∈ w.head) (range : k.wktime.InRange) :
    Starts w (w.set i { k with started := true }) i where
  sane := by
    refine ⟨fun j member on => ?_, good.nodup, good.live⟩
    by_cases own : j = i
    · rw [own]
      simpa [AlarmContainer.set] using range
    · have same : (w.set i { k with started := true }).alarm j = w.alarm j := Function.update_of_ne own ..
      rw [same] at on ⊢
      exact good.ranged j member on
  inside := inside
  on := by simp [AlarmContainer.set]
  current := rfl
  rtc := rfl
  head := rfl
  others j other := Function.update_of_ne other ..

namespace Starts
variable {v : AlarmContainer I} (starts : Starts w v i)
include starts

omit [DecidableEq I] in
theorem arm (first : ∀ j ∈ w.head, j ≠ i → (w.alarm j).started = true →
    ahead daySeconds (after % daySeconds) (v.at i) ≤ ahead daySeconds (after % daySeconds) (v.at j)) :
    (Rtc.arm v (some i)).Good ∧ (Rtc.arm v (some i)).Leads after := by
  refine ⟨arm_good starts.sane starts.inside starts.on, fun c current _ j member started => ?_⟩
  cases current
  have member : j ∈ v.head := member
  have started : (v.alarm j).started = true := started
  by_cases own : j = i
  · rw [own]
  · rw [starts.others j own] at started
    rw [starts.head] at member
    exact first j member own started

omit [DecidableEq I] in
theorem stay (good : w.Good) (current : w.current = some c) (on : (w.alarm c).started = true) (other : c ≠ i)
    (leads : w.Leads after)
    (first : ahead daySeconds (after % daySeconds) (v.at c) ≤ ahead daySeconds (after % daySeconds) (v.at i)) :
    v.Good ∧ v.Leads after := by
  have same := starts.others c other
  have place : v.at c = w.at c := by rw [AlarmContainer.at, AlarmContainer.at, same]
  obtain ⟨d, current', -, rtc⟩ := good.armed c (good.live c current) on
  rw [current] at current'
  cases current'
  refine ⟨{ starts.sane with armed := fun j member started => ?_ }, fun d current' _ j member started => ?_⟩
  · exact ⟨c, starts.current.trans current, by rw [same]; exact on, by rw [starts.rtc, same]; exact rtc⟩
  · rw [starts.current, current] at current'
    cases current'
    by_cases own : j = i
    · rw [own]
      exact first
    · have kept := starts.others j own
      rw [starts.head] at member
      rw [kept] at started
      have spot : v.at j = w.at j := by rw [AlarmContainer.at, AlarmContainer.at, kept]
      rw [place, spot]
      exact leads c current on j member started

end Starts

theorem AlarmContainer.Good.remove (good : w.Good) (off : (w.alarm i).started = false) (other : w.current ≠ some i) :
    ({ w with head := w.head.erase i } : AlarmContainer I).Good where
  ranged j inside on := good.ranged j (List.mem_of_mem_erase inside) on
  nodup := good.nodup.erase i
  live c current := by
    have apart : c ≠ i := by
      rintro rfl
      exact other current
    exact (List.mem_erase_of_ne apart).mpr (good.live c current)
  armed j inside on := good.armed j (List.mem_of_mem_erase inside) on

omit [DecidableEq I] in
/-- No alarm is started; or the hardware is set to one that is, whose next time of day comes first, strictly after
now. -/
def AlarmWorld.Armed (s : AlarmWorld I) : Prop :=
  (∀ i ∈ s.container.head, (s.container.alarm i).started = false) ∨
    ∃ c ∈ s.container.head, (s.container.alarm c).started = true ∧
      s.container.rtc = { (s.container.alarm c).rtc with enable := true } ∧
      ∀ i ∈ s.container.head, (s.container.alarm i).started = true →
        ahead daySeconds (s.time % daySeconds) (s.container.at c) ≤
          ahead daySeconds (s.time % daySeconds) (s.container.at i)

omit [DecidableEq I] in
theorem AlarmWorld.Armed.enabled {s : AlarmWorld I} (armed : s.Armed) (inside : i ∈ s.container.head)
    (on : (s.container.alarm i).started = true) : s.container.rtc.enable = true := by
  rcases armed with off | ⟨c, -, -, rtc, -⟩
  · rw [off i inside] at on
    cases on
  · rw [rtc]

omit [DecidableEq I]

end

end RtThread.Rtc
