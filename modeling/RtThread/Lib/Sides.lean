import Mathlib.Data.List.Nodup

/-! Threads of two sides that wait for each other. Each side has a queue of sleeping threads and a flag that remembers
a wake-up; a thread wakes the other side once before it waits, and looks at its own flag before it sleeps. -/

set_option autoImplicit false

namespace RtThread.Lib
open Function (update_of_ne update_self)

inductive Side where
  | reader
  | writer
  deriving DecidableEq

def Side.other : Side → Side
  | .reader => .writer
  | .writer => .reader

inductive Stage where
  /-- before it wakes the other side -/
  | edge
  /-- before it looks at the flag of its own side -/
  | wait
  | asleep
  deriving DecidableEq

inductive Stance where
  /-- finished, or about to return without waking anyone -/
  | away
  | busy
  | waits (side : Side) (stage : Stage)
  deriving DecidableEq

structure Sides (T : Type) where
  stance : T → Stance
  flag : Side → Bool
  waiting : Side → List T

theorem Side.eq_or_other (side side' : Side) : side' = side ∨ side' = side.other := by
  cases side <;> cases side' <;> simp [other]

namespace Sides
variable {T : Type} [DecidableEq T]

def move (s : Sides T) (t : T) (stance : Stance) : Sides T := { s with stance := Function.update s.stance t stance }

def wake (s : Sides T) (side : Side) : Sides T where
  stance := match s.waiting side with
    | [] => s.stance
    | t :: _ => Function.update s.stance t .busy
  flag := Function.update s.flag side true
  waiting := Function.update s.waiting side (s.waiting side).tail

def sleep (s : Sides T) (t : T) (side : Side) : Sides T :=
  { s.move t (.waits side .asleep) with waiting := Function.update s.waiting side (s.waiting side ++ [t]) }

/-- The wake-up that the flag remembers keeps `t` from sleeping. -/
def pass (s : Sides T) (t : T) (side : Side) : Sides T :=
  { s.move t .busy with flag := Function.update s.flag side false }

variable {s : Sides T} {t u : T} {side : Side} {stance : Stance} {need : Side → Prop}

/-! ## The queues -/

structure Queued (s : Sides T) : Prop where
  asleep : ∀ side t, t ∈ s.waiting side ↔ s.stance t = .waits side .asleep
  nodup : ∀ side, (s.waiting side).Nodup

theorem Queued.move (queued : s.Queued) (before : ∀ side, s.stance t ≠ .waits side .asleep)
    (after : ∀ side, stance ≠ .waits side .asleep) : (s.move t stance).Queued := by
  refine ⟨fun side u => ?_, queued.nodup⟩
  simp only [Sides.move, Function.update_apply]
  split
  case isTrue own => exact iff_of_false (fun listed => before side (own ▸ (queued.asleep side u).mp listed)) (after side)
  case isFalse => exact queued.asleep side u

theorem Queued.wake (queued : s.Queued) (side : Side) : (s.wake side).Queued := by
  cases list : s.waiting side with
  | nil =>
    have same : Function.update s.waiting side [] = s.waiting := by rw [← list, Function.update_eq_self]
    simpa only [Sides.wake, list, List.tail_nil, same] using ⟨queued.asleep, queued.nodup⟩
  | cons t rest =>
    obtain ⟨fresh, nodup⟩ := List.nodup_cons.mp (list ▸ queued.nodup side)
    have first : s.stance t = .waits side .asleep := (queued.asleep side t).mp (list ▸ List.mem_cons_self)
    simp only [Sides.wake, list, List.tail_cons]
    refine ⟨fun side' u => ?_, fun side' => ?_⟩
    · have before := queued.asleep side' u
      simp only [Function.update_apply]
      grind
    · simp only [Function.update_apply]
      split
      · exact nodup
      · exact queued.nodup side'

theorem Queued.sleep (queued : s.Queued) (before : ∀ side, s.stance t ≠ .waits side .asleep) : (s.sleep t side).Queued := by
  have fresh : t ∉ s.waiting side := fun listed => before side ((queued.asleep side t).mp listed)
  refine ⟨fun side' u => ?_, fun side' => ?_⟩
  · have outside := queued.asleep side' u
    have elsewhere := before side'
    simp only [Sides.sleep, Sides.move, Function.update_apply]
    grind
  · simp only [Sides.sleep, Function.update_apply]
    split
    · exact List.nodup_append.mpr ⟨queued.nodup side, List.nodup_singleton t, by grind⟩
    · exact queued.nodup side'

omit [DecidableEq T] in
theorem Queued.flags (queued : s.Queued) (flag : Side → Bool) : Queued { s with flag := flag } :=
  ⟨queued.asleep, queued.nodup⟩

/-! ## Who is under way -/

def Waits (s : Sides T) (side : Side) : Prop := ∃ t stage, s.stance t = .waits side stage

/-- Somebody is busy, is kept from sleeping by a flag, or is about to wake a thread that waits. -/
def Moving (s : Sides T) : Prop :=
  (∃ t, s.stance t = .busy) ∨
  (∃ side t, (s.stance t = .waits side .edge ∨ s.stance t = .waits side .wait) ∧ s.flag side = true) ∨
  ∃ side t, s.stance t = .waits side .edge ∧ s.Waits side.other

def Settled (s : Sides T) (need : Side → Prop) : Prop := ∀ side, s.Waits side → need side → s.Moving

omit [DecidableEq T] in
theorem Settled.of_moving (moving : s.Moving) : s.Settled need := fun _ _ _ => moving

omit [DecidableEq T] in
theorem Settled.of_busy (busy : s.stance t = .busy) : s.Settled need := .of_moving (.inl ⟨t, busy⟩)

theorem Moving.wake (moving : s.Moving) (side : Side) : (s.wake side).Moving := by
  cases list : s.waiting side with
  | cons t rest => exact .inl ⟨t, by simp [Sides.wake, list]⟩
  | nil =>
    have stance : (s.wake side).stance = s.stance := by simp [Sides.wake, list]
    have raised (side' : Side) (set : s.flag side' = true) : (s.wake side).flag side' = true := by
      simp only [Sides.wake, Function.update_apply, set, ite_self]
    simp only [Moving, Waits, stance]
    exact moving.imp id (Or.imp (fun ⟨side', t, here, set⟩ => ⟨side', t, here, raised side' set⟩) id)

theorem Waits.wake (waits : s.Waits side) (queued : s.Queued) : (s.wake side).Moving := by
  cases list : s.waiting side with
  | cons t rest => exact .inl ⟨t, by simp [Sides.wake, list]⟩
  | nil =>
    obtain ⟨t, stage, here⟩ := waits
    refine .inr (.inl ⟨side, t, ?_, update_self ..⟩)
    have stance : (s.wake side).stance t = .waits side stage := by simp [Sides.wake, list, here]
    cases stage with
    | edge => exact .inl stance
    | wait => exact .inr stance
    | asleep => exact absurd ((queued.asleep side t).mpr here) (by simp [list])

theorem Settled.wake (settled : s.Settled need) (side : Side) : (s.wake side).Settled need := by
  cases list : s.waiting side with
  | cons t rest => exact .of_busy (t := t) (by simp [Sides.wake, list])
  | nil =>
    intro side' waits needed
    have stance : (s.wake side).stance = s.stance := by simp [Sides.wake, list]
    simp only [Waits, stance] at waits
    exact (settled side' waits needed).wake side

theorem Settled.rouse (settled : s.Settled need) (queued : s.Queued) (edge : s.stance t = .waits side .edge) :
    ((s.move t (.waits side .wait)).wake side.other).Settled need := by
  have queued' : (s.move t (.waits side .wait)).Queued := queued.move (by simp [edge]) (by simp)
  have waits (u : T) (side' : Side) (stage : Stage) (here : s.stance u = .waits side' stage) :
      (s.move t (.waits side .wait)).Waits side' := by
    by_cases own : u = t
    · obtain ⟨rfl, -⟩ : side = side' ∧ _ := by simpa [own, edge] using here
      exact ⟨t, .wait, update_self ..⟩
    · exact ⟨u, stage, (update_of_ne own ..).trans here⟩
  by_cases someone : (s.move t (.waits side .wait)).Waits side.other
  · exact .of_moving (someone.wake queued')
  refine Settled.wake ?_ side.other
  rintro side' ⟨u, stage, here⟩ needed
  have before : s.Waits side' := by
    by_cases own : u = t
    · obtain ⟨rfl, -⟩ : side = side' ∧ _ := by simpa [own, Sides.move] using here
      exact ⟨t, .edge, edge⟩
    · exact ⟨u, stage, (update_of_ne own ..).symm.trans here⟩
  rcases settled side' before needed with ⟨v, busy⟩ | ⟨side'', v, free, set⟩ | ⟨side'', v, first, w, stage', second⟩
  · have apart : v ≠ t := by rintro rfl; simp [edge] at busy
    exact .inl ⟨v, (update_of_ne apart ..).trans busy⟩
  · by_cases own : v = t
    · obtain rfl : side = side'' := by simpa [own, edge] using free
      exact .inr (.inl ⟨side, t, .inr (update_self ..), set⟩)
    · refine .inr (.inl ⟨side'', v, ?_, set⟩)
      simpa only [Sides.move, update_of_ne own] using free
  · -- one of the two waits on the other side
    rcases side.eq_or_other side'' with rfl | rfl
    · exact absurd (waits w _ _ second) someone
    · exact absurd (waits v _ _ first) someone

theorem Settled.sleep (settled : s.Settled need) (wait : s.stance t = .waits side .wait) (clear : s.flag side = false) :
    (s.sleep t side).Settled need := by
  have later (u : T) (side' : Side) (stage : Stage) (here : s.stance u = .waits side' stage) : (s.sleep t side).Waits side' := by
    by_cases own : u = t
    · obtain ⟨rfl, -⟩ : side = side' ∧ _ := by simpa [own, wait] using here
      exact ⟨t, .asleep, update_self ..⟩
    · exact ⟨u, stage, (update_of_ne own ..).trans here⟩
  rintro side' ⟨u, stage, here⟩ needed
  have before : s.Waits side' := by
    by_cases own : u = t
    · obtain ⟨rfl, -⟩ : side = side' ∧ _ := by simpa [own, Sides.sleep, Sides.move] using here
      exact ⟨t, .wait, wait⟩
    · exact ⟨u, stage, (update_of_ne own ..).symm.trans here⟩
  rcases settled side' before needed with ⟨v, busy⟩ | ⟨side'', v, free, set⟩ | ⟨side'', v, first, w, stage', second⟩
  · have apart : v ≠ t := by rintro rfl; simp [wait] at busy
    exact .inl ⟨v, (update_of_ne apart ..).trans busy⟩
  · have apart : v ≠ t := by
      rintro rfl
      obtain rfl : side = side'' := by simpa [wait] using free
      simp [clear] at set
    refine .inr (.inl ⟨side'', v, ?_, set⟩)
    simpa only [Sides.sleep, Sides.move, update_of_ne apart] using free
  · have apart : v ≠ t := by rintro rfl; simp [wait] at first
    exact .inr (.inr ⟨side'', v, (update_of_ne apart ..).trans first, later w _ _ second⟩)

theorem Settled.leave (queued : s.Queued) (busy : s.stance t = .busy)
    (free : (s.move t .away).Waits side ∨ (s.move t .away).Settled need) :
    ((s.move t .away).wake side).Settled need := by
  rcases free with someone | settled
  · exact .of_moving (someone.wake (queued.move (by simp [busy]) (by simp)))
  · exact settled.wake side

theorem Settled.halt
    (free : ¬need side ∨ s.flag side = true ∨ (s.move t .away).Waits side.other ∨ (s.move t .away).Moving) :
    (s.move t (.waits side .edge)).Settled need := by
  have later (u : T) (stance : Stance) (still : stance ≠ .away) (here : (s.move t .away).stance u = stance) :
      (s.move t (.waits side .edge)).stance u = stance := by
    have apart : u ≠ t := by
      rintro rfl
      exact still (here.symm.trans (update_self ..))
    rw [← here]
    simp only [Sides.move, update_of_ne apart]
  have edge : (s.move t (.waits side .edge)).stance t = .waits side .edge := update_self ..
  have other (waits : (s.move t (.waits side .edge)).Waits side.other) : (s.move t (.waits side .edge)).Moving :=
    .inr (.inr ⟨side, t, edge, waits⟩)
  rcases free with idle | set | ⟨u, stage, here⟩ | moving
  · intro side' waits needed
    rcases side.eq_or_other side' with rfl | rfl
    · exact absurd needed idle
    · exact other waits
  · exact .of_moving (.inr (.inl ⟨side, t, .inl edge, set⟩))
  · exact .of_moving (other ⟨u, stage, later u _ (by simp) here⟩)
  · refine .of_moving ?_
    rcases moving with ⟨v, busy⟩ | ⟨side'', v, free, set⟩ | ⟨side'', v, first, w, stage', second⟩
    · exact .inl ⟨v, later v _ (by simp) busy⟩
    · exact .inr (.inl ⟨side'', v, free.imp (later v _ (by simp)) (later v _ (by simp)), set⟩)
    · exact .inr (.inr ⟨side'', v, later v _ (by simp) first, w, stage', later w _ (by simp) second⟩)

end Sides

end RtThread.Lib
