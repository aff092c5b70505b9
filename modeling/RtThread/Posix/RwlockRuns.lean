import RtThread.Posix.Rwlock
import RtThread.Lib.Throughout

/-! Who holds the read-write lock, and who is still waiting for it, in every run of calls and time-outs. -/

set_option autoImplicit false
namespace RtThread.Posix
open Lib
open Function (update update_of_ne update_self)

namespace RwPc

/-- The thread has `rw_mutex`. -/
def inside : RwPc → Bool
  | .rest => false
  | .enter _ => false
  | .wait _ _ => false
  | .relock _ _ _ => false
  | _ => true

def counts (side : Side) : RwPc → Bool
  | .wait s _ => s = side
  | .relock s _ _ => s = side
  | .back s _ _ => s = side
  | _ => false

def woken : RwPc → Bool
  | .relock .writer _ ok => ok
  | .back .writer _ ok => ok
  | .loop .writer _ => true
  | _ => false

def live : RwPc → Bool
  | .wait .writer _ => true
  | pc => pc.woken

def signalling : RwPc → Bool
  | .signal => true
  | .signalRelease => true
  | _ => false

def broadcasting : RwPc → Bool
  | .broadcast => true
  | .broadcastRelease => true
  | _ => false

def wakesWriters (pc : RwPc) : Bool := pc.woken || pc.signalling

def wakesReaders (pc : RwPc) : Bool := pc.live || pc.broadcasting

end RwPc

namespace Rwlock
variable (s : Rwlock)

/-- The thread is about to wake another one or to take the free lock. Calls that merely come in are not counted on. -/
def Wakes (u : Nat) : Prop :=
  (s.pc u).woken = true ∨ (s.pc u).broadcasting = true ∨ (s.pc u).signalling = true ∧ (s.cond .writer).suspended ≠ []

/-- Writers hold the lock alone, the count says who holds it, and while it is free nobody stays suspended with no thread
that is about to wake. -/
structure Sound : Prop where
  alone : ∀ t ∈ s.writers, s.writers = [t] ∧ s.readers = [] ∧ s.rwRefcount = -1
  shared : s.writers = [] → s.rwRefcount = s.readers.length
  awaited : s.rwRefcount = 0 → ∀ t side timed, s.pc t = .wait side timed → ∃ u, s.Wakes u

def LiveWriter (t : Nat) : Prop := ∃ u, u ≠ t ∧ (s.pc u).live = true

/-- While the lock is free or becomes so, and a reader is suspended or will be, the writers that hold it back have not
all timed out. -/
def Timely : RwAction → Prop
  | .go t expired =>
    match s.pc t with
    | .unlock =>
      s.rwRefcount = 1 ∨ s.rwRefcount = -1 → 0 < s.nwait .writer → (s.cond .reader).suspended ≠ [] → s.LiveWriter t
    | .loop .reader timed =>
      s.rwRefcount = 0 → 0 < s.nwait .writer → (s.cond .reader).value = 0 → (timed && expired) = false → s.LiveWriter t
    | _ => True
  | .timeout t =>
    match s.pc t with
    | .wait .writer _ => s.rwRefcount = 0 → (s.cond .reader).suspended ≠ [] → s.LiveWriter t
    | _ => True
  | _ => True

def Counted (pc : Nat → RwPc) (side : Side) (n : Int) : Prop :=
  ∃ ts : List Nat, ts.Nodup ∧ (∀ t, t ∈ ts ↔ (pc t).counts side = true) ∧ n = ts.length

structure Inv : Prop where
  mutex : ∀ t, (s.pc t).inside = true ↔ s.rwMutex = some t
  once : ∀ side, (s.cond side).suspended.Nodup
  suspended : ∀ side t, t ∈ (s.cond side).suspended ↔ ∃ timed, s.pc t = .wait side timed
  counted : ∀ side, Counted s.pc side (s.nwait side)
  held : s.writers = [] ∧ s.rwRefcount = s.readers.length ∨ ∃ t, s.writers = [t] ∧ s.readers = [] ∧ s.rwRefcount = -1
  token : 0 < (s.cond .reader).value → (s.cond .reader).suspended = []
  unlocks : ∀ t, s.pc t = .enter .unlock ∨ s.pc t = .unlock → t ∈ s.readers ∨ t ∈ s.writers
  wakers : s.rwRefcount = 0 → (s.cond .writer).suspended ≠ [] →
    ∃ u, (s.pc u).wakesWriters = true
  holders : s.rwRefcount = 0 → (s.cond .reader).suspended ≠ [] → ∃ u, (s.pc u).wakesReaders = true
  quiet : ∀ u, (s.pc u).broadcasting = true → s.nwait .writer ≤ 0

end Rwlock

namespace Rwlock
variable {s s' : Rwlock} {t u : Nat} {p : RwPc} {side : Side} {timed ok : Bool}

theorem Inv.sound (inv : s.Inv) : s.Sound := by
  refine ⟨fun t writes => ?_, fun none => ?_, fun free t side timed waits => ?_⟩
  · rcases inv.held with ⟨none, _⟩ | ⟨u, only, others⟩
    · simp [none] at writes
    · rw [only, List.mem_singleton] at writes
      exact writes ▸ ⟨only, others⟩
  · rcases inv.held with ⟨_, count⟩ | ⟨u, only, _⟩
    · exact count
    · simp [none] at only
  · have writer : (s.cond .writer).suspended ≠ [] → ∃ u, s.Wakes u := by
      intro some
      obtain ⟨u, wakes⟩ := inv.wakers free some
      rcases Bool.or_eq_true_iff.mp wakes with woken | signals
      · exact ⟨u, Or.inl woken⟩
      · exact ⟨u, Or.inr (Or.inr ⟨signals, some⟩)⟩
    have here : (s.cond side).suspended ≠ [] := List.ne_nil_of_mem ((inv.suspended side t).mpr ⟨timed, waits⟩)
    cases side with
    | writer => exact writer here
    | reader =>
      obtain ⟨u, wakes⟩ := inv.holders free here
      rcases Bool.or_eq_true_iff.mp wakes with live | broadcasts
      · cases isAt : s.pc u with
        | wait side timed =>
          cases side with
          | reader => simp [isAt, RwPc.live, RwPc.woken] at live
          | writer => exact writer (List.ne_nil_of_mem ((inv.suspended .writer u).mpr ⟨timed, isAt⟩))
        | _ => exact ⟨u, Or.inl (by simpa [isAt, RwPc.live] using live)⟩
      · exact ⟨u, Or.inr (Or.inl broadcasts)⟩

/-! ## Counting -/

section counted
variable {pc : Nat → RwPc} {n : Int}

theorem Counted.keep (c : Counted pc side n) (same : p.counts side = (pc t).counts side) :
    Counted (update pc t p) side n := by
  obtain ⟨ts, nodup, member, length⟩ := c
  refine ⟨ts, nodup, fun u => ?_, length⟩
  rw [member]
  by_cases own : u = t
  · rw [own, update_self, same]
  · rw [update_of_ne own]

theorem Counted.add (c : Counted pc side n) (was : (pc t).counts side = false) (is : p.counts side = true) :
    Counted (update pc t p) side (n + 1) := by
  obtain ⟨ts, nodup, member, length⟩ := c
  have out : t ∉ ts := by simp [member, was]
  refine ⟨t :: ts, List.nodup_cons.mpr ⟨out, nodup⟩, fun u => ?_, by simp [length]⟩
  by_cases own : u = t
  · simp [own, is]
  · simp [own, member]

theorem Counted.drop (c : Counted pc side n) (was : (pc t).counts side = true) (is : p.counts side = false) :
    Counted (update pc t p) side (n + -1) := by
  obtain ⟨ts, nodup, member, length⟩ := c
  have inside : t ∈ ts := (member t).mpr was
  refine ⟨ts.erase t, nodup.erase t, fun u => ?_, ?_⟩
  · by_cases own : u = t
    · simp [own, is, nodup.not_mem_erase]
    · simp [own, List.mem_erase_of_ne own, member]
  · have shorter := List.length_erase_add_one inside
    omega

theorem Counted.pos (c : Counted pc side n) (counts : (pc t).counts side = true) : 0 < n := by
  obtain ⟨ts, _, member, length⟩ := c
  have some := List.length_pos_of_mem ((member t).mpr counts)
  omega

end counted

/-! ## One place changes -/

section places
variable {pc : Nat → RwPc} {m : Option Nat} {f : RwPc → Bool}

theorem exists_update (some : ∃ u, f (pc u) = true) (keep : f (pc t) = true → f p = true) :
    ∃ u, f (update pc t p u) = true := by
  obtain ⟨u, has⟩ := some
  by_cases own : u = t
  · subst own
    exact ⟨u, by rw [update_self]; exact keep has⟩
  · exact ⟨u, by rwa [update_of_ne own]⟩

theorem quiet_update {n : Int} (quiet : ∀ u, (pc u).broadcasting = true → n ≤ 0) (own : p.broadcasting = true → n ≤ 0) :
    ∀ u, (update pc t p u).broadcasting = true → n ≤ 0 := by
  intro u broadcasts
  by_cases same : u = t
  · rw [same, update_self] at broadcasts
    exact own broadcasts
  · rw [update_of_ne same] at broadcasts
    exact quiet u broadcasts

section
variable (mutex : ∀ u, (pc u).inside = true ↔ m = some u)
include mutex

theorem mutex_same (same : p.inside = (pc t).inside) :
    ∀ u, (update pc t p u).inside = true ↔ m = some u := by
  intro u
  by_cases own : u = t
  · rw [own, update_self, same, mutex]
  · rw [update_of_ne own, mutex]

theorem mutex_take (free : m = none) (is : p.inside = true) :
    ∀ u, (update pc t p u).inside = true ↔ some t = some u := by
  intro u
  by_cases own : u = t
  · simp [own, is]
  · have out : ¬(pc u).inside = true := by simp [mutex, free]
    simp [update_of_ne own, out, Ne.symm own]

theorem mutex_free (was : (pc t).inside = true) (is : p.inside = false) :
    ∀ u, (update pc t p u).inside = true ↔ none = some u := by
  intro u
  by_cases own : u = t
  · simp [own, is]
  · have holder : m = some t := (mutex t).mp was
    have out : ¬(pc u).inside = true := by simp [mutex, holder, Ne.symm own]
    simp [update_of_ne own, out]

end

theorem suspended_same {suspended : List Nat} (all : ∀ u, u ∈ suspended ↔ ∃ timed, pc u = .wait side timed)
    (was : ∀ side timed, pc t ≠ .wait side timed) (is : ∀ side timed, p ≠ .wait side timed) :
    ∀ u, u ∈ suspended ↔ ∃ timed, update pc t p u = .wait side timed := by
  intro u
  rw [all]
  by_cases own : u = t
  · simp [own, was, is]
  · rw [update_of_ne own]

end places

theorem Inv.only (inv : s.Inv) (mine : (s.pc t).inside = true) (his : (s.pc u).inside = true) : u = t :=
  Option.some.inj (((inv.mutex u).mp his).symm.trans ((inv.mutex t).mp mine))

theorem Inv.none_broadcasts (inv : s.Inv) (mine : (s.pc t).inside = true) (other : (s.pc t).broadcasting = false) (u : Nat) :
    ¬(s.pc u).broadcasting = true := by
  intro broadcasts
  have inside : (s.pc u).inside = true := by
    cases isAt : s.pc u <;> rw [isAt] at broadcasts <;> first | rfl | cases broadcasts
  rw [inv.only mine inside, other] at broadcasts
  cases broadcasts

section
variable (inv : s.Inv) (inside : p.inside = (s.pc t).inside) (counts : ∀ side, p.counts side = (s.pc t).counts side)
include inv inside counts

theorem Inv.jumpTo (was : ∀ side timed, s.pc t ≠ .wait side timed) (is : ∀ side timed, p ≠ .wait side timed)
    (unlocks : p = .enter .unlock ∨ p = .unlock → t ∈ s.readers ∨ t ∈ s.writers)
    (wakers : s.rwRefcount = 0 → (s.cond .writer).suspended ≠ [] → ∃ u, (update s.pc t p u).wakesWriters = true)
    (holders : s.rwRefcount = 0 → (s.cond .reader).suspended ≠ [] → ∃ u, (update s.pc t p u).wakesReaders = true)
    (quiet : p.broadcasting = true → s.nwait .writer ≤ 0) : (s.jump t p).Inv where
  mutex := mutex_same inv.mutex inside
  once := inv.once
  suspended side := suspended_same (inv.suspended side) was is
  counted side := (inv.counted side).keep (counts side)
  held := inv.held
  token := inv.token
  unlocks u goes := by
    change update s.pc t p u = _ ∨ update s.pc t p u = _ at goes
    by_cases own : u = t
    · subst own
      rw [update_self] at goes
      exact unlocks goes
    · rw [update_of_ne own] at goes
      exact inv.unlocks u goes
  wakers := wakers
  holders := holders
  quiet := quiet_update inv.quiet quiet

theorem Inv.jump (was : ∀ side timed, s.pc t ≠ .wait side timed) (is : ∀ side timed, p ≠ .wait side timed)
    (unlocks : p = .enter .unlock ∨ p = .unlock → t ∈ s.readers ∨ t ∈ s.writers)
    (wakes : s.rwRefcount = 0 → (s.cond .writer).suspended ≠ [] → (s.pc t).wakesWriters = true → p.wakesWriters = true)
    (holds : s.rwRefcount = 0 → (s.cond .reader).suspended ≠ [] → (s.pc t).wakesReaders = true → p.wakesReaders = true)
    (quiet : p.broadcasting = true → (s.pc t).broadcasting = true) : (s.jump t p).Inv :=
  inv.jumpTo inside counts was is unlocks (fun free some => exists_update (inv.wakers free some) (wakes free some))
    (fun free some => exists_update (inv.holders free some) (holds free some)) fun broadcasts => inv.quiet t (quiet broadcasts)

end

theorem Inv.take (inv : s.Inv) (taken : s.take t p = some s') (outside : (s.pc t).inside = false) (inside : p.inside = true)
    (counts : ∀ side, p.counts side = (s.pc t).counts side)
    (was : ∀ side timed, s.pc t ≠ .wait side timed) (is : ∀ side timed, p ≠ .wait side timed)
    (unlocks : p = .enter .unlock ∨ p = .unlock → t ∈ s.readers ∨ t ∈ s.writers)
    (wakes : (s.pc t).wakesWriters = true → p.wakesWriters = true)
    (holds : (s.pc t).wakesReaders = true → p.wakesReaders = true) (quiet : p.broadcasting = false) : s'.Inv := by
  unfold Rwlock.take at taken
  split at taken
  case isFalse => cases taken
  case isTrue free =>
    cases taken
    refine ⟨mutex_take inv.mutex free inside, inv.once, fun side => suspended_same (inv.suspended side) was is,
      fun side => (inv.counted side).keep (counts side), inv.held, inv.token, fun u goes => ?_,
      fun free some => exists_update (inv.wakers free some) wakes, fun free some => exists_update (inv.holders free some) holds,
      quiet_update inv.quiet (by simp [quiet])⟩
    change update s.pc t p u = _ ∨ update s.pc t p u = _ at goes
    by_cases own : u = t
    · subst own
      rw [update_self] at goes
      exact unlocks goes
    · rw [update_of_ne own] at goes
      exact inv.unlocks u goes

theorem setCond_self (side : Side) (cond : Cond) : (s.setCond side cond).cond side = cond := update_self ..

theorem setCond_of_ne {side other : Side} (cond : Cond) (differ : other ≠ side) : (s.setCond side cond).cond other = s.cond other :=
  update_of_ne differ ..

theorem Inv.setValue (inv : s.Inv) (side : Side) (value : Nat)
    (token : side = .reader → 0 < value → (s.cond .reader).suspended = []) :
    (s.setCond side { s.cond side with value }).Inv := by
  have same : ∀ other, ((s.setCond side { s.cond side with value }).cond other).suspended = (s.cond other).suspended := by
    intro other
    by_cases own : other = side
    · rw [own, setCond_self]
    · rw [setCond_of_ne _ own]
  refine ⟨inv.mutex, fun other => ?_, fun other u => ?_, inv.counted, inv.held, fun some => ?_, inv.unlocks, fun free some => ?_,
    fun free some => ?_, inv.quiet⟩
  · rw [same]
    exact inv.once other
  · rw [same]
    exact inv.suspended other u
  · rw [same]
    by_cases own : side = .reader
    · subst own
      rw [setCond_self] at some
      exact token rfl some
    · rw [setCond_of_ne _ (Ne.symm own)] at some
      exact inv.token some
  · rw [same] at some
    exact inv.wakers free some
  · rw [same] at some
    exact inv.holders free some

theorem Inv.awake (inv : s.Inv) {rest : List Nat} (waits : s.pc u = .wait side timed) (once : rest.Nodup)
    (others : ∀ v, v ∈ rest ↔ v ≠ u ∧ v ∈ (s.cond side).suspended)
    (holds : s.rwRefcount = 0 → (s.cond .reader).suspended ≠ [] →
      ∃ v, (update s.pc u (.relock side timed ok) v).wakesReaders = true) :
    ((s.setCond side { s.cond side with suspended := rest }).jump u (.relock side timed ok)).Inv := by
  have list : ∀ other v, v ∈ ((s.setCond side { s.cond side with suspended := rest }).cond other).suspended ↔
      v ≠ u ∧ v ∈ (s.cond other).suspended := by
    intro other v
    by_cases own : other = side
    · rw [own, setCond_self]
      exact others v
    · rw [setCond_of_ne _ own]
      refine ⟨fun inside => ⟨?_, inside⟩, And.right⟩
      rintro rfl
      obtain ⟨_, also⟩ := (inv.suspended other v).mp inside
      exact own (RwPc.wait.inj (also.symm.trans waits)).1
  have fewer : ∀ other, ((s.setCond side { s.cond side with suspended := rest }).cond other).suspended ≠ [] →
      (s.cond other).suspended ≠ [] := by
    intro other some
    obtain ⟨v, inside⟩ := List.exists_mem_of_ne_nil _ some
    exact List.ne_nil_of_mem ((list other v).mp inside).2
  have outside : (RwPc.relock side timed ok).inside = (s.pc u).inside := by rw [waits]; rfl
  have counts : ∀ other, (RwPc.relock side timed ok).counts other = (s.pc u).counts other := by
    intro other
    rw [waits]
    rfl
  refine ⟨mutex_same inv.mutex outside, fun other => ?_, fun other v => ?_,
    fun other => (inv.counted other).keep (counts other), inv.held, fun some => ?_, fun v goes => ?_, fun free some => ?_,
    fun free some => holds free (fewer .reader some), quiet_update inv.quiet nofun⟩
  · by_cases own : other = side
    · change ((s.setCond side { s.cond side with suspended := rest }).cond other).suspended.Nodup
      rw [own, setCond_self]
      exact once
    · change ((s.setCond side { s.cond side with suspended := rest }).cond other).suspended.Nodup
      rw [setCond_of_ne _ own]
      exact inv.once other
  · refine (list other v).trans ?_
    rw [inv.suspended]
    change _ ↔ ∃ timed', update s.pc u (.relock side timed ok) v = .wait other timed'
    by_cases own : v = u
    · simp [own]
    · simp [own]
  · have before : 0 < (s.cond .reader).value := by
      by_cases own : Side.reader = side
      · subst own
        have value : 0 < ((s.setCond .reader { s.cond .reader with suspended := rest }).cond .reader).value := some
        rwa [setCond_self] at value
      · have value : 0 < ((s.setCond side { s.cond side with suspended := rest }).cond .reader).value := some
        rwa [setCond_of_ne _ own] at value
    have none := inv.token before
    refine List.eq_nil_iff_forall_not_mem.mpr fun v inside => ?_
    have also := ((list .reader v).mp inside).2
    rw [none] at also
    cases also
  · change update s.pc u (.relock side timed ok) v = _ ∨ update s.pc u (.relock side timed ok) v = _ at goes
    by_cases own : v = u
    · simp [own] at goes
    · rw [update_of_ne own] at goes
      exact inv.unlocks v goes
  · refine exists_update (inv.wakers free (fewer .writer some)) fun wakes => ?_
    have wakes : (s.pc u).wakesWriters = true := wakes
    rw [waits] at wakes
    cases side <;> cases wakes

theorem Inv.release (inv : s.Inv) (side : Side) : (s.release side).Inv := by
  unfold Rwlock.release
  split
  case h_1 empty =>
    refine inv.setValue side _ fun isReader _ => ?_
    rw [← isReader]
    exact empty
  case h_2 u rest isCons =>
    obtain ⟨timed, waits⟩ := (inv.suspended side u).mp (by rw [isCons]; exact List.mem_cons_self)
    have nodup := inv.once side
    rw [isCons] at nodup
    obtain ⟨fresh, nodup⟩ := List.nodup_cons.mp nodup
    simp only [waits]
    refine inv.awake waits nodup (fun v => ?_) fun free some => ?_
    · rw [isCons, List.mem_cons]
      refine ⟨fun inside => ⟨?_, Or.inr inside⟩, fun ⟨differ, inside⟩ => inside.resolve_left differ⟩
      rintro rfl
      exact fresh inside
    · refine exists_update (inv.holders free some) fun wakes => ?_
      rw [waits] at wakes
      cases side with
      | reader => cases wakes
      | writer => rfl

theorem Inv.release_pc (inv : s.Inv) (side : Side) (noWait : ∀ side timed, s.pc t ≠ .wait side timed) :
    (s.release side).pc t = s.pc t := by
  unfold Rwlock.release
  split
  case h_1 => rfl
  case h_2 u rest isCons =>
    obtain ⟨timed, waits⟩ := (inv.suspended side u).mp (by rw [isCons]; exact List.mem_cons_self)
    have differ : t ≠ u := by
      rintro rfl
      exact noWait side timed waits
    exact update_of_ne differ _ _

theorem release_woken (side : Side) (more : ((s.release side).cond side).suspended ≠ []) :
    ∃ u timed, (s.release side).pc u = .relock side timed true := by
  unfold Rwlock.release at more ⊢
  split
  case h_1 empty =>
    rw [empty] at more
    dsimp only at more
    rw [setCond_self] at more
    exact absurd empty more
  case h_2 u rest isCons => exact ⟨u, _, update_self ..⟩

theorem Inv.timeout (inv : s.Inv) (waits : s.pc t = .wait side true) (timely : s.Timely (.timeout t)) :
    ((s.setCond side { s.cond side with suspended := (s.cond side).suspended.erase t }).jump t (.relock side true false)).Inv := by
  refine inv.awake waits ((inv.once side).erase t) (fun v => (inv.once side).mem_erase_iff) fun free some => ?_
  cases side with
  | reader =>
    refine exists_update (inv.holders free some) fun wakes => ?_
    rw [waits] at wakes
    cases wakes
  | writer =>
    simp only [Timely, waits] at timely
    obtain ⟨u, differ, live⟩ := timely free some
    refine ⟨u, ?_⟩
    rw [update_of_ne differ, RwPc.wakesReaders, live]
    rfl

theorem Inv.acquire (inv : s.Inv) (isInside : (s.pc t).inside = true) (counts : ∀ side, (s.pc t).counts side = false)
    (idle : s.busy side = false) : ((s.acquire t side).jump t .leave).Inv := by
  have was : ∀ side timed, s.pc t ≠ .wait side timed := by
    intro side timed waits
    rw [waits] at isInside
    cases isInside
  have unlocks : ∀ u, update s.pc t .leave u = .enter .unlock ∨ update s.pc t .leave u = .unlock →
      u ∈ s.readers ∨ u ∈ s.writers := by
    intro u goes
    by_cases own : u = t
    · simp [own] at goes
    · rw [update_of_ne own] at goes
      exact inv.unlocks u goes
  cases side with
  | reader =>
    have nonneg : 0 ≤ s.rwRefcount ∧ s.nwait .writer ≤ 0 := by
      simp only [busy, Bool.or_eq_false_iff, decide_eq_false_iff_not] at idle
      exact ⟨Int.not_lt.mp idle.1, Int.not_lt.mp idle.2⟩
    have taken : ¬s.rwRefcount + 1 = 0 := by omega
    refine ⟨mutex_same inv.mutex isInside.symm, inv.once, fun side => suspended_same (inv.suspended side) was (by simp),
      fun side => (inv.counted side).keep (counts side).symm, ?_, inv.token, fun u goes => ?_,
      fun free => absurd free taken, fun free => absurd free taken, quiet_update inv.quiet nofun⟩
    · rcases inv.held with ⟨none, count⟩ | ⟨u, _, _, count⟩
      · refine Or.inl ⟨none, ?_⟩
        change s.rwRefcount + 1 = ((t :: s.readers).length : Int)
        rw [count, List.length_cons]
        rfl
      · omega
    · exact (unlocks u goes).imp_left (List.mem_cons_of_mem t)
  | writer =>
    have free : s.rwRefcount = 0 := by simpa [busy] using idle
    have taken : ¬(-1 : Int) = 0 := by decide
    refine ⟨mutex_same inv.mutex isInside.symm, inv.once, fun side => suspended_same (inv.suspended side) was (by simp),
      fun side => (inv.counted side).keep (counts side).symm, ?_, inv.token, fun u goes => ?_,
      fun free => absurd free taken, fun free => absurd free taken, quiet_update inv.quiet nofun⟩
    · rcases inv.held with ⟨none, count⟩ | ⟨u, _, _, count⟩
      · have nobody : s.readers = [] := List.length_eq_zero_iff.mp (by omega)
        exact Or.inr ⟨t, by simp [Rwlock.jump, Rwlock.acquire, none], nobody, rfl⟩
      · omega
    · exact (unlocks u goes).imp_right (List.mem_cons_of_mem t)

theorem addWait_back (side : Side) : (s.addWait side 1).addWait side (-1) = s := by
  unfold addWait
  simp only [update_self, Function.update_idem]
  rw [show s.nwait side + 1 + -1 = s.nwait side by omega, Function.update_eq_self]

theorem Inv.suspend (inv : s.Inv) (isLoop : s.pc t = .loop side timed) (busy : s.busy side = true)
    (none : (s.cond side).value = 0) (timely : side = .reader → s.rwRefcount = 0 → s.LiveWriter t) :
    ({ ((s.addWait side 1).setCond side { s.cond side with suspended := (s.cond side).suspended ++ [t] }).jump t
        (.wait side timed) with rwMutex := Option.none }).Inv := by
  have fresh : t ∉ (s.cond side).suspended := by
    intro inside
    obtain ⟨_, waits⟩ := (inv.suspended side t).mp inside
    simp [isLoop] at waits
  have inside : (s.pc t).inside = true := by rw [isLoop]; rfl
  have list : ∀ other v, v ∈ ((s.setCond side { s.cond side with suspended := (s.cond side).suspended ++ [t] }).cond other).suspended ↔
      other = side ∧ v = t ∨ v ∈ (s.cond other).suspended := by
    intro other v
    by_cases own : other = side
    · rw [own, setCond_self]
      simp [or_comm]
    · rw [setCond_of_ne _ own]
      simp [own]
  refine ⟨mutex_free inv.mutex inside rfl, fun other => ?_, fun other v => ?_, fun other => ?_, inv.held, fun some => ?_,
    fun v goes => ?_, fun free some => ?_, fun free some => ?_, quiet_update (fun u broadcasts => ?_) nofun⟩
  · change ((s.setCond side { s.cond side with suspended := (s.cond side).suspended ++ [t] }).cond other).suspended.Nodup
    by_cases own : other = side
    · rw [own, setCond_self]
      exact (List.perm_append_singleton t _).nodup_iff.mpr (List.nodup_cons.mpr ⟨fresh, inv.once side⟩)
    · rw [setCond_of_ne _ own]
      exact inv.once other
  · refine (list other v).trans ?_
    rw [inv.suspended]
    change _ ↔ ∃ timed', update s.pc t (.wait side timed) v = .wait other timed'
    by_cases own : v = t
    · simp [own, isLoop, eq_comm]
    · simp [own]
  · change Counted (update s.pc t (.wait side timed)) other (update s.nwait side (s.nwait side + 1) other)
    by_cases own : other = side
    · subst own
      rw [update_self]
      exact (inv.counted other).add (by rw [isLoop]; rfl) (by simp [RwPc.counts])
    · rw [update_of_ne own]
      refine (inv.counted other).keep ?_
      rw [isLoop]
      simp [RwPc.counts, Ne.symm own]
  · have value : 0 < ((s.setCond side { s.cond side with suspended := (s.cond side).suspended ++ [t] }).cond .reader).value := some
    by_cases own : Side.reader = side
    · subst own
      rw [setCond_self] at value
      exact absurd none (Nat.ne_of_gt value)
    · rw [setCond_of_ne _ own] at value
      change ((s.setCond side { s.cond side with suspended := (s.cond side).suspended ++ [t] }).cond .reader).suspended = []
      rw [setCond_of_ne _ own]
      exact inv.token value
  · change update s.pc t (.wait side timed) v = _ ∨ update s.pc t (.wait side timed) v = _ at goes
    by_cases own : v = t
    · simp [own] at goes
    · rw [update_of_ne own] at goes
      exact inv.unlocks v goes
  · cases side with
    | writer => simp [Rwlock.busy, show s.rwRefcount = 0 from free] at busy
    | reader =>
      refine exists_update (inv.wakers free some) fun wakes => ?_
      have wakes : (s.pc t).wakesWriters = true := wakes
      rw [isLoop] at wakes
      cases wakes
  · cases side with
    | writer => simp [Rwlock.busy, show s.rwRefcount = 0 from free] at busy
    | reader =>
      obtain ⟨u, differ, live⟩ := timely rfl free
      refine ⟨u, ?_⟩
      change (update s.pc t (.wait .reader timed) u).wakesReaders = true
      rw [update_of_ne differ, RwPc.wakesReaders, live]
      rfl
  · exact absurd broadcasts (inv.none_broadcasts inside (by rw [isLoop]; rfl) u)

theorem Inv.loopTurn (inv : s.Inv) {expired : Bool} (isLoop : s.pc t = .loop side timed) (timely : s.Timely (.go t expired)) :
    (s.loopTurn t side timed expired).Inv := by
  have inside : (s.pc t).inside = true := by rw [isLoop]; rfl
  have counts : ∀ other, (s.pc t).counts other = false := by
    intro other
    rw [isLoop]
    rfl
  unfold Rwlock.loopTurn
  split
  case isFalse idle => exact inv.acquire inside counts (by simpa using idle)
  case isTrue busy =>
    dsimp only
    split
    case isTrue some =>
      have back : ((s.addWait side 1).setCond side { s.cond side with value := (s.cond side).value - 1 }).addWait side (-1) =
          s.setCond side { s.cond side with value := (s.cond side).value - 1 } :=
        congrArg (fun w : Rwlock => w.setCond side { s.cond side with value := (s.cond side).value - 1 }) (addWait_back side)
      rw [show (s.addWait side 1).cond = s.cond from rfl, back]
      refine inv.setValue side _ fun isReader _ => ?_
      subst isReader
      exact inv.token some
    case isFalse none =>
      have none : (s.cond side).value = 0 := Nat.eq_zero_of_not_pos none
      split
      case isTrue =>
        rw [addWait_back]
        refine inv.jump inside.symm (fun other => (counts other).symm) (by simp [isLoop]) (by simp) (by simp) (fun free _ wakes => ?_)
          (fun free _ wakes => ?_) nofun
        · cases side with
          | reader => simp [isLoop, RwPc.wakesWriters, RwPc.woken, RwPc.signalling] at wakes
          | writer => simp [Rwlock.busy, free] at busy
        · cases side with
          | reader => simp [isLoop, RwPc.wakesReaders, RwPc.live, RwPc.woken, RwPc.broadcasting] at wakes
          | writer => simp [Rwlock.busy, free] at busy
      case isFalse inTime =>
        refine inv.suspend isLoop busy none fun isReader free => ?_
        subst isReader
        simp only [Timely, isLoop] at timely
        have waiting : 0 < s.nwait .writer := by simpa [Rwlock.busy, free] using busy
        exact timely free waiting none (by simpa using inTime)

theorem Inv.handBack (inv : s.Inv) (isUnlock : s.pc t = .unlock) {count : Int} {readers writers : List Nat}
    (held : writers = [] ∧ count = readers.length ∨ ∃ u, writers = [u] ∧ readers = [] ∧ count = -1)
    (others : ∀ u, u ≠ t → u ∈ s.readers ∨ u ∈ s.writers → u ∈ readers ∨ u ∈ writers)
    (inside : p.inside = true) (counts : ∀ side, p.counts side = false) (noUnlock : ¬(p = .enter .unlock ∨ p = .unlock))
    (wakes : count = 0 → (s.cond .writer).suspended ≠ [] → p.wakesWriters = true)
    (holds : count = 0 → (s.cond .reader).suspended ≠ [] → p.wakesReaders = true ∨ s.LiveWriter t)
    (quiet : p.broadcasting = true → s.nwait .writer ≤ 0) :
    ({ s with rwRefcount := count, readers, writers }.jump t p).Inv := by
  have same : p.inside = (s.pc t).inside := by rw [inside, isUnlock]; rfl
  have noWait : ∀ side timed, p ≠ .wait side timed := by
    rintro side timed rfl
    cases inside
  refine ⟨mutex_same inv.mutex same, inv.once, fun side => suspended_same (inv.suspended side) (by simp [isUnlock]) noWait,
    fun side => (inv.counted side).keep (by rw [counts, isUnlock]; rfl), held, inv.token, fun u goes => ?_, fun free some => ?_,
    fun free some => ?_, quiet_update inv.quiet quiet⟩
  · change update s.pc t p u = _ ∨ update s.pc t p u = _ at goes
    by_cases own : u = t
    · rw [own, update_self] at goes
      exact absurd goes noUnlock
    · rw [update_of_ne own] at goes
      exact others u own (inv.unlocks u goes)
  · exact ⟨t, (congrArg RwPc.wakesWriters (update_self ..)).trans (wakes free some)⟩
  · rcases holds free some with wakes | ⟨u, differ, live⟩
    · exact ⟨t, (congrArg RwPc.wakesReaders (update_self ..)).trans wakes⟩
    · refine ⟨u, ?_⟩
      change (update s.pc t p u).wakesReaders = true
      rw [update_of_ne differ, RwPc.wakesReaders, live]
      rfl

theorem Inv.unlockTurn (inv : s.Inv) {expired : Bool} (isUnlock : s.pc t = .unlock) (timely : s.Timely (.go t expired)) :
    (s.unlockTurn t).Inv := by
  simp only [Timely, isUnlock] at timely
  have given : ∃ count readers writers,
      (if s.rwRefcount > 0 then { s with rwRefcount := s.rwRefcount - 1, readers := s.readers.erase t }
        else if s.rwRefcount = -1 then { s with rwRefcount := 0, writers := s.writers.erase t } else s) =
        { s with rwRefcount := count, readers, writers } ∧
      (writers = [] ∧ count = (readers.length : Int) ∨ ∃ u, writers = [u] ∧ readers = [] ∧ count = -1) ∧
      (∀ u, u ≠ t → u ∈ s.readers ∨ u ∈ s.writers → u ∈ readers ∨ u ∈ writers) ∧
      (count = 0 → s.rwRefcount = 1 ∨ s.rwRefcount = -1) := by
    have has := inv.unlocks t (Or.inr isUnlock)
    rcases inv.held with ⟨none, count⟩ | ⟨u, only, nobody, count⟩
    · have reads : t ∈ s.readers := by simpa [none] using has
      have length := List.length_erase_add_one reads
      have positive : s.rwRefcount > 0 := by omega
      refine ⟨s.rwRefcount - 1, s.readers.erase t, s.writers, if_pos positive, Or.inl ⟨none, by omega⟩, fun u differ => ?_,
        fun zero => Or.inl (by omega)⟩
      exact Or.imp_left (List.mem_erase_of_ne differ).mpr
    · have writes : u = t := by simpa [only, nobody, eq_comm] using has
      subst writes
      have negative : ¬s.rwRefcount > 0 := by omega
      refine ⟨0, s.readers, s.writers.erase u, (if_neg negative).trans (if_pos count), Or.inl ⟨by simp [only], by simp [nobody]⟩,
        fun v differ has => ?_, fun _ => Or.inr count⟩
      exact absurd has (by simp [only, nobody, differ])
  obtain ⟨count, readers, writers, isGiven, held, others, became⟩ := given
  have noWriter : ¬0 < s.nwait .writer → (s.cond .writer).suspended = [] := by
    intro none
    refine List.eq_nil_iff_forall_not_mem.mpr fun u inside => none ?_
    obtain ⟨_, waits⟩ := (inv.suspended .writer u).mp inside
    exact (inv.counted .writer).pos (by rw [waits]; rfl)
  have noReader : ¬0 < s.nwait .reader → (s.cond .reader).suspended = [] := by
    intro none
    refine List.eq_nil_iff_forall_not_mem.mpr fun u inside => none ?_
    obtain ⟨_, waits⟩ := (inv.suspended .reader u).mp inside
    exact (inv.counted .reader).pos (by rw [waits]; rfl)
  unfold Rwlock.unlockTurn
  simp only [isGiven]
  split
  case isTrue waiting =>
    split
    case isTrue zero =>
      exact inv.handBack isUnlock held others rfl (fun _ => rfl) (by simp) (fun _ _ => rfl)
        (fun free some => Or.inr (timely (became free) waiting some)) nofun
    case isFalse notFree =>
      exact inv.handBack isUnlock held others rfl (fun _ => rfl) (by simp) (fun free => absurd free notFree)
        (fun free => absurd free notFree) nofun
  case isFalse noneWaits =>
    split
    case isTrue =>
      exact inv.handBack isUnlock held others rfl (fun _ => rfl) (by simp) (fun _ some => absurd (noWriter noneWaits) some)
        (fun _ _ => Or.inl rfl) fun _ => Int.not_lt.mp noneWaits
    case isFalse noneReads =>
      exact inv.handBack isUnlock held others rfl (fun _ => rfl) (by simp) (fun _ some => absurd (noWriter noneWaits) some)
        (fun _ some => absurd (noReader noneReads) some) nofun

theorem Inv.back (inv : s.Inv) (isBack : s.pc t = .back side timed ok) :
    ((s.addWait side (-1)).jump t (if ok then .loop side timed else .leave)).Inv := by
  have inside : (if ok then RwPc.loop side timed else .leave).inside = (s.pc t).inside := by
    rw [isBack]
    cases ok <;> rfl
  have noWait : ∀ other timed, s.pc t ≠ .wait other timed := by simp [isBack]
  refine ⟨mutex_same inv.mutex inside, inv.once,
    fun other => suspended_same (inv.suspended other) noWait (by cases ok <;> simp), fun other => ?_, inv.held, inv.token,
    fun u goes => ?_, fun free some => exists_update (inv.wakers free some) fun wakes => ?_,
    fun free some => exists_update (inv.holders free some) fun wakes => ?_,
    quiet_update (fun u broadcasts => ?_) (by cases ok <;> exact nofun)⟩
  · change Counted (update s.pc t (if ok then .loop side timed else .leave)) other
      (update s.nwait side (s.nwait side + -1) other)
    by_cases own : other = side
    · subst own
      rw [update_self]
      exact (inv.counted other).drop (by rw [isBack]; simp [RwPc.counts]) (by cases ok <;> rfl)
    · rw [update_of_ne own]
      refine (inv.counted other).keep ?_
      rw [isBack]
      cases ok <;> simp [RwPc.counts, Ne.symm own]
  · change update s.pc t (if ok then .loop side timed else .leave) u = _ ∨
      update s.pc t (if ok then .loop side timed else .leave) u = _ at goes
    by_cases own : u = t
    · cases ok <;> simp [own] at goes
    · rw [update_of_ne own] at goes
      exact inv.unlocks u goes
  · have wakes : (s.pc t).wakesWriters = true := wakes
    rw [isBack] at wakes
    cases side <;> cases ok <;> first | rfl | cases wakes
  · have wakes : (s.pc t).wakesReaders = true := wakes
    rw [isBack] at wakes
    cases side <;> cases ok <;> first | rfl | cases wakes
  · exact absurd broadcasts (inv.none_broadcasts (by rw [isBack]; rfl) (by rw [isBack]; rfl) u)

/-! ## Every run -/

attribute [local simp] RwPc.woken RwPc.counts RwPc.broadcasting RwPc.signalling RwPc.wakesWriters RwPc.wakesReaders RwPc.live in
theorem Inv.go (inv : s.Inv) {expired : Bool} (timely : s.Timely (.go t expired)) (goes : s.go t expired = some s') : s'.Inv := by
  unfold Rwlock.go at goes
  split at goes
  case h_1 => cases goes
  case h_2 => cases goes
  case h_3 side timed isAt | h_4 side isAt =>
    exact inv.take goes (by rw [isAt]; rfl) rfl (by simp [isAt]) (by simp [isAt]) (by simp) (by simp)
      (by simp [isAt])
      (by simp [isAt]) rfl
  case h_5 isAt =>
    exact inv.take goes (by rw [isAt]; rfl) rfl (by simp [isAt]) (by simp [isAt]) (by simp)
      (fun _ => inv.unlocks t (Or.inl isAt)) (by simp [isAt])
      (by simp [isAt]) rfl
  case h_6 side timed ok isAt =>
    refine inv.take goes (by rw [isAt]; rfl) rfl (by simp [isAt]) (by simp [isAt]) (by simp) (by simp)
      (fun wakes => ?_) (fun wakes => ?_) rfl
    · rw [isAt] at wakes
      cases side <;> exact wakes
    · rw [isAt] at wakes
      cases side <;> exact wakes
  case h_7 side isAt =>
    cases goes
    split
    case isTrue =>
      exact inv.jump (by rw [isAt]; rfl) (by simp [isAt]) (by simp [isAt]) (by simp) (by simp)
        (by simp [isAt])
        (by simp [isAt]) nofun
    case isFalse idle => exact inv.acquire (by rw [isAt]; rfl) (by simp [isAt]) (by simpa using idle)
  case h_8 isAt =>
    cases goes
    exact inv.unlockTurn isAt timely
  case h_9 side timed isAt =>
    cases goes
    exact inv.loopTurn isAt timely
  case h_10 side timed ok isAt =>
    cases goes
    exact inv.back isAt
  case h_11 isAt =>
    cases goes
    split
    case isTrue none =>
      exact inv.jump (by rw [isAt]; rfl) (by simp [isAt]) (by simp [isAt]) (by simp) (by simp)
        (fun _ some => absurd none some) (by simp [isAt]) nofun
    case isFalse =>
      exact inv.jump (by rw [isAt]; rfl) (by simp [isAt]) (by simp [isAt]) (by simp) (by simp)
        (fun _ _ _ => rfl) (by simp [isAt]) nofun
  case h_12 isAt =>
    cases goes
    have noWait : ∀ side timed, s.pc t ≠ .wait side timed := by simp [isAt]
    have still := (inv.release_pc .writer noWait).trans isAt
    have released := inv.release .writer
    refine released.jumpTo (by rw [still]; rfl) (by simp [still]) (by simp [still]) (by simp) (by simp)
      (fun _ some => ?_) (fun free some => exists_update (released.holders free some) ?_) nofun
    · obtain ⟨u, timed, woken⟩ := release_woken .writer some
      refine ⟨u, ?_⟩
      have differ : u ≠ t := by
        rintro rfl
        rw [still] at woken
        cases woken
      rw [update_of_ne differ, woken]
      rfl
    · rw [still]
      exact nofun
  case h_13 isAt =>
    cases goes
    split
    case isTrue some =>
      refine (inv.setValue .reader _ fun _ _ => inv.token some).jump ?_ ?_ ?_ (by simp) (by simp) ?_ (fun _ more => ?_) nofun
      · exact (congrArg RwPc.inside isAt).symm
      · exact fun side => (congrArg (RwPc.counts side) isAt).symm
      · intro side timed waits
        have waits : s.pc t = .wait side timed := waits
        simp [isAt] at waits
      · intro _ _ wakes
        have wakes : (s.pc t).wakesWriters = true := wakes
        rw [isAt] at wakes
        cases wakes
      · rw [setCond_self] at more
        exact absurd (inv.token some) more
    case isFalse =>
      exact inv.jump (by rw [isAt]; rfl) (by simp [isAt]) (by simp [isAt]) (by simp) (by simp)
        (by simp [isAt]) (fun _ _ _ => rfl) fun _ => by rw [isAt]; rfl
  case h_14 isAt =>
    cases goes
    have noWait : ∀ side timed, s.pc t ≠ .wait side timed := by simp [isAt]
    have still := (inv.release_pc .reader noWait).trans isAt
    exact (inv.release .reader).jump (by rw [still]; rfl) (by simp [still]) (by simp [still]) (by simp) (by simp)
      (by simp [still]) (fun _ _ _ => rfl) fun _ => by rw [still]; rfl
  case h_15 isAt =>
    cases goes
    have noWait : ∀ side timed, s.pc t ≠ .wait side timed := by simp [isAt]
    have still := (inv.release_pc .reader noWait).trans isAt
    exact (inv.release .reader).jump (by rw [still]; rfl) (by simp [still]) (by simp [still]) (by simp) (by simp)
      (by simp [still])
      (by simp [still]) nofun
  case h_16 isAt =>
    cases goes
    have noWait : ∀ side timed, s.pc t ≠ .wait side timed := by simp [isAt]
    refine ⟨mutex_free inv.mutex (by rw [isAt]; rfl) rfl, inv.once,
      fun side => suspended_same (inv.suspended side) noWait (by simp),
      fun side => (inv.counted side).keep (by rw [isAt]; rfl), inv.held, inv.token, fun u goes => ?_,
      fun free some => exists_update (inv.wakers free some) fun wakes => ?_,
      fun free some => exists_update (inv.holders free some) fun wakes => ?_, quiet_update inv.quiet nofun⟩
    · change update s.pc t .rest u = _ ∨ update s.pc t .rest u = _ at goes
      by_cases own : u = t
      · simp [own] at goes
      · rw [update_of_ne own] at goes
        exact inv.unlocks u goes
    · rw [isAt] at wakes
      cases wakes
    · rw [isAt] at wakes
      cases wakes

theorem Inv.step (inv : s.Inv) {a : RwAction} (timely : s.Timely a) (taken : s.step a = some s') : s'.Inv := by
  cases a with
  | call t call =>
    simp only [Rwlock.step] at taken
    split at taken
    case isFalse => cases taken
    case isTrue may =>
      cases taken
      simp only [mayCall, Bool.and_eq_true, decide_eq_true_eq] at may
      obtain ⟨rests, holds⟩ := may
      refine inv.jump (by rw [rests]; rfl) (by simp [rests, RwPc.counts]) (by simp [rests]) (by simp) (fun unlocks => ?_)
        (by simp [rests, RwPc.wakesWriters, RwPc.woken, RwPc.signalling])
        (by simp [rests, RwPc.wakesReaders, RwPc.live, RwPc.woken, RwPc.broadcasting]) nofun
      have isUnlock : call = .unlock := by simpa using unlocks
      simpa [isUnlock] using holds
  | go t expired => exact inv.go timely taken
  | timeout t =>
    simp only [Rwlock.step] at taken
    split at taken
    case h_1 side waits =>
      cases taken
      exact inv.timeout waits timely
    case h_2 => cases taken

theorem Inv.live_of_wakes (inv : s.Inv) (mine : (s.pc t).inside = true) (quiet : (s.pc t).wakesWriters = false)
    (none : (s.pc t).broadcasting = false) {v : Nat}
    (wakes : (s.pc v).woken = true ∨ (s.pc v).broadcasting = true ∨ (s.pc v).signalling = true) : s.LiveWriter t := by
  have other : v ≠ t := by
    rintro rfl
    simp only [RwPc.wakesWriters, Bool.or_eq_false_iff] at quiet
    simp [quiet, none] at wakes
  refine ⟨v, other, ?_⟩
  rcases wakes with woken | inside
  · cases isAt : s.pc v with
    | wait side timed => simp [isAt, RwPc.woken] at woken
    | _ => simpa [isAt, RwPc.live] using woken
  · refine absurd (inv.only mine ?_) other
    cases isAt : s.pc v <;> simp [isAt, RwPc.broadcasting, RwPc.signalling, RwPc.inside] at inside ⊢

theorem Inv.timely (inv : s.Inv) {a : RwAction} (taken : s.step a = some s') (sound : s'.Sound) : s.Timely a := by
  cases a with
  | call t call => trivial
  | go t expired =>
    simp only [Timely]
    split
    case h_1 isUnlock =>
      intro became waiting some
      simp only [Rwlock.step, Rwlock.go, isUnlock, Option.some.injEq] at taken
      subst taken
      have zero : (s.unlockTurn t).rwRefcount = 0 ∧ (s.unlockTurn t).pc = update s.pc t .signal ∧
          (s.unlockTurn t).cond = s.cond := by
        unfold Rwlock.unlockTurn
        rcases became with one | minus
        · simp [one, waiting, Rwlock.jump]
        · simp [minus, waiting, Rwlock.jump]
      obtain ⟨v, inside⟩ := List.exists_mem_of_ne_nil _ some
      obtain ⟨timed, waits⟩ := (inv.suspended .reader v).mp inside
      have differ : v ≠ t := by
        rintro rfl
        simp [isUnlock] at waits
      obtain ⟨u, wakes⟩ := sound.awaited zero.1 v .reader timed (by rw [zero.2.1, update_of_ne differ, waits])
      unfold Wakes at wakes
      rw [zero.2.1, zero.2.2] at wakes
      by_cases own : u = t
      · subst own
        rw [update_self] at wakes
        obtain ⟨w, inside⟩ := List.exists_mem_of_ne_nil _ ((wakes.resolve_left nofun).resolve_left nofun).2
        obtain ⟨timed', waits'⟩ := (inv.suspended .writer w).mp inside
        refine ⟨w, ?_, by rw [waits']; rfl⟩
        rintro rfl
        simp [isUnlock] at waits'
      · rw [update_of_ne own] at wakes
        exact inv.live_of_wakes (by rw [isUnlock]; rfl) (by rw [isUnlock]; rfl) (by rw [isUnlock]; rfl)
          (wakes.imp_right (Or.imp_right And.left))
    case h_2 timed isLoop =>
      intro free waiting none inTime
      simp only [Rwlock.step, Rwlock.go, isLoop, Option.some.injEq] at taken
      subst taken
      have busy : s.busy .reader = true := by simp [Rwlock.busy, waiting]
      have noToken : ¬((s.addWait .reader 1).cond .reader).value > 0 := by
        change ¬(s.cond .reader).value > 0
        omega
      have after : (s.loopTurn t .reader timed expired).rwRefcount = 0 ∧
          (s.loopTurn t .reader timed expired).pc = update s.pc t (.wait .reader timed) := by
        unfold Rwlock.loopTurn
        simp only [busy, if_true, if_neg noToken, inTime]
        exact ⟨free, rfl⟩
      obtain ⟨u, wakes⟩ := sound.awaited after.1 t .reader timed (by rw [after.2, update_self])
      unfold Wakes at wakes
      rw [after.2] at wakes
      by_cases own : u = t
      · subst own
        rw [update_self] at wakes
        rcases wakes with woken | broadcasts | ⟨signals, _⟩
        · cases woken
        · cases broadcasts
        · cases signals
      · rw [update_of_ne own] at wakes
        exact inv.live_of_wakes (by rw [isLoop]; rfl) (by rw [isLoop]; rfl) (by rw [isLoop]; rfl)
          (wakes.imp_right (Or.imp_right And.left))
    case h_3 => trivial
  | timeout t =>
    simp only [Timely]
    split
    case h_1 timed isWait =>
      intro free some
      cases timed with
      | false => simp [Rwlock.step, isWait] at taken
      | true =>
        simp only [Rwlock.step, isWait, Option.some.injEq] at taken
        subst taken
        obtain ⟨v, inside⟩ := List.exists_mem_of_ne_nil _ some
        obtain ⟨timed, waits⟩ := (inv.suspended .reader v).mp inside
        have differ : v ≠ t := by
          rintro rfl
          simp [isWait] at waits
        obtain ⟨u, wakes⟩ := sound.awaited free v .reader timed ((update_of_ne differ _ _).trans waits)
        have place : ∀ w, ((s.setCond .writer { s.cond .writer with suspended := (s.cond .writer).suspended.erase t }).jump t
            (.relock .writer true false)).pc w = update s.pc t (.relock .writer true false) w := fun _ => rfl
        have list : (((s.setCond .writer { s.cond .writer with suspended := (s.cond .writer).suspended.erase t }).jump t
            (.relock .writer true false)).cond .writer).suspended = (s.cond .writer).suspended.erase t :=
          congrArg Cond.suspended (setCond_self ..)
        unfold Wakes at wakes
        rw [place, list] at wakes
        by_cases own : u = t
        · subst own
          rw [update_self] at wakes
          rcases wakes with woken | broadcasts | ⟨signals, _⟩
          · cases woken
          · cases broadcasts
          · cases signals
        · rw [update_of_ne own] at wakes
          rcases wakes with woken | broadcasts | ⟨_, more⟩
          · refine ⟨u, own, ?_⟩
            cases isAt : s.pc u with
            | wait side timed => simp [isAt, RwPc.woken] at woken
            | _ => simpa [isAt, RwPc.live] using woken
          · have counted := (inv.counted .writer).pos (t := t) (by rw [isWait]; rfl)
            have none := inv.quiet u broadcasts
            omega
          · obtain ⟨w, inside⟩ := List.exists_mem_of_ne_nil _ more
            obtain ⟨other, inside⟩ := (inv.once .writer).mem_erase_iff.mp inside
            obtain ⟨timed', waits'⟩ := (inv.suspended .writer w).mp inside
            exact ⟨w, other, by rw [waits']; rfl⟩
    case h_2 => trivial

theorem Inv.start : Rwlock.init.Inv where
  mutex _ := by simp [Rwlock.init, RwPc.inside]
  once _ := List.nodup_nil
  suspended _ _ := by simp [Rwlock.init]
  counted _ := ⟨[], List.nodup_nil, fun _ => by simp [Rwlock.init, RwPc.counts], rfl⟩
  held := Or.inl ⟨rfl, rfl⟩
  token _ := rfl
  unlocks _ goes := by simp [Rwlock.init] at goes
  wakers _ some := absurd rfl some
  holders _ some := absurd rfl some
  quiet _ broadcasts := by cases broadcasts

/-- Nobody waits in vain for the read-write lock, just if no reader is held back, from the lock being free on, by
writers that have all timed out. -/
theorem rwlock_sound (actions : List RwAction) :
    Throughout (fun s a s' => s.step a = some s') Rwlock.init actions Sound ↔
      EachStep (fun s a s' => s.step a = some s') Rwlock.init actions Timely :=
  throughout_iff_eachStep (fun _ inv => inv.sound) (fun _ _ _ inv timely taken => inv.step timely taken)
    (fun _ _ _ inv taken sound => inv.timely taken sound) Inv.start

/-! ## A reader that stays suspended -/

def actor : RwAction → Nat
  | .call t _ => t
  | .go t _ => t
  | .timeout t => t

def Unsuspended (s : Rwlock) (u : Nat) : Prop := ∀ side, u ∉ (s.cond side).suspended

section
variable (free : s.Unsuspended u)
include free

theorem Unsuspended.setCond {cond : Cond} (out : u ∉ cond.suspended) :
    (s.setCond side cond).Unsuspended u := by
  intro other
  by_cases own : other = side
  · rw [own, setCond_self]
    exact out
  · rw [setCond_of_ne _ own]
    exact free other

theorem Unsuspended.release (side : Side) :
    (s.release side).pc u = s.pc u ∧ (s.release side).Unsuspended u := by
  unfold Rwlock.release
  split
  case h_1 empty => exact ⟨rfl, free.setCond (free side)⟩
  case h_2 v rest isCons =>
    have out := free side
    rw [isCons, List.mem_cons, not_or] at out
    exact ⟨update_of_ne out.1 _ _, free.setCond out.2⟩

theorem Unsuspended.loopTurn (other : u ≠ t) (timed expired : Bool) :
    (s.loopTurn t side timed expired).pc u = s.pc u ∧ (s.loopTurn t side timed expired).Unsuspended u := by
  have waiting : (s.addWait side 1).Unsuspended u := free
  have pcs (p : RwPc) : update s.pc t p u = s.pc u := update_of_ne other _ _
  unfold Rwlock.loopTurn
  dsimp only
  split_ifs
  · exact ⟨rfl, waiting.setCond (waiting side)⟩
  · exact ⟨pcs _, free⟩
  · have out : u ∉ ((s.addWait side 1).cond side).suspended ++ [t] := by simp [waiting side, other]
    exact ⟨pcs _, waiting.setCond out⟩
  · cases side <;> exact ⟨pcs _, free⟩

theorem Unsuspended.unlockTurn (other : u ≠ t) :
    (s.unlockTurn t).pc u = s.pc u ∧ (s.unlockTurn t).Unsuspended u := by
  have pcs (p : RwPc) : update s.pc t p u = s.pc u := update_of_ne other _ _
  unfold Rwlock.unlockTurn
  dsimp only
  split_ifs <;> exact ⟨pcs _, free⟩

theorem Unsuspended.take (other : u ≠ t) (taken : s.take t p = some s') :
    s'.pc u = s.pc u ∧ s'.Unsuspended u := by
  unfold Rwlock.take at taken
  split at taken
  case isTrue =>
    cases taken
    exact ⟨update_of_ne other _ _, free⟩
  case isFalse => cases taken

theorem Unsuspended.go (other : u ≠ t) {expired : Bool} (goes : s.go t expired = some s') :
    s'.pc u = s.pc u ∧ s'.Unsuspended u := by
  have pcs (p : RwPc) : update s.pc t p u = s.pc u := update_of_ne other _ _
  unfold Rwlock.go at goes
  split at goes
  case h_1 => cases goes
  case h_2 => cases goes
  case h_3 | h_4 | h_5 | h_6 => exact free.take other goes
  case h_7 side _ =>
    cases goes
    split
    · exact ⟨pcs _, free⟩
    · cases side <;> exact ⟨pcs _, free⟩
  case h_8 =>
    cases goes
    exact free.unlockTurn other
  case h_9 =>
    cases goes
    exact free.loopTurn other _ _
  case h_10 | h_11 | h_16 =>
    cases goes
    exact ⟨pcs _, free⟩
  case h_12 =>
    cases goes
    have released := free.release .writer
    exact ⟨(update_of_ne other _ _).trans released.1, released.2⟩
  case h_13 =>
    cases goes
    split
    · exact ⟨pcs _, free.setCond (free .reader)⟩
    · exact ⟨pcs _, free⟩
  case h_14 | h_15 =>
    cases goes
    have released := free.release .reader
    exact ⟨(update_of_ne other _ _).trans released.1, released.2⟩

theorem Unsuspended.step {a : RwAction} (other : u ≠ actor a) (taken : s.step a = some s') :
    s'.pc u = s.pc u ∧ s'.Unsuspended u := by
  cases a with
  | call t call =>
    simp only [Rwlock.step] at taken
    split at taken
    case isTrue =>
      cases taken
      exact ⟨update_of_ne other _ _, free⟩
    case isFalse => cases taken
  | go t expired => exact free.go other taken
  | timeout t =>
    simp only [Rwlock.step] at taken
    split at taken
    case h_1 side _ =>
      cases taken
      exact ⟨update_of_ne other _ _, free.setCond fun inside => free side (List.mem_of_mem_erase inside)⟩
    case h_2 => cases taken

end

theorem stays_at_rest {actions : List RwAction} (run : Run (fun s a s' => s.step a = some s') Rwlock.init actions s)
    (none : ∀ a ∈ actions, u ≠ actor a) : s.pc u = .rest ∧ s.Unsuspended u := by
  induction run with
  | nil => exact ⟨rfl, fun _ => List.not_mem_nil⟩
  | snoc _ taken ih =>
    obtain ⟨rests, free⟩ := ih fun a inside => none a (List.mem_append_left _ inside)
    obtain ⟨same, free⟩ := free.step (none _ (by simp)) taken
    exact ⟨same.trans rests, free⟩

/-- Thread 0 reads, 1 waits to write with a time limit, 2 is held back from reading by that; 1 times out, 0 unlocks
before 1 runs, and 1 gives up. -/
def heldBack : List RwAction :=
  [.call 0 (.lock .reader false), .go 0 false, .go 0 false, .go 0 false,
   .call 1 (.lock .writer true), .go 1 false, .go 1 false,
   .call 2 (.lock .reader false), .go 2 false, .go 2 false,
   .timeout 1,
   .call 0 .unlock, .go 0 false, .go 0 false, .go 0 false, .go 0 false,
   .go 1 false, .go 1 false, .go 1 false]

/-- The lock is free, thread 2 is suspended, and 0 and 1 are at rest. -/
def stranded (s : Rwlock) : Bool :=
  s.rwRefcount = 0 && s.pc 2 = .wait .reader false && s.pc 0 = .rest && s.pc 1 = .rest

/-- The reader stays suspended, though the lock is free and no thread is inside a call any more. -/
theorem rwlock_reader_stranded :
    ¬Throughout (fun s a s' => s.step a = some s') Rwlock.init heldBack fun s =>
      s.rwRefcount = 0 → ∀ t side timed, s.pc t = .wait side timed →
        ∃ u, s.pc u ≠ .rest ∧ ∀ side timed, s.pc u ≠ .wait side timed := by
  intro sound
  cases last : heldBack.foldlM Rwlock.step Rwlock.init with
  | none =>
    have runs : (heldBack.foldlM Rwlock.step Rwlock.init).isSome = true := by decide +kernel
    simp [last] at runs
  | some s =>
    have looks : (heldBack.foldlM Rwlock.step Rwlock.init).any stranded = true := by decide +kernel
    rw [last] at looks
    simp only [Option.any_some, stranded, Bool.and_eq_true, decide_eq_true_eq] at looks
    obtain ⟨⟨⟨free, waits⟩, first⟩, second⟩ := looks
    have run := run_of_foldlM last
    obtain ⟨u, busy, noWait⟩ := sound _ _ List.prefix_rfl run free 2 .reader false waits
    have differ : u ≠ 0 ∧ u ≠ 1 ∧ u ≠ 2 := by
      refine ⟨?_, ?_, ?_⟩
      · rintro rfl
        exact busy first
      · rintro rfl
        exact busy second
      · rintro rfl
        exact noWait _ _ waits
    refine busy (stays_at_rest run fun a inside => ?_).1
    have actors : ∀ a ∈ heldBack, actor a < 3 := by decide
    have small := actors a inside
    omega

end Rwlock

end RtThread.Posix
