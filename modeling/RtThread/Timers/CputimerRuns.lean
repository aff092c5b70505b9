import RtThread.Timers.Cputimer

/-! When the hardware timeout, the flags and the list of the CPU-time timers agree. -/

set_option autoImplicit false
namespace RtThread.Timers
open Lib
open Function (update_of_ne update_self)

section order
variable {I : Type} {tick : I → UInt64} {base : UInt64} {t u n : I} {list : List I}

/-- `u` does not come before `t`: it is due at most half the range later. -/
def Before (tick : I → UInt64) (t u : I) : Prop := tick u - tick t < cpuHalf

/-- The timeouts lie within half the range, from `base` on. -/
def Window (tick : I → UInt64) (base : UInt64) (list : List I) : Prop := ∀ t ∈ list, tick t - base < cpuHalf

/-- How far behind `base` a timer is due. -/
def span (tick : I → UInt64) (base : UInt64) (t : I) : Nat := (tick t - base).toNat

theorem cpuHalf_toNat : cpuHalf.toNat = 0x7fffffffffffffff := rfl

theorem span_lt (window : Window tick base list) (inside : t ∈ list) : span tick base t < 0x7fffffffffffffff :=
  UInt64.lt_iff_toNat_lt.mp (window t inside)

-- Both timers lie in the window, so that the difference of their ticks is that of their spans.
theorem diff_toNat (t u : I) (tick : I → UInt64) (base : UInt64) :
    (tick u - tick t).toNat = (2 ^ 64 - span tick base t + span tick base u) % 2 ^ 64 := by
  have boundT := (tick t).toNat_lt
  have boundU := (tick u).toNat_lt
  have boundBase := base.toNat_lt
  simp only [span, UInt64.toNat_sub]
  omega

theorem before_iff (window : Window tick base list) (inside : t ∈ list) (insideU : u ∈ list) :
    Before tick t u ↔ span tick base t ≤ span tick base u := by
  have first := span_lt window inside
  have second := span_lt window insideU
  rw [Before, UInt64.lt_iff_toNat_lt, cpuHalf_toNat, diff_toNat t u tick base]
  omega

theorem diff_zero_iff (window : Window tick base list) (inside : t ∈ list) (insideU : u ∈ list) :
    tick u - tick t = 0 ↔ span tick base t = span tick base u := by
  have first := span_lt window inside
  have second := span_lt window insideU
  rw [← UInt64.toNat_inj, diff_toNat t u tick base]
  have zero : (0 : UInt64).toNat = 0 := rfl
  omega

theorem before_refl (t : I) : Before tick t t := by
  rw [Before, UInt64.sub_self]
  decide

theorem before_trans (window : Window tick base list) (inside : t ∈ list) (insideU : u ∈ list) (insideN : n ∈ list)
    (first : Before tick t u) (second : Before tick u n) : Before tick t n := by
  rw [before_iff window inside insideU] at first
  rw [before_iff window insideU insideN] at second
  exact (before_iff window inside insideN).mpr (Nat.le_trans first second)

theorem scanInsert_perm (tick : I → UInt64) (n : I) (list : List I) : (Cputime.scanInsert tick n list).Perm (n :: list) := by
  induction list with
  | nil => exact .refl _
  | cons t rest ih =>
    rw [Cputime.scanInsert]
    have behind := (ih.cons t).trans (.swap n t rest)
    split
    · exact behind
    · split
      · exact .refl _
      · exact behind

theorem scanInsert_sorted (window : Window tick base (n :: list)) (sorted : list.Pairwise (Before tick)) :
    (Cputime.scanInsert tick n list).Pairwise (Before tick) := by
  induction list with
  | nil => exact List.pairwise_singleton _ _
  | cons t rest ih =>
    obtain ⟨first, others⟩ := List.pairwise_cons.mp sorted
    have insideN : n ∈ n :: t :: rest := List.mem_cons_self
    have insideT : t ∈ n :: t :: rest := List.mem_cons_of_mem n List.mem_cons_self
    have insideRest {u : I} (inside : u ∈ rest) : u ∈ n :: t :: rest :=
      List.mem_cons_of_mem n (List.mem_cons_of_mem t inside)
    have less : Window tick base (n :: rest) := by
      intro u inside
      rcases List.mem_cons.mp inside with same | later
      · exact same ▸ window n insideN
      · exact window u (insideRest later)
    -- a timer that `n` is put behind comes before it
    have behind (before : Before tick t n) : (t :: Cputime.scanInsert tick n rest).Pairwise (Before tick) := by
      refine List.pairwise_cons.mpr ⟨fun u inside => ?_, ih less others⟩
      rcases List.mem_cons.mp ((scanInsert_perm tick n rest).mem_iff.mp inside) with same | later
      · exact same ▸ before
      · exact first u later
    rw [Cputime.scanInsert]
    split
    case isTrue same =>
      rw [diff_zero_iff window insideN insideT] at same
      exact behind ((before_iff window insideT insideN).mpr (Nat.le_of_eq same.symm))
    case isFalse differ =>
      split
      case isTrue earlier =>
        refine List.pairwise_cons.mpr ⟨fun u inside => ?_, sorted⟩
        rcases List.mem_cons.mp inside with same | later
        · exact same ▸ earlier
        · exact before_trans window insideN insideT (insideRest later) earlier (first u later)
      case isFalse notEarlier =>
        have later := mt (before_iff window insideN insideT).mpr notEarlier
        exact behind ((before_iff window insideT insideN).mpr (Nat.le_of_not_le later))

end order

namespace Cputime

variable {I : Type} [DecidableEq I] {s s' : Cputime I} {own : Option I} {t u : I}

/-- The hardware timeout is the one of the earliest timer in the list, and there is none if the list is empty. -/
def Armed (s : Cputime I) : Prop :=
  match s.timeout with
  | none => s.list = []
  | some (due, t) => t ∈ s.list ∧ due = s.tick t ∧ ∀ u ∈ s.list, Before s.tick t u

structure Sound (s : Cputime I) : Prop where
  armed : s.Armed
  flags : ∀ t, (s.timer t).activated = true ↔ t ∈ s.list
  called : s.misfired = false

/-- What holds also while a timeout function runs: `own` is its timer, as long as nothing has been done about the flag
that is still set. -/
structure Tidy (own : Option I) (s : Cputime I) : Prop where
  nodup : s.list.Nodup
  window : ∃ base, Window s.tick base s.list
  sorted : s.list.Pairwise (Before s.tick)
  pending : ∀ t ∈ s.list, s.stopped t = false
  flags : ∀ t, own ≠ some t → ((s.timer t).activated = true ↔ t ∈ s.list)
  flagged : ∀ t, own = some t → (s.timer t).activated = true ∧ t ∉ s.list

structure Inv (s : Cputime I) : Prop where
  tidy : s.Tidy none
  armed : s.Armed
  called : s.misfired = false

omit [DecidableEq I] in
theorem Inv.sound (inv : s.Inv) : s.Sound where
  armed := inv.armed
  flags t := inv.tidy.flags t (Option.some_ne_none t).symm
  called := inv.called

/-! ## The next timeout -/

/-- `_set_next_timeout` programs a timeout: no timer is remembered, or one that is plainly later than the first. -/
def Renews (s : Cputime I) : Prop := ∀ now, s.nowtimer = some now → ∃ h, s.list.head? = some h ∧ h ≠ now ∧ s.tick h < s.tick now

theorem setNextTimeout_cases (s : Cputime I) :
    (s.list = [] ∧ s.setNextTimeout = { s with nowtimer := none, timeout := none }) ∨
      (∃ h rest, s.list = h :: rest ∧ s.Renews ∧ s.setNextTimeout = { s.settimeout h with nowtimer := some h }) ∨
      s.list ≠ [] ∧ ¬s.Renews ∧ s.setNextTimeout = s := by
  unfold setNextTimeout
  cases list : s.list with
  | nil => exact Or.inl ⟨rfl, rfl⟩
  | cons h rest =>
    right
    cases remembered : s.nowtimer with
    | none => exact Or.inl ⟨h, rest, rfl, fun now some => (Option.some_ne_none now (some.symm.trans remembered)).elim, rfl⟩
    | some now =>
      dsimp only
      split
      case isTrue earlier =>
        refine Or.inl ⟨h, rest, rfl, fun other same => ?_, rfl⟩
        rw [remembered, Option.some.injEq] at same
        exact ⟨h, by rw [list]; rfl, same ▸ earlier⟩
      case isFalse not =>
        refine Or.inr ⟨List.cons_ne_nil _ _, fun renews => not ?_, rfl⟩
        obtain ⟨first, isFirst, earlier⟩ := renews now remembered
        rw [list, List.head?_cons, Option.some.injEq] at isFirst
        exact isFirst ▸ earlier

theorem setNextTimeout_frame (s : Cputime I) :
    s.setNextTimeout = { s with nowtimer := s.setNextTimeout.nowtimer, timeout := s.setNextTimeout.timeout } := by
  rcases setNextTimeout_cases s with ⟨_, same⟩ | ⟨_, _, _, _, same⟩ | ⟨_, _, same⟩
  · rw [same]
  · rw [same]
    rfl
  · rw [same]

@[simp] theorem setNextTimeout_list (s : Cputime I) : s.setNextTimeout.list = s.list := by
  rw [setNextTimeout_frame]

@[simp] theorem setNextTimeout_timer (s : Cputime I) : s.setNextTimeout.timer = s.timer := by
  rw [setNextTimeout_frame]

@[simp] theorem setNextTimeout_stopped (s : Cputime I) : s.setNextTimeout.stopped = s.stopped := by
  rw [setNextTimeout_frame]

@[simp] theorem setNextTimeout_misfired (s : Cputime I) : s.setNextTimeout.misfired = s.misfired := by
  rw [setNextTimeout_frame]

omit [DecidableEq I] in
theorem armed_first {h : I} {rest : List I} (sorted : s.list.Pairwise (Before s.tick)) (list : s.list = h :: rest)
    (nowtimer : Option I) : Armed { s.settimeout h with nowtimer } := by
  change h ∈ s.list ∧ s.tick h = s.tick h ∧ ∀ u ∈ s.list, Before s.tick h u
  rw [list] at sorted ⊢
  refine ⟨List.mem_cons_self, rfl, fun u inside => ?_⟩
  rcases List.mem_cons.mp inside with same | later
  · rw [same]
    exact before_refl h
  · exact (List.pairwise_cons.mp sorted).1 u later

theorem armed_setNextTimeout (sorted : s.list.Pairwise (Before s.tick)) :
    s.setNextTimeout.Armed ↔ s.list = [] ∨ s.Renews ∨ s.Armed := by
  rcases setNextTimeout_cases s with ⟨none, same⟩ | ⟨h, rest, list, renews, same⟩ | ⟨some, not, same⟩ <;> rw [same]
  · exact iff_of_true none (Or.inl none)
  · exact iff_of_true (armed_first sorted list _) (Or.inr (Or.inl renews))
  · simp [some, not]

/-! ## The list and the flags -/

theorem tick_setActivated (s : Cputime I) (t u : I) (activated : Bool) :
    (s.setActivated t activated u).timeoutTick = s.tick u := by
  unfold setActivated
  by_cases own : u = t
  · rw [own, update_self]
    rfl
  · rw [update_of_ne own]
    rfl

theorem activated_setActivated (s : Cputime I) (t u : I) (activated : Bool) :
    (s.setActivated t activated u).activated = if u = t then activated else (s.timer u).activated := by
  unfold setActivated
  by_cases own : u = t
  · rw [own, update_self, if_pos rfl]
  · rw [update_of_ne own, if_neg own]

@[simp] theorem remove_tick (s : Cputime I) (t : I) : (s.remove t).tick = s.tick := funext fun u => tick_setActivated s t u false

omit [DecidableEq I] in
theorem Tidy.congr (tidy : s.Tidy own) (list : s'.list = s.list) (timer : s'.timer = s.timer)
    (stopped : ∀ t ∈ s.list, s'.stopped t = s.stopped t) : s'.Tidy own := by
  have tick : s'.tick = s.tick := funext fun t => congrArg Cputimer.timeoutTick (congrFun timer t)
  refine ⟨?_, ?_, ?_, ?_, ?_, ?_⟩
  · rw [list]
    exact tidy.nodup
  · rw [list, tick]
    exact tidy.window
  · rw [list, tick]
    exact tidy.sorted
  · intro t inside
    rw [list] at inside
    rw [stopped t inside]
    exact tidy.pending t inside
  · rw [list, timer]
    exact tidy.flags
  · rw [list, timer]
    exact tidy.flagged

/-- Whose flag may still be set without reason, after a call for timer `t`. -/
def settle (own : Option I) (t : I) : Option I := if own = some t then none else own

theorem Tidy.remove (tidy : s.Tidy own) (t : I) : (s.remove t).Tidy (settle own t) := by
  have list : (s.remove t).list = s.list.erase t := rfl
  have sub : (s.list.erase t).Sublist s.list := List.erase_sublist
  refine ⟨?_, ?_, ?_, ?_, ?_, ?_⟩
  · rw [list]
    exact tidy.nodup.sublist sub
  · rw [remove_tick]
    exact tidy.window.imp fun base window u inside => window u (sub.subset inside)
  · rw [remove_tick]
    exact tidy.sorted.sublist sub
  · exact fun u inside => tidy.pending u (sub.subset inside)
  · intro u other
    change (s.setActivated t false u).activated = true ↔ u ∈ s.list.erase t
    rw [activated_setActivated, tidy.nodup.mem_erase_iff]
    by_cases same : u = t
    · simp [same]
    · have notOwn : own ≠ some u := by
        intro isOwn
        refine other ?_
        rw [settle, if_neg, isOwn]
        exact fun isT => same (Option.some.inj (isOwn.symm.trans isT))
      simp [same, tidy.flags u notOwn]
  · intro u isOwn
    unfold settle at isOwn
    split at isOwn
    case isTrue => cases isOwn
    case isFalse differs =>
      have same : u ≠ t := fun same => differs (same ▸ isOwn)
      obtain ⟨flag, outside⟩ := tidy.flagged u isOwn
      change (s.setActivated t false u).activated = true ∧ u ∉ s.list.erase t
      rw [activated_setActivated, if_neg same]
      exact ⟨flag, fun inside => outside (sub.subset inside)⟩

@[simp] theorem enlist_tick (s : Cputime I) (t : I) : (s.enlist t).tick = s.tick := funext fun u => tick_setActivated s t u true

theorem mem_enlist (s : Cputime I) (t u : I) : u ∈ (s.enlist t).list ↔ u = t ∨ u ∈ s.list := by
  change u ∈ scanInsert s.tick t s.list ↔ _
  rw [(scanInsert_perm s.tick t s.list).mem_iff, List.mem_cons]

theorem Tidy.enlist (tidy : s.Tidy own) {t : I} (outside : t ∉ s.list) (settled : own ≠ some t)
    (within : ∃ base, Window s.tick base (t :: s.list)) : (s.enlist t).Tidy own := by
  obtain ⟨base, window⟩ := within
  have perm := scanInsert_perm s.tick t s.list
  refine ⟨?_, ⟨base, ?_⟩, ?_, ?_, ?_, ?_⟩
  · exact perm.nodup_iff.mpr (List.nodup_cons.mpr ⟨outside, tidy.nodup⟩)
  · rw [enlist_tick]
    exact fun u inside => window u (perm.mem_iff.mp inside)
  · rw [enlist_tick]
    exact scanInsert_sorted window tidy.sorted
  · intro u inside
    change Function.update s.stopped t false u = false
    by_cases same : u = t
    · rw [same, update_self]
    · rw [update_of_ne same]
      exact tidy.pending u (((mem_enlist s t u).mp inside).resolve_left same)
  · intro u other
    change (s.setActivated t true u).activated = true ↔ _
    rw [activated_setActivated, mem_enlist]
    by_cases same : u = t
    · simp [same]
    · simp [same, tidy.flags u other]
  · intro u isOwn
    have same : u ≠ t := fun same => settled (same ▸ isOwn)
    obtain ⟨flag, out⟩ := tidy.flagged u isOwn
    change (s.setActivated t true u).activated = true ∧ _
    rw [activated_setActivated, if_neg same, mem_enlist, not_or]
    exact ⟨flag, same, out⟩

omit [DecidableEq I] in
theorem window_of_within {list : List I} (within : s.Within list) : ∃ base, Window s.tick base list :=
  within.imp' s.tick fun _ both => both.2

/-! ## The calls -/

section calls
variable {o : CpuOp I}

theorem settle_ne (own : Option I) (t : I) : settle own t ≠ some t := by
  unfold settle
  split
  · exact (Option.some_ne_none t).symm
  case isFalse differs => exact differs

theorem Tidy.renew (tidy : s.Tidy own) : s.setNextTimeout.Tidy own :=
  tidy.congr (setNextTimeout_list s) (setNextTimeout_timer s) fun u _ => congrFun (setNextTimeout_stopped s) u

theorem Tidy.relist (tidy : s.Tidy own) (within : s.Within (t :: s.list)) :
    ((s.remove t).enlist t).Tidy (settle own t) := by
  obtain ⟨base, window⟩ := window_of_within within
  have outside : t ∉ (s.remove t).list := fun inside => (tidy.nodup.mem_erase_iff.mp inside).1 rfl
  refine (tidy.remove t).enlist outside (settle_ne own t) ⟨base, fun u inside => ?_⟩
  rw [remove_tick]
  refine window u ?_
  rcases List.mem_cons.mp inside with same | rest
  · exact List.mem_cons.mpr (Or.inl same)
  · exact List.mem_cons_of_mem t (List.mem_of_mem_erase rest)

theorem Tidy.delete (tidy : s.Tidy own) (t : I) : (s.rtCputimerDelete t).Tidy (settle own t) := by
  refine (tidy.remove t).congr (setNextTimeout_list _) (setNextTimeout_timer _) fun u inside => ?_
  have other : u ≠ t := (tidy.nodup.mem_erase_iff.mp inside).1
  rw [rtCputimerDelete, setNextTimeout_stopped]
  exact update_of_ne other _ _

theorem rtCputimerStop_eq (s : Cputime I) (t : I) :
    s.rtCputimerStop t =
      if (s.timer t).activated = false then { s with stopped := Function.update s.stopped t true }
      else s.rtCputimerDelete t := rfl

theorem Tidy.stop (tidy : s.Tidy own) (t : I) : (s.rtCputimerStop t).Tidy (settle own t) := by
  rw [rtCputimerStop_eq]
  split
  case isFalse => exact tidy.delete t
  case isTrue off =>
    have notOwn : own ≠ some t := by
      intro isOwn
      rw [(tidy.flagged t isOwn).1] at off
      cases off
    have outside : t ∉ s.list := by
      rw [← tidy.flags t notOwn, off]
      exact Bool.false_ne_true
    rw [settle, if_neg notOwn]
    refine tidy.congr rfl rfl fun u inside => ?_
    have other : u ≠ t := fun same => outside (same ▸ inside)
    exact update_of_ne other _ _

theorem Tidy.setTime (tidy : s.Tidy own) {arg now : UInt64} (outside : t ∉ s.list) : (s.setTime t arg now).Tidy own := by
  have tick {u : I} (inside : u ∈ s.list) : (s.setTime t arg now).tick u = s.tick u := by
    have other : u ≠ t := fun same => outside (same ▸ inside)
    exact congrArg Cputimer.timeoutTick (update_of_ne other _ s.timer)
  have flag (u : I) : ((s.setTime t arg now).timer u).activated = (s.timer u).activated := by
    change (Function.update s.timer t _ u).activated = _
    by_cases same : u = t
    · rw [same, update_self]
    · rw [update_of_ne same]
  refine ⟨tidy.nodup, ?_, ?_, tidy.pending, ?_, ?_⟩
  · obtain ⟨base, window⟩ := tidy.window
    refine ⟨base, fun u inside => ?_⟩
    rw [tick inside]
    exact window u inside
  · refine tidy.sorted.imp_of_mem fun {a b} insideA insideB before => ?_
    rw [Before, tick insideA, tick insideB]
    exact before
  · intro u other
    rw [flag u]
    exact tidy.flags u other
  · intro u isOwn
    rw [flag u]
    exact tidy.flagged u isOwn

theorem Tidy.op (tidy : s.Tidy own) (done : s.op o = some s') :
    s'.Tidy (o.timer.elim own (settle own)) ∧ s'.misfired = s.misfired := by
  cases o with
  | start t =>
    rw [Cputime.op] at done
    split at done
    case isFalse => cases done
    case isTrue within =>
      cases done
      exact ⟨(tidy.relist within).renew, setNextTimeout_misfired _⟩
  | stop t =>
    cases done
    refine ⟨tidy.stop t, ?_⟩
    rw [rtCputimerStop_eq]
    split
    · rfl
    · exact setNextTimeout_misfired _
  | delete t | detach t =>
    cases done
    exact ⟨tidy.delete t, setNextTimeout_misfired _⟩
  | setTime t arg now =>
    rw [Cputime.op] at done
    split at done
    case isFalse => cases done
    case isTrue may =>
      cases done
      exact ⟨tidy.setTime may.1, rfl⟩

/-- A timer that is started is no earlier than the one that is programmed, or `_set_next_timeout` programs it: no timer
is remembered, or its tick is plainly the greater. -/
def MayStart (s : Cputime I) (t : I) : Prop :=
  (∃ due n, s.timeout = some (due, n) ∧ Before s.tick n t) ∨
    ∀ now, s.nowtimer = some now → t ≠ now ∧ s.tick t < s.tick now

/-- A timer that leaves the list is not the one that is programmed, or the only one, or `_set_next_timeout` programs the
first of the others. -/
def MayRemove (s : Cputime I) (t : I) : Prop :=
  (∀ due, s.timeout ≠ some (due, t)) ∨ s.list.erase t = [] ∨
    ∀ now, s.nowtimer = some now →
      ∃ second, (s.list.erase t).head? = some second ∧ second ≠ now ∧ s.tick second < s.tick now

theorem armed_remove (inv : s.Inv) (t : I) : (s.remove t).Armed ↔ ∀ due, s.timeout ≠ some (due, t) := by
  have armed := inv.armed
  have same : (s.remove t).timeout = s.timeout := rfl
  unfold Armed at armed ⊢
  rw [same, remove_tick]
  cases programmed : s.timeout with
  | none =>
    rw [programmed] at armed
    have none : s.list = [] := armed
    exact iff_of_true (by rw [remove, none]; rfl) fun due => (Option.some_ne_none _).symm
  | some pair =>
    obtain ⟨due, n⟩ := pair
    rw [programmed] at armed
    obtain ⟨inside, isDue, first⟩ := armed
    change n ∈ s.list.erase t ∧ _ ∧ (∀ u ∈ s.list.erase t, _) ↔ _
    rw [inv.tidy.nodup.mem_erase_iff]
    constructor
    · rintro ⟨⟨other, _⟩, _, _⟩ due' isT
      exact other (congrArg Prod.snd (Option.some.inj isT))
    · intro other
      refine ⟨⟨fun isT => other due (by rw [isT]), inside⟩, isDue, fun u member => ?_⟩
      exact first u (List.mem_of_mem_erase member)

theorem armed_delete (inv : s.Inv) (t : I) : (s.rtCputimerDelete t).Armed ↔ s.MayRemove t := by
  have renews : (s.remove t).Renews ↔ ∀ now, s.nowtimer = some now →
      ∃ second, (s.list.erase t).head? = some second ∧ second ≠ now ∧ s.tick second < s.tick now := by
    unfold Renews
    rw [remove_tick]
    rfl
  have sorted : (s.remove t).list.Pairwise (Before (s.remove t).tick) := (inv.tidy.remove t).sorted
  have next := armed_setNextTimeout (s := { s.remove t with stopped := Function.update s.stopped t true }) sorted
  change (s.rtCputimerDelete t).Armed ↔ s.list.erase t = [] ∨ (s.remove t).Renews ∨ (s.remove t).Armed at next
  rw [next, renews, armed_remove inv t, MayRemove]
  tauto

theorem armed_stop (inv : s.Inv) (t : I) : (s.rtCputimerStop t).Armed ↔ s.MayRemove t := by
  rw [rtCputimerStop_eq]
  split
  case isFalse => exact armed_delete inv t
  case isTrue off =>
    refine iff_of_true inv.armed (Or.inl fun due programmed => ?_)
    have armed := inv.armed
    unfold Armed at armed
    rw [programmed] at armed
    have on := (inv.tidy.flags t (Option.some_ne_none t).symm).mpr armed.1
    rw [off] at on
    cases on

theorem armed_relist (inv : s.Inv) :
    ((s.remove t).enlist t).Armed ↔ ∃ due n, s.timeout = some (due, n) ∧ Before s.tick n t := by
  have armed := inv.armed
  have same : ((s.remove t).enlist t).timeout = s.timeout := rfl
  have here : t ∈ ((s.remove t).enlist t).list := (mem_enlist _ t t).mpr (Or.inl rfl)
  have inside {u : I} : u ∈ ((s.remove t).enlist t).list ↔ u = t ∨ u ∈ s.list := by
    rw [mem_enlist]
    change u = t ∨ u ∈ s.list.erase t ↔ _
    rw [inv.tidy.nodup.mem_erase_iff]
    tauto
  unfold Armed at armed ⊢
  rw [same, enlist_tick, remove_tick]
  cases programmed : s.timeout with
  | none =>
    refine iff_of_false (fun empty => ?_) (fun ⟨_, _, bad, _⟩ => Option.some_ne_none _ bad.symm)
    rw [show ((s.remove t).enlist t).list = [] from empty] at here
    cases here
  | some pair =>
    obtain ⟨due, n⟩ := pair
    rw [programmed] at armed
    obtain ⟨member, isDue, first⟩ := armed
    constructor
    · rintro ⟨_, _, before⟩
      exact ⟨due, n, rfl, before t here⟩
    · rintro ⟨_, _, isN, before⟩
      cases isN
      refine ⟨inside.mpr (Or.inr member), isDue, fun u other => ?_⟩
      rcases inside.mp other with same | old
      · rw [same]
        exact before
      · exact first u old

/-- The first of the list after a start is the timer itself, or the one that is programmed comes before it. -/
theorem head_relist (inv : s.Inv) (within : s.Within (t :: s.list)) {h : I}
    (head : ((s.remove t).enlist t).list.head? = some h) : h = t ∨ ((s.remove t).enlist t).Armed := by
  rw [armed_relist inv]
  refine or_iff_not_imp_left.mpr fun other => ?_
  obtain ⟨base, window⟩ := window_of_within within
  obtain ⟨rest, list⟩ := List.head?_eq_some_iff.mp head
  have sorted := (inv.tidy.relist within).sorted
  have here : t ∈ rest := by
    have inside := (mem_enlist (s.remove t) t t).mpr (Or.inl rfl)
    rw [list] at inside
    exact (List.mem_cons.mp inside).resolve_left (Ne.symm other)
  rw [list, enlist_tick, remove_tick] at sorted
  have before := (List.pairwise_cons.mp sorted).1 t here
  have old : h ∈ s.list := by
    have inside := (mem_enlist (s.remove t) t h).mp (List.mem_of_mem_head? head)
    exact List.mem_of_mem_erase (inside.resolve_left other)
  have armed := inv.armed
  unfold Armed at armed
  cases programmed : s.timeout with
  | none =>
    rw [programmed] at armed
    rw [show s.list = [] from armed] at old
    cases old
  | some pair =>
    obtain ⟨due, n⟩ := pair
    rw [programmed] at armed
    obtain ⟨member, _, first⟩ := armed
    exact ⟨due, n, rfl, before_trans window (List.mem_cons_of_mem t member) (List.mem_cons_of_mem t old)
      List.mem_cons_self (first h old) before⟩

theorem armed_start (inv : s.Inv) (within : s.Within (t :: s.list)) : (s.rtCputimerStart t).Armed ↔ s.MayStart t := by
  have some : ((s.remove t).enlist t).list ≠ [] :=
    List.ne_nil_of_mem ((mem_enlist (s.remove t) t t).mpr (Or.inl rfl))
  obtain ⟨h, rest, list⟩ := List.exists_cons_of_ne_nil some
  have head : ((s.remove t).enlist t).list.head? = Option.some h := by rw [list]; rfl
  have renews : ((s.remove t).enlist t).Renews ↔ ∀ now, s.nowtimer = Option.some now → h ≠ now ∧ s.tick h < s.tick now := by
    unfold Renews
    rw [enlist_tick, remove_tick, head]
    simp only [Option.some.injEq, exists_eq_left']
    rfl
  rw [rtCputimerStart, armed_setNextTimeout (inv.tidy.relist within).sorted, renews, MayStart, ← armed_relist inv]
  rcases head_relist inv within head with own | armed
  · rw [own]
    tauto
  · tauto

def Allowed (s : Cputime I) : CpuAction I → Prop
  | .call (.start t) => s.MayStart t
  | .call (.stop t) => s.MayRemove t
  | .call (.delete t) => s.MayRemove t
  | .call (.detach t) => s.MayRemove t
  | .call (.setTime _ _ _) => True
  | .expire ops => ∀ due t, s.timeout = some (due, t) → ∃ o ∈ ops, o.timer = some t

theorem armed_op (inv : s.Inv) (done : s.op o = some s') : s'.Armed ↔ s.Allowed (.call o) := by
  cases o with
  | start t =>
    rw [Cputime.op] at done
    split at done
    case isFalse => cases done
    case isTrue within =>
      cases done
      exact armed_start inv within
  | stop t =>
    cases done
    exact armed_stop inv t
  | delete t | detach t =>
    cases done
    exact armed_delete inv t
  | setTime t arg now =>
    rw [Cputime.op] at done
    split at done
    case isFalse => cases done
    case isTrue may =>
      cases done
      refine iff_of_true ?_ trivial
      have tick {u : I} (inside : u ∈ s.list) : (s.setTime t arg now).tick u = s.tick u := by
        have other : u ≠ t := fun same => may.1 (same ▸ inside)
        exact congrArg Cputimer.timeoutTick (update_of_ne other _ s.timer)
      have armed := inv.armed
      have same : (s.setTime t arg now).timeout = s.timeout := rfl
      unfold Armed at armed ⊢
      rw [same]
      cases programmed : s.timeout with
      | none =>
        rw [programmed] at armed
        exact armed
      | some pair =>
        obtain ⟨due, n⟩ := pair
        rw [programmed] at armed
        obtain ⟨member, isDue, first⟩ := armed
        refine ⟨member, isDue.trans (tick member).symm, fun u inside => ?_⟩
        rw [Before, tick member, tick inside]
        exact first u inside

/-! ## The timeout -/

theorem Tidy.foldlM (tidy : s.Tidy own) {ops : List (CpuOp I)} (done : ops.foldlM Cputime.op s = some s') :
    s'.Tidy (ops.foldl (fun own o => o.timer.elim own (settle own)) own) ∧ s'.misfired = s.misfired := by
  induction ops generalizing s own with
  | nil =>
    cases done
    exact ⟨tidy, rfl⟩
  | cons o rest ih =>
    cases first : s.op o with
    | none => simp [List.foldlM, first] at done
    | some mid =>
      obtain ⟨tidyMid, misfired⟩ := tidy.op first
      obtain ⟨tidyEnd, same⟩ := ih tidyMid (by simpa [List.foldlM, first] using done)
      exact ⟨tidyEnd, same.trans misfired⟩

theorem settled_iff (ops : List (CpuOp I)) (t : I) (own : Option I) (isOwn : own = none ∨ own = some t) :
    ops.foldl (fun own o => o.timer.elim own (settle own)) own = none ↔
      own = none ∨ ∃ o ∈ ops, o.timer = some t := by
  induction ops generalizing own with
  | nil => simp
  | cons o rest ih =>
    rw [List.foldl_cons]
    cases timer : o.timer with
    | none =>
      rw [Option.elim_none, ih own isOwn]
      simp [timer]
    | some u =>
      rw [Option.elim_some, settle]
      split
      case isTrue touched =>
        have same : u = t := by
          rcases isOwn with none | some
          · rw [none] at touched
            cases touched
          · exact Option.some.inj (touched.symm.trans some)
        rw [ih none (Or.inl rfl)]
        simp [timer, same]
      case isFalse differs =>
        rw [ih own isOwn]
        have other : own = none ∨ u ≠ t := isOwn.imp id fun some same => differs (by rw [some, same])
        simp only [List.mem_cons, exists_eq_or_imp, timer, Option.some.injEq]
        tauto

theorem Tidy.enterCallback (inv : s.Inv) (inside : t ∈ s.list) : (s.enterCallback t).Tidy (some t) where
  nodup := inv.tidy.nodup.sublist List.erase_sublist
  window := inv.tidy.window.imp fun _ window u member => window u (List.mem_of_mem_erase member)
  sorted := inv.tidy.sorted.sublist List.erase_sublist
  pending u member := inv.tidy.pending u (List.mem_of_mem_erase member)
  flags u other := by
    have differs : u ≠ t := fun same => other (by rw [same])
    change (s.timer u).activated = true ↔ u ∈ s.list.erase t
    rw [inv.tidy.nodup.mem_erase_iff, inv.tidy.flags u (Option.some_ne_none u).symm]
    exact ⟨fun member => ⟨differs, member⟩, fun both => both.2⟩
  flagged u isOwn := by
    cases isOwn
    refine ⟨(inv.tidy.flags t (Option.some_ne_none t).symm).mpr inside, fun member => ?_⟩
    exact (inv.tidy.nodup.mem_erase_iff.mp member).1 rfl

omit [DecidableEq I] in
theorem leaveCallback_tidy (tidy : s.Tidy own) : s.leaveCallback.Tidy own ∧ s.leaveCallback.Armed ∧
    s.leaveCallback.misfired = s.misfired := by
  unfold leaveCallback
  split
  case h_1 h rest list => exact ⟨tidy.congr rfl rfl fun _ _ => rfl, armed_first tidy.sorted list s.nowtimer, rfl⟩
  case h_2 list => exact ⟨tidy.congr rfl rfl fun _ _ => rfl, list, rfl⟩

omit [DecidableEq I] in
theorem Inv.init (tick : I → UInt64) : (init tick).Inv where
  tidy :=
    { nodup := List.nodup_nil
      window := ⟨0, fun _ none => absurd none List.not_mem_nil⟩
      sorted := .nil
      pending := fun _ _ => rfl
      flags := fun _ _ => iff_of_false Bool.false_ne_true List.not_mem_nil
      flagged := fun _ none => nomatch none }
  armed := rfl
  called := rfl

theorem expire_spec (inv : s.Inv) {ops : List (CpuOp I)} (done : s.Step (.expire ops) s') :
    ∃ own, s'.Tidy own ∧ (own = none ↔ s.Allowed (.expire ops)) ∧ s'.Armed ∧ s'.misfired = false := by
  obtain ⟨⟨due, t⟩, programmed, done⟩ := Option.bind_eq_some_iff.mp done
  obtain ⟨mid, nested, rfl⟩ := Option.map_eq_some_iff.mp done
  have armed := inv.armed
  unfold Armed at armed
  rw [programmed] at armed
  obtain ⟨tidy, misfired⟩ := (Tidy.enterCallback inv armed.1).foldlM nested
  obtain ⟨tidyEnd, armedEnd, same⟩ := leaveCallback_tidy tidy
  refine ⟨_, tidyEnd, ?_, armedEnd, ?_⟩
  · rw [settled_iff ops t (some t) (Or.inr rfl)]
    constructor
    · rintro (none | touches) due' t' isT
      · cases none
      · rw [programmed, Option.some.injEq, Prod.mk.injEq] at isT
        exact isT.2 ▸ touches
    · exact fun allowed => Or.inr (allowed due t programmed)
  · rw [same, misfired]
    change (s.misfired || s.stopped t) = false
    rw [inv.called, inv.tidy.pending t armed.1]
    rfl

theorem Inv.step {a : CpuAction I} (inv : s.Inv) (allowed : s.Allowed a) (step : s.Step a s') : s'.Inv := by
  cases a with
  | call o =>
    obtain ⟨tidy, misfired⟩ := inv.tidy.op step
    have none : o.timer.elim none (settle none) = (none : Option I) := by
      cases o.timer with
      | none => rfl
      | some t => rfl
    rw [none] at tidy
    exact ⟨tidy, (armed_op inv step).mpr allowed, misfired.trans inv.called⟩
  | expire ops =>
    obtain ⟨own, tidy, settled, armed, called⟩ := expire_spec inv step
    rw [settled.mpr allowed] at tidy
    exact ⟨tidy, armed, called⟩

theorem allowed_of_sound {a : CpuAction I} (inv : s.Inv) (step : s.Step a s') (sound : s'.Sound) : s.Allowed a := by
  cases a with
  | call o => exact (armed_op inv step).mp sound.armed
  | expire ops =>
    obtain ⟨own, tidy, settled, _⟩ := expire_spec inv step
    refine settled.mp ?_
    cases own with
    | none => rfl
    | some t =>
      obtain ⟨flag, outside⟩ := tidy.flagged t rfl
      exact absurd ((sound.flags t).mp flag) outside

theorem cputime_sound (tick : I → UInt64) (actions : List (CpuAction I)) :
    Throughout Step (init tick) actions Sound ↔ EachStep Step (init tick) actions Allowed :=
  throughout_iff_eachStep (fun _ inv => inv.sound) (fun _ _ _ inv allowed step => inv.step allowed step)
    (fun _ _ _ inv step sound => allowed_of_sound inv step sound) (Inv.init tick)

/-- Timer 0 is due first and stopped: its timeout stays programmed, though it is timer 1 that is in the list. -/
theorem cputime_sound_stopped :
    ¬ ∀ actions : List (CpuAction Nat), Throughout Step (init fun t => if t = 0 then 10 else 20) actions Sound := by
  intro claimed
  let actions : List (CpuAction Nat) := [.call (.start 0), .call (.start 1), .call (.stop 0)]
  have possible : (actions.foldlM act (init fun t => if t = 0 then 10 else 20)).isSome = true := by decide
  have armed := (claimed actions actions _ List.prefix_rfl (run_of_foldlM (Option.some_get possible).symm)).armed
  have member : 0 ∈ [1] := armed.1
  cases List.mem_singleton.mp member

end calls

end Cputime

end RtThread.Timers
