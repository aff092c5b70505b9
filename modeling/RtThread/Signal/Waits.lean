import Mathlib
import RtThread.Signal.Delivery

/-! What `rt_signal_wait` returns, and what it takes out of the pending signals. -/

set_option autoImplicit false
namespace RtThread.Signal

variable {T : Type}

/-- The set, and the code and the signal info with which the next section returns from `rt_signal_wait`. Of an empty
set it says nothing. -/
def Thread.returns (th : Thread T) : Option (Sigset × Error × Option SiginfoNode) :=
  match th.stack with
  | .waitTest set timeout :: _ =>
    if set = 0 then none
    else if th.sigPending &&& set ≠ 0 then some (set, .eok, (th.fetch set).2)
    else if timeout = 0 then some (set, .etimeout, none)
    else none
  | .waitSleep set :: _ => some (set, if th.error = .etimeout then (.etimeout, none) else (.eok, (th.fetch set).2))
  | _ => none

/-- With RT_EOK one pending signal of the set has been taken, and with -RT_ETIMEOUT none, and none was to be had. -/
def Gives (th th' : Thread T) (set : Sigset) (result : Error × Option SiginfoNode) : Prop :=
  if result.1 = .etimeout then
    th.sigPending &&& set &&& th.sigMask = 0 ∧ th'.siList = th.siList ∧ th'.sigPending = th.sigPending
  else ∃ front node back, result.2 = some node ∧ sigMask node.signo &&& set ≠ 0 ∧
    th.sigPending.getLsbD node.signo = true ∧ th.siList = front ++ node :: back ∧ th'.siList = front ++ back ∧
    th'.sigPending = th.sigPending &&& ~~~sigMask node.signo

def Right (th th' : Thread T) : Prop := ∀ set result, th.returns = some (set, result) → Gives th th' set result

/-- A thread that runs on in `rt_signal_wait` has timed out just if it is to get no signal. -/
def Informed (th : Thread T) : Prop :=
  ∀ set rest, th.stack = .waitSleep set :: rest →
    if th.error = .etimeout then th.sigPending &&& set &&& th.sigMask = 0 else th.sigPending &&& set ≠ 0

section
variable [DecidableEq T] {low : Signo → Option Handler} {w w' : World T} {t : T}

/-- No second node of a signal comes into a list. -/
def Fresh (w : World T) : SignalAction T → Prop
  | .go t => ∀ tid node rest, (w.threads t).stack = .killAppend tid node :: rest →
    ∀ other ∈ (w.threads tid).siList, other.signo ≠ node.signo
  | _ => True

def Lists (w : World T) : Prop := ∀ t, Listed (w.threads t).siList (w.threads t).sigPending

end

theorem ne_zero_iff {set : Sigset} : set ≠ 0 ↔ ∃ s : Signo, set.getLsbD s = true := by
  constructor
  · intro some
    by_contra none
    rw [not_exists] at none
    exact some (BitVec.eq_of_getLsbD_eq fun i less => by simpa using none ⟨i, less⟩)
  · rintro ⟨s, bit⟩ rfl
    simp at bit

theorem masked_iff {set : Sigset} {signo : Signo} : sigMask signo &&& set ≠ 0 ↔ set.getLsbD signo = true := by
  rw [ne_zero_iff]
  simp only [BitVec.getLsbD_and, Bool.and_eq_true, getLsbD_sigMask, decide_eq_true_iff, exists_eq_left]

/-- There is a node to take just if a signal of the set is pending. -/
theorem fetch_pending {th : Thread T} (own : Listed th.siList th.sigPending) (set : Sigset) :
    (th.sigPending &&& set = 0 ∧ th.fetch set = (th, none)) ∨ ∃ front node back, th.sigPending &&& set ≠ 0 ∧
      sigMask node.signo &&& set ≠ 0 ∧ th.sigPending.getLsbD node.signo = true ∧ th.siList = front ++ node :: back ∧
      th.fetch set = ({ th with
        siList := front ++ back
        sigPending := th.sigPending &&& ~~~sigMask node.signo }, some node) := by
  obtain same | ⟨front, node, back, split, wanted, same⟩ := fetch_eq th set
  · refine Or.inl ⟨by_contra fun some => ?_, same⟩
    obtain ⟨s, bit⟩ := ne_zero_iff.mp some
    rw [BitVec.getLsbD_and, Bool.and_eq_true] at bit
    obtain ⟨node, inside, rfl⟩ := List.mem_map.mp ((own.bit s).mp bit.1)
    unfold Thread.fetch at same
    split at same
    next none =>
      have unwanted := List.find?_eq_none.mp none node inside
      exact unwanted (decide_eq_true (masked_iff.mpr bit.2))
    next => cases (Prod.mk.inj same).2
  · have bit : th.sigPending.getLsbD node.signo = true := (own.bit _).mpr (by simp [split])
    refine Or.inr ⟨front, node, back, ne_zero_iff.mpr ⟨node.signo, ?_⟩, wanted, bit, split, same⟩
    rw [BitVec.getLsbD_and, bit, masked_iff.mp wanted]
    rfl

section
variable [DecidableEq T] {low : Signo → Option Handler} {w w' : World T} {t : T}

theorem done_gives {th : Thread T} {set : Sigset} {rest : List (Frame T)} (own : Listed th.siList th.sigPending)
    (list : th.siList = (w.threads t).siList) (pending : th.sigPending = (w.threads t).sigPending) :
    Gives (w.threads t) ((w.waitDone t th set rest).threads t) set (.eok, (th.fetch set).2) ↔ th.sigPending &&& set ≠ 0 := by
  rw [Gives, if_neg nofun]
  obtain ⟨none, nothing⟩ | ⟨front, node, back, some, wanted, bit, split, taken⟩ := fetch_pending own set
  · rw [nothing]
    exact iff_of_false (fun ⟨_, _, _, found, _⟩ => nomatch found) (not_not.mpr none)
  · rw [taken]
    refine iff_of_true ⟨front, node, back, rfl, wanted, pending ▸ bit, list ▸ split, ?_⟩ some
    rw [World.waitDone, taken, ← pending]
    simp [World.mpFree, World.set]

theorem right_iff (lists : Lists w) (step : w.go low t = some w') :
    Right (w.threads t) (w'.threads t) ↔ Informed (w.threads t) := by
  have of (set : Sigset) (result : Error × Option SiginfoNode) (returns : (w.threads t).returns = some (set, result)) :
      Right (w.threads t) (w'.threads t) ↔ Gives (w.threads t) (w'.threads t) set result :=
    ⟨fun right => right set result returns, fun gives _ _ same => by cases returns.symm.trans same; exact gives⟩
  unfold World.go at step
  dsimp only at step
  split at step
  · cases step
  split at step
  case h_7 set timeout rest top =>
    refine iff_of_true ?_ (by simp [Informed, top])
    split at step
    next zero => simp [Right, Thread.returns, top, zero]
    next some =>
      split at step
      next pending =>
        cases step
        rw [of set _ (by rw [Thread.returns, top]; dsimp only; rw [if_neg some, if_pos pending])]
        exact (done_gives (lists t) rfl rfl).mpr pending
      next none =>
        split at step <;> cases step
        next now =>
          rw [of set _ (by rw [Thread.returns, top]; dsimp only; rw [if_neg some, if_neg none, if_pos now]), World.goto,
            World.set_self]
          exact ⟨by rw [not_not.mp none]; exact BitVec.zero_and, rfl, rfl⟩
        next later =>
          intro _ _ same
          rw [Thread.returns, top] at same
          dsimp only at same
          rw [if_neg some, if_neg none, if_neg later] at same
          cases same
  case h_8 set rest top =>
    have informed : Informed (w.threads t) ↔ if (w.threads t).error = .etimeout then
        (w.threads t).sigPending &&& set &&& (w.threads t).sigMask = 0 else (w.threads t).sigPending &&& set ≠ 0 := by
      simp [Informed, top]
    rw [informed, of set _ (by rw [Thread.returns, top])]
    split at step
    next late =>
      cases step
      rw [if_pos late, if_pos late, World.set_self]
      exact ⟨fun gives => gives.1, fun none => ⟨none, rfl, rfl⟩⟩
    next early =>
      cases step
      have same : (Thread.fetch { w.threads t with statSignalWait := false } set).2 = ((w.threads t).fetch set).2 := by
        unfold Thread.fetch
        dsimp only
        split <;> rfl
      rw [if_neg early, if_neg early, ← same]
      exact @done_gives T _ w t { w.threads t with statSignalWait := false } set rest (lists t) rfl rfl
  all_goals
    next top => simp [Right, Informed, Thread.returns, top]

end

theorem thirtyTwo : NeZero 32 := ⟨by decide⟩
attribute [local instance] thirtyTwo

/-- A thread that waits for signal 11 is resumed by signal 10. -/
def resumed : List (SignalAction Bool) :=
  [.call false (.unmask 10), .call false (.wait (sigMask 11) (-1)), .go false, .call true (.kill false 10), .go true,
    .go true, .go true, .go true]

end RtThread.Signal
