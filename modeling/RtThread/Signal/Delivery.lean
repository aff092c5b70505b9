import RtThread.Signal.Signals
import RtThread.Lib.Custody
import RtThread.Lib.Throughout
import Mathlib.Data.List.Count

/-! The pending signals of a thread, the nodes of the pool, and the handlers that run. -/

set_option autoImplicit false
namespace RtThread.Signal
open Lib

variable {T : Type}

/-! ## The pending signals and the list -/

theorem getLsbD_sigMask (signo s : Signo) : (sigMask signo).getLsbD s = decide (s = signo) := by
  rw [sigMask, BitVec.getLsbD_twoPow, decide_eq_true signo.isLt, Bool.true_and]
  exact decide_eq_decide.mpr ⟨fun same => (Fin.ext same).symm, fun same => congrArg Fin.val same.symm⟩

theorem mem_set {set : Sigset} {signo s : Signo} :
    (set ||| sigMask signo).getLsbD s = true ↔ set.getLsbD s = true ∨ s = signo := by
  rw [BitVec.getLsbD_or, Bool.or_eq_true, getLsbD_sigMask, decide_eq_true_iff]

theorem mem_clear {set : Sigset} {signo s : Signo} :
    (set &&& ~~~sigMask signo).getLsbD s = true ↔ set.getLsbD s = true ∧ s ≠ signo := by
  rw [BitVec.getLsbD_and, BitVec.getLsbD_not, Bool.and_eq_true, getLsbD_sigMask, decide_eq_true s.isLt, Bool.true_and,
    Bool.not_eq_true', decide_eq_false_iff_not]

structure Listed (siList : List SiginfoNode) (sigPending : Sigset) : Prop where
  once : (siList.map SiginfoNode.signo).Nodup
  bit (signo : Signo) : sigPending.getLsbD signo = true ↔ signo ∈ siList.map SiginfoNode.signo

namespace Listed
variable {siList front back : List SiginfoNode} {sigPending : Sigset} {node : SiginfoNode}

theorem append (listed : Listed siList sigPending) (fresh : ∀ other ∈ siList, other.signo ≠ node.signo) :
    Listed (siList ++ [node]) (sigPending ||| sigMask node.signo) where
  once := by
    rw [List.map_append, List.nodup_append]
    refine ⟨listed.once, List.nodup_singleton _, fun signo one other also => ?_⟩
    obtain ⟨old, inside, rfl⟩ := List.mem_map.mp one
    rw [List.map_singleton, List.mem_singleton] at also
    rw [also]
    exact fresh old inside
  bit signo := by
    rw [mem_set, listed.bit, List.map_append, List.mem_append, List.map_singleton, List.mem_singleton]

theorem remove (listed : Listed (front ++ node :: back) sigPending) :
    Listed (front ++ back) (sigPending &&& ~~~sigMask node.signo) := by
  have order : ((front ++ node :: back).map SiginfoNode.signo).Perm (node.signo :: (front ++ back).map SiginfoNode.signo) := by
    exact List.perm_middle.map SiginfoNode.signo
  have nodup := List.nodup_cons.mp (order.nodup_iff.mp listed.once)
  refine ⟨nodup.2, fun signo => ?_⟩
  rw [mem_clear, listed.bit, order.mem_iff, List.mem_cons]
  constructor
  · rintro ⟨same | inside, other⟩
    · exact absurd same other
    · exact inside
  · intro inside
    exact ⟨Or.inr inside, fun same => nodup.1 (same ▸ inside)⟩

theorem exactlyOne (listed : Listed siList sigPending) (signo : Signo) :
    sigPending.getLsbD signo = true ↔ (siList.filter fun node => node.signo = signo).length = 1 := by
  have count : (siList.filter fun node => node.signo = signo).length = (siList.map SiginfoNode.signo).count signo := by
    rw [← List.countP_eq_length_filter, List.count, List.countP_map]
    rfl
  rw [listed.bit, count]
  constructor
  · exact List.count_eq_one_of_mem listed.once
  · intro one
    exact List.count_pos_iff.mp (by rw [one]; exact Nat.one_pos)

end Listed

/-! ## The stack -/

/-- A call that is not about to run a handler, and not the end of `_signal_entry`. -/
def Frame.plain : Frame T → Bool
  | .handleCall _ _ _ => false
  | .signalEntry => false
  | _ => true

/-- A handler that is about to be called has an unmasked signal, and `sig_ret` leads behind the last `_signal_entry`. -/
structure Framed (sigMask : Sigset) (sigRet : Option (List (Frame T))) (stack : List (Frame T)) : Prop where
  calls {cleanState : Bool} {node : SiginfoNode} {handler : Handler} :
    .handleCall cleanState node (some handler) ∈ stack → sigMask.getLsbD node.signo = true
  returns {saved : List (Frame T)} : sigRet = some saved →
    ∃ above, stack = above ++ .signalEntry :: saved ∧ .signalEntry ∉ above

namespace Framed
variable {sigMask : Sigset} {sigRet : Option (List (Frame T))} {stack : List (Frame T)} {frame : Frame T}

theorem under (framed : Framed sigMask sigRet stack) (other : frame ≠ .signalEntry) {saved : List (Frame T)}
    (is : sigRet = some saved) : ∃ above, frame :: stack = above ++ .signalEntry :: saved ∧ .signalEntry ∉ above := by
  obtain ⟨above, split, none⟩ := framed.returns is
  refine ⟨frame :: above, congrArg (frame :: ·) split, fun inside => ?_⟩
  rcases List.mem_cons.mp inside with same | inside
  · exact other same.symm
  · exact none inside

theorem push (framed : Framed sigMask sigRet stack) (plain : frame.plain = true) :
    Framed sigMask sigRet (frame :: stack) where
  calls inside := by
    rcases List.mem_cons.mp inside with same | inside
    · rw [← same] at plain
      cases plain
    · exact framed.calls inside
  returns is := framed.under (fun same => by rw [same] at plain; cases plain) is

theorem pushCall (framed : Framed sigMask sigRet stack) {cleanState : Bool} {node : SiginfoNode} {handler : Option Handler}
    (unmasked : sigMask.getLsbD node.signo = true ∨ handler = none) :
    Framed sigMask sigRet (.handleCall cleanState node handler :: stack) where
  calls inside := by
    rcases List.mem_cons.mp inside with same | inside
    · cases same
      exact unmasked.resolve_right (by simp)
    · exact framed.calls inside
  returns is := framed.under (by simp) is

theorem pop (framed : Framed sigMask sigRet (frame :: stack)) (other : frame ≠ .signalEntry) :
    Framed sigMask sigRet stack where
  calls inside := framed.calls (List.mem_cons_of_mem _ inside)
  returns is := by
    obtain ⟨above, split, none⟩ := framed.returns is
    cases above with
    | nil => exact absurd (List.cons.inj split).1 other
    | cons first above => exact ⟨above, (List.cons.inj split).2, fun inside => none (List.mem_cons_of_mem _ inside)⟩

theorem leave {saved : List (Frame T)} (framed : Framed sigMask (some saved) (.signalEntry :: stack)) :
    saved = stack ∧ Framed sigMask none saved := by
  obtain ⟨above, split, none⟩ := framed.returns rfl
  cases above with
  | nil =>
    obtain ⟨-, rfl⟩ := List.cons.inj split
    exact ⟨rfl, fun inside => framed.calls (List.mem_cons_of_mem _ inside), fun is => by cases is⟩
  | cons first above =>
    obtain ⟨rfl, -⟩ := List.cons.inj split
    exact absurd List.mem_cons_self none

theorem enter (framed : Framed sigMask sigRet stack) (cleanState : Bool) :
    Framed sigMask (some stack) (.handleSig cleanState :: .signalEntry :: stack) where
  calls inside := by
    rcases List.mem_cons.mp inside with same | inside
    · cases same
    rcases List.mem_cons.mp inside with same | inside
    · cases same
    · exact framed.calls inside
  returns is := by
    cases is
    exact ⟨[.handleSig cleanState], rfl, by simp⟩

end Framed

def Frame.node : Frame T → Option SiginfoNode
  | .killAppend _ node => some node
  | .handleCall _ node _ => some node
  | .handleFree _ node => some node
  | _ => none

def inHand (stack : List (Frame T)) : List Nat := (stack.filterMap Frame.node).map SiginfoNode.block

def Thread.nodes (th : Thread T) : List Nat := th.siList.map SiginfoNode.block ++ inHand th.stack

theorem inHand_none {frame : Frame T} {stack : List (Frame T)} (none : frame.node = none) :
    inHand (frame :: stack) = inHand stack := by
  rw [inHand, List.filterMap_cons_none none, inHand]

theorem inHand_some {frame : Frame T} {stack : List (Frame T)} {node : SiginfoNode} (some : frame.node = some node) :
    inHand (frame :: stack) = node.block :: inHand stack := by
  rw [inHand, List.filterMap_cons_some some, List.map_cons, inHand]

structure Tidy (th : Thread T) : Prop where
  listed : Listed th.siList th.sigPending
  framed : Framed th.sigMask th.sigRet th.stack

/-! ## Signals that leave the list -/

theorem fetch_eq (th : Thread T) (set : Sigset) :
    th.fetch set = (th, none) ∨ ∃ front node back, th.siList = front ++ node :: back ∧
      sigMask node.signo &&& set ≠ 0 ∧
      th.fetch set = ({ th with
        siList := front ++ back
        sigPending := th.sigPending &&& ~~~sigMask node.signo }, some node) := by
  unfold Thread.fetch
  cases found : th.siList.find? fun node => sigMask node.signo &&& set ≠ 0 with
  | none => exact Or.inl rfl
  | some node =>
    obtain ⟨wanted, front, back, split, none⟩ := List.find?_eq_some_iff_append.mp found
    refine Or.inr ⟨front, node, back, split, of_decide_eq_true wanted, ?_⟩
    have rest : th.siList.eraseP (fun node => sigMask node.signo &&& set ≠ 0) = front ++ back := by
      rw [split, List.eraseP_append_right _ fun other inside => by simpa using none other inside]
      exact congrArg (front ++ ·) (List.eraseP_cons_of_pos wanted)
    rw [← rest]

/-- The node that the loop of `rt_thread_handle_sig` takes next. -/
def Thread.popped (th : Thread T) : Option SiginfoNode := if th.Wanted then th.siList.head? else none

theorem handleLoop_eq (low : Signo → Option Handler) (th : Thread T) (cleanState : Bool) (rest : List (Frame T)) :
    (th.popped = none ∧ th.handleLoop low cleanState rest =
      { th with statSignal := th.statSignal && !cleanState, stack := rest }) ∨
    ∃ node siList, th.popped = some node ∧ th.siList = node :: siList ∧ th.handleLoop low cleanState rest =
      { th with
        siList := siList
        sigPending := th.sigPending &&& ~~~sigMask node.signo
        stack := .handleCall cleanState node (th.vector low node.signo) :: rest } := by
  unfold Thread.popped Thread.handleLoop
  by_cases wanted : th.Wanted
  · rw [if_pos wanted, if_pos wanted]
    cases list : th.siList with
    | nil => exact Or.inl ⟨rfl, rfl⟩
    | cons node siList => exact Or.inr ⟨node, siList, rfl, rfl, rfl⟩
  · rw [if_neg wanted, if_neg wanted]
    exact Or.inl ⟨rfl, rfl⟩

def Thread.Delivers (low : Signo → Option Handler) (th : Thread T) : Prop :=
  ∀ node, th.popped = some node → th.sigMask.getLsbD node.signo = true ∨ th.vector low node.signo = none

theorem handleLoop_tidy (low : Signo → Option Handler) (th : Thread T) (cleanState : Bool) {rest : List (Frame T)}
    (listed : Listed th.siList th.sigPending) (framed : Framed th.sigMask th.sigRet rest) (delivers : th.Delivers low) :
    Tidy (th.handleLoop low cleanState rest) ∧
      (th.handleLoop low cleanState rest).nodes.Perm (th.siList.map SiginfoNode.block ++ inHand rest) := by
  rcases handleLoop_eq low th cleanState rest with ⟨-, same⟩ | ⟨node, siList, takes, split, same⟩
  · rw [same]
    exact ⟨⟨listed, framed⟩, List.Perm.refl _⟩
  · rw [same]
    rw [split, ← List.nil_append (node :: siList)] at listed
    refine ⟨⟨listed.remove, framed.pushCall (delivers node takes)⟩, ?_⟩
    rw [Thread.nodes, split, inHand_some rfl, List.map_cons]
    exact List.perm_middle

/-! ## The invariant -/

structure Inv (w : World T) : Prop where
  tidy (t : T) : Tidy (w.threads t)
  custody : Custody blocks w.pool fun t => (w.threads t).nodes

theorem init_inv : Inv (World.init : World T) where
  tidy t := ⟨⟨List.nodup_nil, fun signo => by simp [World.init, Thread.init]⟩,
    ⟨fun inside => absurd inside List.not_mem_nil, fun is => by cases is⟩⟩
  custody := Custody.start List.nodup_range

section steps
variable [DecidableEq T] {w : World T} {t : T}

namespace World

@[simp] theorem set_self (w : World T) (t : T) (th : Thread T) : (w.set t th).threads t = th := Function.update_self ..
theorem set_other (w : World T) {t u : T} (th : Thread T) (other : u ≠ t) : (w.set t th).threads u = w.threads u :=
  Function.update_of_ne other ..

end World

theorem tidy_set (all : ∀ u, Tidy (w.threads u)) {th : Thread T} (tidy : Tidy th) (u : T) :
    Tidy ((w.set t th).threads u) := by
  by_cases own : u = t
  · rw [own, World.set_self]
    exact tidy
  · rw [World.set_other w th own]
    exact all u

section
variable (inv : Inv w)
include inv

theorem Inv.set {th : Thread T} (tidy : Tidy th) (nodes : th.nodes.Perm (w.threads t).nodes) :
    Inv (w.set t th) where
  tidy := tidy_set inv.tidy tidy
  custody := inv.custody.same fun u => by
    by_cases own : u = t
    · rw [own, World.set_self]
      exact nodes
    · rw [World.set_other w th own]

theorem Inv.free {th : Thread T} (tidy : Tidy th) {node : SiginfoNode}
    (nodes : (w.threads t).nodes.Perm (node.block :: th.nodes)) : Inv ((w.set t th).mpFree (some node)) where
  tidy := tidy_set inv.tidy tidy
  custody := by
    refine inv.custody.give (t := t) ?_ fun u other => ?_
    · change (w.threads t).nodes.Perm (node.block :: ((w.set t th).threads t).nodes)
      rw [World.set_self]
      exact nodes
    · change ((w.set t th).threads u).nodes.Perm _
      rw [World.set_other w th other]

theorem Inv.alloc {th : Thread T} (tidy : Tidy th) {block : Nat} {pool : List Nat} (free : w.pool = block :: pool)
    (nodes : th.nodes.Perm (block :: (w.threads t).nodes)) : Inv ({ w with pool := pool }.set t th) where
  tidy := tidy_set (w := { w with pool := pool }) inv.tidy tidy
  custody := by
    have custody := inv.custody
    rw [free] at custody
    refine custody.take (t := t) ?_ fun u other => ?_
    · rw [World.set_self]
      exact nodes
    · rw [World.set_other _ th other]

theorem Inv.pop {frame : Frame T} {rest : List (Frame T)} (top : (w.threads t).stack = frame :: rest)
    (other : frame ≠ .signalEntry) (none : frame.node = none) : Inv (w.goto t rest) := by
  have tidy := inv.tidy t
  have framed := tidy.framed
  rw [top] at framed
  refine inv.set ⟨tidy.listed, framed.pop other⟩ (List.Perm.of_eq ?_)
  rw [Thread.nodes, Thread.nodes, top, inHand_none none]

theorem Inv.next {frame frame' : Frame T} {rest : List (Frame T)} (top : (w.threads t).stack = frame :: rest)
    (other : frame ≠ .signalEntry) (plain : frame'.plain = true) (same : frame'.node = frame.node) :
    Inv (w.goto t (frame' :: rest)) := by
  have tidy := inv.tidy t
  have framed := tidy.framed
  rw [top] at framed
  refine inv.set ⟨tidy.listed, (framed.pop other).push plain⟩ (List.Perm.of_eq ?_)
  rw [Thread.nodes, Thread.nodes, top, inHand, inHand, List.filterMap_cons, List.filterMap_cons, same]

theorem Inv.push {frame : Frame T} (plain : frame.plain = true) (none : frame.node = none) :
    Inv (w.goto t (frame :: (w.threads t).stack)) := by
  have tidy := inv.tidy t
  refine inv.set ⟨tidy.listed, tidy.framed.push plain⟩ (List.Perm.of_eq ?_)
  rw [Thread.nodes, Thread.nodes, inHand_none none]

theorem Inv.deliver {tid : T} {rest : List (Frame T)} (top : (w.threads t).stack = .deliver tid :: rest) :
    Inv (w.signalDeliver t tid rest) := by
  have return' : Inv (w.goto t rest) := inv.pop top (by simp) rfl
  have tidy := inv.tidy tid
  unfold World.signalDeliver
  dsimp only
  split
  · exact return'
  split
  · have resumed : Inv (w.set tid { w.threads tid with suspended := false, statSignal := true, statSignalPending := true }) :=
      inv.set ⟨tidy.listed, tidy.framed⟩ (List.Perm.refl _)
    have top' : ((w.set tid { w.threads tid with
        suspended := false, statSignal := true, statSignalPending := true }).threads t).stack = .deliver tid :: rest := by
      by_cases own : t = tid
      · rw [own, World.set_self]
        rw [own] at top
        exact top
      · rw [World.set_other _ _ own]
        exact top
    exact resumed.pop top' (by simp) rfl
  split
  case isTrue own =>
    have framed := (inv.tidy t).framed
    rw [top] at framed
    rw [own]
    refine inv.set ⟨(inv.tidy t).listed, (framed.pop (by simp)).push rfl⟩ (List.Perm.of_eq ?_)
    rw [Thread.nodes, Thread.nodes, top, inHand_none rfl, inHand_none rfl]
  case isFalse apart =>
    split
    · have entered : Tidy { w.threads tid with
          statSignal := true
          statSignalPending := false
          sigRet := some (w.threads tid).stack
          stack := .handleSig false :: .signalEntry :: (w.threads tid).stack } := ⟨tidy.listed, tidy.framed.enter false⟩
      have top' : ((w.set tid { w.threads tid with
          statSignal := true
          statSignalPending := false
          sigRet := some (w.threads tid).stack
          stack := .handleSig false :: .signalEntry :: (w.threads tid).stack }).threads t).stack = .deliver tid :: rest := by
        rw [World.set_other _ _ (Ne.symm apart)]
        exact top
      refine Inv.pop (inv.set entered (List.Perm.of_eq ?_)) top' (by simp) rfl
      rw [Thread.nodes, Thread.nodes, inHand_none rfl, inHand_none rfl]
    · exact return'

theorem Inv.append {tid : T} {node : SiginfoNode} {rest : List (Frame T)}
    (top : (w.threads t).stack = .killAppend tid node :: rest)
    (fresh : ∀ other ∈ (w.threads tid).siList, other.signo ≠ node.signo) :
    Inv ((w.set tid { w.threads tid with
      siList := (w.threads tid).siList ++ [node]
      sigPending := (w.threads tid).sigPending ||| sigMask node.signo }).goto t (.deliver tid :: rest)) := by
  have framed := (inv.tidy t).framed
  rw [top] at framed
  have framed' : Framed (w.threads t).sigMask (w.threads t).sigRet (.deliver tid :: rest) := (framed.pop (by simp)).push rfl
  have listed := (inv.tidy tid).listed.append fresh
  have hands : inHand (w.threads t).stack = node.block :: inHand rest := by
    rw [top, inHand_some rfl]
  by_cases own : tid = t
  · subst own
    have tidy : Tidy { w.threads tid with
        siList := (w.threads tid).siList ++ [node]
        sigPending := (w.threads tid).sigPending ||| sigMask node.signo
        stack := .deliver tid :: rest } := ⟨listed, framed'⟩
    have result := inv.set (t := tid) tidy ?_
    · rw [World.goto, World.set_self]
      unfold World.set at result ⊢
      rw [Function.update_idem]
      exact result
    · rw [Thread.nodes, Thread.nodes, hands, inHand_none rfl, List.map_append, List.map_singleton, List.append_assoc]
      exact List.Perm.refl _
  · constructor
    · have appended : Tidy { w.threads tid with
          siList := (w.threads tid).siList ++ [node]
          sigPending := (w.threads tid).sigPending ||| sigMask node.signo } := ⟨listed, (inv.tidy tid).framed⟩
      refine tidy_set (tidy_set inv.tidy appended) ?_
      rw [World.set_other _ _ (Ne.symm own)]
      exact ⟨(inv.tidy t).listed, framed'⟩
    · refine inv.custody.move (t := t) (u := tid) (Ne.symm own) (?_ : List.Perm _ (node.block :: _)) ?_ fun v other other' => ?_
      · rw [World.goto, World.set_self, World.set_other _ _ (Ne.symm own), Thread.nodes, Thread.nodes, hands, inHand_none rfl]
        exact List.perm_middle
      · rw [World.goto, World.set_other _ _ own, World.set_self, Thread.nodes, Thread.nodes, List.map_append,
          List.map_singleton, List.append_assoc]
        exact List.perm_middle
      · rw [World.goto, World.set_other _ _ other, World.set_other _ _ other']

theorem Inv.waitDone {th : Thread T} {set : Sigset} {frame : Frame T} {rest : List (Frame T)}
    (top : (w.threads t).stack = frame :: rest) (other : frame ≠ .signalEntry) (none : frame.node = none)
    (tidy : Tidy th) (siList : th.siList = (w.threads t).siList) (stack : th.stack = frame :: rest) :
    Inv (w.waitDone t th set rest) := by
  have framed := tidy.framed
  rw [stack] at framed
  have hands : inHand (w.threads t).stack = inHand rest := by
    rw [top, inHand_none none]
  unfold World.waitDone
  rcases fetch_eq th set with nothing | ⟨front, node, back, split, -, found⟩
  · rw [nothing]
    refine inv.set ⟨tidy.listed, framed.pop other⟩ (List.Perm.of_eq ?_)
    rw [Thread.nodes, Thread.nodes, siList, hands]
  · rw [found]
    have listed := tidy.listed
    rw [split] at listed
    refine inv.free ⟨listed.remove, framed.pop other⟩ ?_
    rw [Thread.nodes, Thread.nodes, hands, ← siList, split, List.map_append, List.map_cons, List.map_append]
    exact List.perm_middle.append_right _

end

end steps

section runs
variable [DecidableEq T] {low : Signo → Option Handler} {w w' : World T}

/-- No second node of a signal comes into a list, the signal that is handled first is not a masked one, and a signal
is not masked between the loop that takes it and its handler. -/
def Allowed (low : Signo → Option Handler) (w : World T) : SignalAction T → Prop
  | .go t =>
    match (w.threads t).stack with
    | .killAppend tid node :: _ => ∀ other ∈ (w.threads tid).siList, other.signo ≠ node.signo
    | .handleSig _ :: _ => (w.threads t).statSignalWait = false → (w.threads t).Delivers low
    | .handleFree _ _ :: _ => (w.threads t).Delivers low
    | _ => True
  | .call t (.mask signo) =>
    ∀ cleanState node handler, .handleCall cleanState node (some handler) ∈ (w.threads t).stack → node.signo ≠ signo
  | _ => True

theorem go_inv (inv : Inv w) {t : T} (allowed : Allowed low w (.go t)) (step : w.go low t = some w') : Inv w' := by
  have tidy := inv.tidy t
  unfold World.go at step
  unfold Allowed at allowed
  dsimp only at step allowed
  split at step
  · cases step
  cases top : (w.threads t).stack with
  | nil =>
    rw [top] at step
    cases step
  | cons frame rest =>
    rw [top] at step allowed
    have framed := tidy.framed
    rw [top] at framed
    cases frame with
    | handler handler => cases step
    | killTest tid sig =>
      dsimp only at step
      split at step
      · cases step
        exact inv.pop top (by simp) rfl
      · cases step
        exact inv.next top (by simp) rfl rfl
    | killAlloc tid sig =>
      dsimp only at step
      split at step
      case h_1 => 
        cases step
        exact inv.next top (by simp) rfl rfl
      case h_2 block pool free =>
        cases step
        have taken : Tidy { w.threads t with stack := .killAppend tid ⟨block, sig⟩ :: rest } :=
          ⟨tidy.listed, (framed.pop (by simp)).push rfl⟩
        refine inv.alloc taken free ?_
        rw [Thread.nodes, Thread.nodes, top, inHand_some rfl, inHand_none rfl]
        exact List.perm_middle
    | killAppend tid node =>
      cases step
      exact inv.append top allowed
    | deliver tid =>
      cases step
      exact inv.deliver top
    | waitTest set timeout =>
      dsimp only at step
      split at step
      · cases step
        exact inv.pop top (by simp) rfl
      split at step
      · cases step
        exact inv.waitDone top (by simp) rfl tidy rfl top
      split at step
      · cases step
        exact inv.pop top (by simp) rfl
      · cases step
        refine inv.set ⟨tidy.listed, (framed.pop (by simp)).push rfl⟩ (List.Perm.of_eq ?_)
        rw [Thread.nodes, Thread.nodes, top, inHand_none rfl, inHand_none rfl]
    | waitSleep set =>
      dsimp only at step
      split at step
      · cases step
        refine inv.set ⟨tidy.listed, framed.pop (by simp)⟩ (List.Perm.of_eq ?_)
        rw [Thread.nodes, Thread.nodes, top, inHand_none rfl]
      · cases step
        exact inv.waitDone top (by simp) rfl ⟨tidy.listed, framed⟩ rfl rfl
    | handleSig cleanState =>
      dsimp only at step
      split at step
      case isTrue wanted =>
        cases step
        obtain ⟨done, nodes⟩ := handleLoop_tidy low _ cleanState tidy.listed (framed.pop (by simp))
          (allowed (Bool.not_eq_true _ ▸ wanted.2))
        refine inv.set done (nodes.trans (List.Perm.of_eq ?_))
        rw [Thread.nodes, top, inHand_none rfl]
      case isFalse =>
        cases step
        exact inv.pop top (by simp) rfl
    | handleCall cleanState node handler =>
      have after : Inv (w.goto t (.handleFree cleanState node :: rest)) := inv.next top (by simp) rfl rfl
      cases handler with
      | none =>
        cases step
        exact after
      | some handler =>
        cases step
        refine inv.set ⟨tidy.listed, ((framed.pop (by simp)).push rfl).push rfl⟩ (List.Perm.of_eq ?_)
        rw [Thread.nodes, Thread.nodes, top, inHand_none rfl, inHand_some rfl, inHand_some rfl]
    | handleFree cleanState node =>
      cases step
      obtain ⟨done, nodes⟩ := handleLoop_tidy low { w.threads t with error := .eintr } cleanState
        tidy.listed (framed.pop (by simp)) allowed
      refine inv.free done ?_
      rw [Thread.nodes, top, inHand_some rfl]
      exact List.perm_middle.trans (nodes.symm.cons _)
    | signalEntry =>
      obtain ⟨saved, is, rfl⟩ := Option.map_eq_some_iff.mp step
      rw [is] at framed
      obtain ⟨rfl, left⟩ := framed.leave
      refine inv.set ⟨tidy.listed, left⟩ (List.Perm.of_eq ?_)
      rw [Thread.nodes, Thread.nodes, top, inHand_none rfl]

theorem call_inv (inv : Inv w) {t : T} {c : Call T} (allowed : Allowed low w (.call t c)) : Inv (w.startCall t c) := by
  have tidy := inv.tidy t
  cases c with
  | kill tid sig =>
    unfold World.startCall
    dsimp only
    split
    · exact inv
    · exact inv.push rfl rfl
  | mask signo =>
    have framed : Framed ((w.threads t).sigMask &&& ~~~sigMask signo) (w.threads t).sigRet (w.threads t).stack :=
      ⟨fun inside => mem_clear.mpr ⟨tidy.framed.calls inside, allowed _ _ _ inside⟩, tidy.framed.returns⟩
    exact inv.set ⟨tidy.listed, framed⟩ (List.Perm.refl _)
  | unmask signo =>
    have framed : Framed ((w.threads t).sigMask ||| sigMask signo) (w.threads t).sigRet (w.threads t).stack :=
      ⟨fun inside => mem_set.mpr (Or.inl (tidy.framed.calls inside)), tidy.framed.returns⟩
    unfold World.startCall Thread.rtSignalUnmask
    dsimp only
    split
    · refine inv.set ⟨tidy.listed, framed.push rfl⟩ (List.Perm.of_eq ?_)
      rw [Thread.nodes, Thread.nodes, inHand_none rfl]
    · exact inv.set ⟨tidy.listed, framed⟩ (List.Perm.refl _)
  | install signo handler => exact inv.set ⟨tidy.listed, tidy.framed⟩ (List.Perm.refl _)
  | wait set timeout => exact inv.push rfl rfl

theorem act_inv (inv : Inv w) {a : SignalAction T} (allowed : Allowed low w a) (step : w.act low a = some w') : Inv w' := by
  cases a with
  | call t c =>
    simp only [World.act, Option.ite_none_right_eq_some] at step
    obtain ⟨-, same⟩ := step
    cases same
    exact call_inv inv allowed
  | ret t =>
    unfold World.act at step
    dsimp only at step
    split at step
    case h_1 handler rest top =>
      split at step
      · cases step
      · cases step
        exact inv.pop top (by simp) rfl
    case h_2 => cases step
  | go t => exact go_inv inv allowed step
  | suspend t | resume t | timeout t =>
    simp only [World.act, Option.ite_none_right_eq_some] at step
    obtain ⟨-, same⟩ := step
    cases same
    exact inv.set ⟨(inv.tidy t).listed, (inv.tidy t).framed⟩ (List.Perm.refl _)
  | handle t =>
    simp only [World.act, Option.ite_none_right_eq_some] at step
    obtain ⟨-, same⟩ := step
    cases same
    refine inv.set ⟨(inv.tidy t).listed, (inv.tidy t).framed.push rfl⟩ (List.Perm.of_eq ?_)
    rw [Thread.nodes, Thread.nodes, inHand_none rfl]

end runs
end RtThread.Signal
