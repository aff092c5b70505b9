import RtThread.Signal.Delivery

/-! What becomes of a pending signal: a handler, or a thread that waits for it. -/

set_option autoImplicit false
namespace RtThread.Signal
open Lib

variable {T : Type}

/-- The innermost call is a `rt_signal_wait` for the signal. -/
def Thread.WaitsFor (th : Thread T) (signo : Signo) : Prop :=
  ∃ set rest, Signal.sigMask signo &&& set ≠ 0 ∧
    (th.stack = .waitSleep set :: rest ∨ ∃ timeout, th.stack = .waitTest set timeout :: rest)

/-- A signal that leaves the list has its handler about to be called, or is given to the thread that waits for it. A
handler that is about to be called stays so until it runs. -/
structure Tracks (low : Signo → Option Handler) (th th' : Thread T) : Prop where
  taken {node : SiginfoNode} : node ∈ th.siList → node ∉ th'.siList →
    (∃ cleanState rest, th'.stack = .handleCall cleanState node (th.vector low node.signo) :: rest) ∨ th.WaitsFor node.signo
  called {cleanState : Bool} {node : SiginfoNode} {handler : Handler} :
    .handleCall cleanState node (some handler) ∈ th.stack → .handleCall cleanState node (some handler) ∈ th'.stack ∨
      ∃ rest, th'.stack = .handler handler :: .handleFree cleanState node :: rest

section tracks
variable {low : Signo → Option Handler} {th th' : Thread T} {frame : Frame T} {rest : List (Frame T)}

theorem Tracks.of_subset (list : th.siList ⊆ th'.siList) (stack : th.stack ⊆ th'.stack) : Tracks low th th' :=
  ⟨fun inside gone => absurd (list inside) gone, fun inside => Or.inl (stack inside)⟩

/-- `frame` is not about to call a handler. -/
def Frame.Calls (frame : Frame T) : Prop := ∃ cleanState node handler, frame = .handleCall cleanState node (some handler)

theorem handleCall_under (top : th.stack = frame :: rest) (other : ¬frame.Calls) {cleanState : Bool} {node : SiginfoNode}
    {handler : Handler} (inside : .handleCall cleanState node (some handler) ∈ th.stack) :
    .handleCall cleanState node (some handler) ∈ rest := by
  rw [top] at inside
  rcases List.mem_cons.mp inside with same | inside
  · exact absurd ⟨cleanState, node, handler, same.symm⟩ other
  · exact inside

theorem Tracks.of_top (list : th.siList ⊆ th'.siList) (top : th.stack = frame :: rest) (other : ¬frame.Calls)
    (stack : rest ⊆ th'.stack) : Tracks low th th' :=
  ⟨fun inside gone => absurd (list inside) gone, fun inside => Or.inl (stack (handleCall_under top other inside))⟩

theorem Tracks.handleLoop {cleanState : Bool} (top : th.stack = frame :: rest) (other : ¬frame.Calls) :
    Tracks low th (th.handleLoop low cleanState rest) := by
  rcases handleLoop_eq low th cleanState rest with ⟨-, same⟩ | ⟨node, siList, -, split, same⟩
  · rw [same]
    exact Tracks.of_top (List.Subset.refl _) top other (List.Subset.refl _)
  · rw [same]
    refine ⟨fun {gone} inside left => ?_, fun inside => Or.inl (List.mem_cons_of_mem _ (handleCall_under top other inside))⟩
    rw [split] at inside
    rcases List.mem_cons.mp inside with rfl | inside
    · exact Or.inl ⟨cleanState, rest, rfl⟩
    · exact absurd inside left

theorem Tracks.fetch {set : Sigset} (top : th.stack = frame :: rest)
    (waits : frame = .waitSleep set ∨ ∃ timeout, frame = .waitTest set timeout) :
    Tracks low th { (th.fetch set).1 with stack := rest } := by
  have other : ¬frame.Calls := by
    rintro ⟨cleanState, node, handler, rfl⟩
    rcases waits with same | ⟨timeout, same⟩
    · cases same
    · cases same
  rcases fetch_eq th set with nothing | ⟨front, node, back, split, wanted, found⟩
  · rw [nothing]
    exact Tracks.of_top (List.Subset.refl _) top other (List.Subset.refl _)
  · rw [found]
    refine ⟨fun {gone} inside left => Or.inr ?_, fun inside => Or.inl (handleCall_under top other inside)⟩
    have same : gone = node := by
      rw [split] at inside
      rcases List.mem_append.mp inside with inside | inside
      · exact absurd (List.mem_append_left _ inside) left
      · rcases List.mem_cons.mp inside with same | inside
        · exact same
        · exact absurd (List.mem_append_right _ inside) left
    rw [same]
    refine ⟨set, rest, wanted, ?_⟩
    rw [top]
    rcases waits with rfl | ⟨timeout, rfl⟩
    · exact Or.inl rfl
    · exact Or.inr ⟨timeout, rfl⟩

end tracks
section steps
variable [DecidableEq T] {low : Signo → Option Handler} {w w' : World T} {t : T}

def Tracked (low : Signo → Option Handler) (w w' : World T) : Prop := ∀ t, Tracks low (w.threads t) (w'.threads t)

theorem tracked_set {th : Thread T} (own : Tracks low (w.threads t) th) : Tracked low w (w.set t th) := by
  intro u
  by_cases same : u = t
  · rw [same, World.set_self]
    exact own
  · rw [World.set_other w th same]
    exact .of_subset (List.Subset.refl _) (List.Subset.refl _)

theorem tracked_both {tid : T} {th : Thread T} {stack : List (Frame T)}
    (mine : Tracks low (w.threads t) { w.threads t with stack := stack }) (his : Tracks low (w.threads tid) th)
    (both : t = tid → Tracks low (w.threads t) { th with stack := stack }) : Tracked low w ((w.set tid th).goto t stack) := by
  intro u
  unfold World.goto
  by_cases own : t = tid
  · by_cases same : u = t
    · rw [same, World.set_self]
      have twice := both own
      rw [own, World.set_self]
      rwa [own] at twice
    · rw [World.set_other _ _ same, World.set_other _ _ (own ▸ same)]
      exact .of_subset (List.Subset.refl _) (List.Subset.refl _)
  · rw [World.set_other w th own]
    by_cases same : u = t
    · rw [same, World.set_self]
      exact mine
    · rw [World.set_other _ _ same]
      exact tracked_set his u

theorem tracked_free {th : Thread T} (own : Tracks low (w.threads t) th) (node : Option SiginfoNode) :
    Tracked low w ((w.set t th).mpFree node) := by
  cases node with
  | none => exact tracked_set own
  | some node => exact tracked_set (w := w) own

theorem deliver_tracked {tid : T} {rest : List (Frame T)} (top : (w.threads t).stack = .deliver tid :: rest) :
    Tracked low w (w.signalDeliver t tid rest) := by
  have other : ¬(Frame.deliver tid).Calls := by
    rintro ⟨_, _, _, same⟩
    cases same
  have mine : Tracks low (w.threads t) { w.threads t with stack := rest } :=
    .of_top (List.Subset.refl _) top other (List.Subset.refl _)
  unfold World.signalDeliver
  dsimp only
  split
  · exact tracked_set mine
  split
  · refine tracked_both mine (.of_subset (List.Subset.refl _) (List.Subset.refl _)) fun own => ?_
    rw [← own]
    exact .of_top (List.Subset.refl _) top other (List.Subset.refl _)
  split
  case isTrue own =>
    rw [own]
    exact tracked_set (.of_top (List.Subset.refl _) top other (List.subset_cons_self _ _))
  case isFalse apart =>
    split
    · refine tracked_both mine (.of_subset (List.Subset.refl _) ?_) fun own => absurd own.symm apart
      exact List.subset_cons_of_subset _ (List.subset_cons_self _ _)
    · exact tracked_set mine

attribute [local simp] Frame.Calls

theorem go_tracked (inv : Inv w) (step : w.go low t = some w') : Tracked low w w' := by
  have tidy := inv.tidy t
  unfold World.go at step
  dsimp only at step
  split at step
  · cases step
  cases top : (w.threads t).stack with
  | nil =>
    rw [top] at step
    cases step
  | cons frame rest =>
    rw [top] at step
    -- the step leaves the calls under the innermost one
    have under (other : ¬frame.Calls) {th : Thread T} (list : (w.threads t).siList ⊆ th.siList) (stack : rest ⊆ th.stack) :
        Tracked low w (w.set t th) :=
      tracked_set (.of_top list top other stack)
    cases frame with
    | handler handler => cases step
    | killTest tid sig =>
      dsimp only at step
      split at step
      · cases step
        exact under (by simp) (List.Subset.refl _) (List.Subset.refl _)
      · cases step
        exact under (by simp) (List.Subset.refl _) (List.subset_cons_self _ _)
    | killAlloc tid sig =>
      dsimp only at step
      split at step
      · cases step
        exact under (by simp) (List.Subset.refl _) (List.subset_cons_self _ _)
      · cases step
        exact under (by simp) (List.Subset.refl _) (List.subset_cons_self _ _)
    | killAppend tid node =>
      cases step
      refine tracked_both (.of_top (List.Subset.refl _) top (by simp) (List.subset_cons_self _ _))
        (.of_subset (List.subset_append_left _ _) (List.Subset.refl _)) fun own => ?_
      rw [← own]
      exact .of_top (List.subset_append_left _ _) top (by simp) (List.subset_cons_self _ _)
    | deliver tid =>
      cases step
      exact deliver_tracked top
    | waitTest set timeout =>
      dsimp only at step
      split at step
      · cases step
        exact under (by simp) (List.Subset.refl _) (List.Subset.refl _)
      split at step
      · cases step
        exact tracked_free (.fetch top (Or.inr ⟨timeout, rfl⟩)) _
      split at step
      · cases step
        exact under (by simp) (List.Subset.refl _) (List.Subset.refl _)
      · cases step
        exact under (by simp) (List.Subset.refl _) (List.subset_cons_self _ _)
    | waitSleep set =>
      dsimp only at step
      split at step
      · cases step
        exact under (by simp) (List.Subset.refl _) (List.Subset.refl _)
      · cases step
        have fetched : Tracks low { w.threads t with statSignalWait := false, stack := .waitSleep set :: rest }
            { (Thread.fetch { w.threads t with statSignalWait := false, stack := .waitSleep set :: rest } set).1 with
              stack := rest } := .fetch rfl (Or.inl rfl)
        refine tracked_free ⟨fun inside gone => (fetched.taken inside gone).imp_right ?_, fun inside => ?_⟩ _
        · rintro ⟨set, rest, wanted, stack⟩
          exact ⟨set, rest, wanted, by rwa [top]⟩
        · rw [top] at inside
          exact fetched.called inside
    | handleSig cleanState =>
      dsimp only at step
      split at step
      · cases step
        exact tracked_set (.handleLoop top (by simp))
      · cases step
        exact under (by simp) (List.Subset.refl _) (List.Subset.refl _)
    | handleCall cleanState node handler =>
      cases handler with
      | none =>
        cases step
        exact under (by simp) (List.Subset.refl _) (List.subset_cons_self _ _)
      | some handler =>
        cases step
        refine tracked_set ⟨fun inside gone => absurd inside gone, fun inside => ?_⟩
        rw [top] at inside
        rcases List.mem_cons.mp inside with same | inside
        · cases same
          exact Or.inr ⟨rest, rfl⟩
        · exact Or.inl (List.mem_cons_of_mem _ (List.mem_cons_of_mem _ inside))
    | handleFree cleanState node =>
      cases step
      have handled : Tracks low { w.threads t with error := .eintr, stack := .handleFree cleanState node :: rest }
          (Thread.handleLoop low { w.threads t with error := .eintr, stack := .handleFree cleanState node :: rest }
            cleanState rest) := .handleLoop rfl (by simp)
      refine tracked_free ⟨fun inside gone => (handled.taken inside gone).imp_right ?_, fun inside => ?_⟩ _
      · rintro ⟨set, rest, wanted, stack⟩
        exact ⟨set, rest, wanted, by rwa [top]⟩
      · rw [top] at inside
        exact handled.called inside
    | signalEntry =>
      obtain ⟨saved, is, rfl⟩ := Option.map_eq_some_iff.mp step
      have framed := tidy.framed
      rw [top, is] at framed
      obtain ⟨rfl, -⟩ := framed.leave
      exact under (by simp) (List.Subset.refl _) (List.Subset.refl _)

theorem call_tracked (c : Call T) : Tracked low w (w.startCall t c) := by
  have stacked {th : Thread T} (list : (w.threads t).siList ⊆ th.siList) (stack : (w.threads t).stack ⊆ th.stack) :
      Tracked low w (w.set t th) :=
    tracked_set (.of_subset list stack)
  cases c with
  | kill tid sig =>
    unfold World.startCall
    dsimp only
    split
    · exact fun u => .of_subset (List.Subset.refl _) (List.Subset.refl _)
    · exact stacked (List.Subset.refl _) (List.subset_cons_self _ _)
  | mask signo | install signo handler => exact stacked (List.Subset.refl _) (List.Subset.refl _)
  | unmask signo =>
    unfold World.startCall Thread.rtSignalUnmask
    dsimp only
    split
    · exact stacked (List.Subset.refl _) (List.subset_cons_self _ _)
    · exact stacked (List.Subset.refl _) (List.Subset.refl _)
  | wait set timeout => exact stacked (List.Subset.refl _) (List.subset_cons_self _ _)

theorem act_tracked (inv : Inv w) {a : SignalAction T} (step : w.act low a = some w') : Tracked low w w' := by
  cases a with
  | call t c =>
    simp only [World.act, Option.ite_none_right_eq_some] at step
    obtain ⟨-, same⟩ := step
    cases same
    exact call_tracked c
  | ret t =>
    unfold World.act at step
    dsimp only at step
    split at step
    case h_1 handler rest top =>
      split at step
      · cases step
      · cases step
        exact tracked_set (.of_top (List.Subset.refl _) top (by simp) (List.Subset.refl _))
    case h_2 => cases step
  | go t => exact go_tracked inv step
  | suspend t | resume t | timeout t =>
    simp only [World.act, Option.ite_none_right_eq_some] at step
    obtain ⟨-, same⟩ := step
    cases same
    exact tracked_set (.of_subset (List.Subset.refl _) (List.Subset.refl _))
  | handle t =>
    simp only [World.act, Option.ite_none_right_eq_some] at step
    obtain ⟨-, same⟩ := step
    cases same
    exact tracked_set (.of_subset (List.Subset.refl _) (List.subset_cons_self _ _))

end steps

/-! ## Runs -/

/-- A signal is pending just if the list has exactly one node of it, an allocated block is in just one list, or in the
hands of just one call, and no masked signal has its handler called. -/
structure Sound (w : World T) : Prop where
  pending (t : T) (signo : Signo) : (w.threads t).sigPending.getLsbD signo = true ↔
    ((w.threads t).siList.filter fun node => node.signo = signo).length = 1
  placed {block : Nat} : block ∈ blocks → block ∉ w.pool → ∃! t, block ∈ (w.threads t).nodes
  once (t : T) : (w.threads t).nodes.Nodup
  allocated {t : T} {block : Nat} : block ∈ (w.threads t).nodes → block ∈ blocks ∧ block ∉ w.pool
  unmasked {t : T} {cleanState : Bool} {node : SiginfoNode} {handler : Handler} {rest : List (Frame T)} :
    (w.threads t).stack = .handleCall cleanState node (some handler) :: rest → (w.threads t).sigMask.getLsbD node.signo = true

theorem Inv.sound {w : World T} (inv : Inv w) : Sound w where
  pending t signo := (inv.tidy t).listed.exactlyOne signo
  placed inside busy := inv.custody.holder inside busy
  once t := inv.custody.once t
  allocated has := ⟨inv.custody.known has, inv.custody.notFree has⟩
  unmasked {t} {cleanState} {node} {handler} {rest} top := by
    have inside : .handleCall cleanState node (some handler) ∈ (w.threads t).stack := by
      rw [top]
      exact List.mem_cons_self
    exact (inv.tidy t).framed.calls inside

section runs
variable [DecidableEq T] {low : Signo → Option Handler}

/-- A step that is taken where it is `Allowed`. -/
def AllowedStep (low : Signo → Option Handler) (w : World T) (a : SignalAction T) (w' : World T) : Prop :=
  Allowed low w a ∧ w.Step low a w'

theorem run_snoc {start w w' : World T} {actions : List (SignalAction T)}
    (run : Run (AllowedStep low) start actions w) (a : SignalAction T) (allowed : Allowed low w a) (step : w.act low a = some w') :
    Run (AllowedStep low) start (actions ++ [a]) w' :=
  .snoc run ⟨allowed, step⟩

theorem signals_handled {actions : List (SignalAction T)} {w : World T}
    (run : Run (AllowedStep low) World.init actions w) :
    Sound w ∧ ∀ a w', w.Step low a w' → Tracked low w w' := by
  have inv : Inv w := run.invariant Inv (fun w a w' inv step => act_inv inv step.1 step.2) init_inv
  exact ⟨inv.sound, fun a w' step => act_tracked inv step⟩

end runs

/-- A thread has a handler for signal 10, and another thread sends it. -/
def delivery : List (SignalAction Bool) :=
  [.call false (.install 10 (.handler 1)), .call false (.unmask 10), .call true (.kill false 10), .go true, .go true,
    .go true, .go true, .go false, .go false]

theorem signals_handled_delivery : ∃ w, Run (AllowedStep fun _ => none) (World.init : World Bool) delivery w ∧
    (w.threads false).stack = [.handler (.user 1), .handleFree false ⟨0, 10⟩, .signalEntry] ∧ Sound w := by
  have start : Run (AllowedStep fun _ => none) (World.init : World Bool) [] World.init := .nil _
  have installed := run_snoc start (.call false (.install 10 (.handler 1))) trivial rfl
  have unmasked := run_snoc installed (.call false (.unmask 10)) trivial rfl
  have called := run_snoc unmasked (.call true (.kill false 10)) trivial rfl
  have tested := run_snoc called (.go true) trivial rfl
  have allocated := run_snoc tested (.go true) trivial rfl
  have appended := run_snoc allocated (.go true) (fun other inside => absurd inside List.not_mem_nil) rfl
  have delivered := run_snoc appended (.go true) trivial rfl
  have taken := run_snoc delivered (.go false) (fun _ node is => by cases is; exact Or.inl rfl) rfl
  have run := run_snoc taken (.go false) trivial rfl
  exact ⟨_, run, rfl, (signals_handled run).1⟩

/-- Signal 10 is masked and pending in front of signal 11, which is not masked. -/
def masked : List (SignalAction Bool) :=
  [.call false (.install 10 (.handler 1)), .call false (.unmask 11), .call true (.kill false 10), .go true, .go true,
    .go true, .go true, .call true (.kill false 11), .go true, .go true, .go true, .go true, .go false]

theorem signals_handled_masked : ∃ w, Run (World.Step fun _ => none) (World.init : World Bool) masked w ∧ ¬Sound w := by
  refine ⟨_, run_of_foldlM (Option.some_get
    (show (masked.foldlM (World.act fun _ => none) World.init).isSome = true by decide)).symm, fun sound => ?_⟩
  exact absurd (sound.unmasked (t := false)
    (show _ = Frame.handleCall false ⟨0, 10⟩ (some (.user 1)) :: [Frame.signalEntry] by decide)) (by decide)

end RtThread.Signal
