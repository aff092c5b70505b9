import RtThread.Lib.Transition
import Mathlib.Data.List.Basic

/-! `poll.c` over the wait queues of `waitqueue.c`: threads that poll without timeout, and threads that change the
readiness of descriptors and wake the pollers up. A step of a thread is what it does between two points where another
thread may run. -/

set_option autoImplicit false
namespace RtThread.Posix
open Lib
open Function (update update_of_ne update_self)

inductive PollEvent where
  | pollin
  | pollout
  | pollerr
  | pollhup
  | pollnval
  deriving DecidableEq

/-- A node in a wait queue: of a poller with its key, or of a thread in `rt_wqueue_wait`. -/
inductive WaitNode (T : Type) where
  | poll (t : T) (key : List PollEvent)
  | wait
  deriving DecidableEq

inductive PollPhase where
  | idle
  /-- in the loop over the descriptors -/
  | scan
  /-- before `poll_wait_timeout` -/
  | wait
  | asleep
  /-- resumed -/
  | woken
  | teardown
  deriving DecidableEq

/-- A call of `poll`: its descriptors, those that the loop has been at in this scan and those it has not, with their
`events`; the queues where the poll operation of the present one is still to add a node; and `struct rt_poll_table`, with
the queues of its nodes. -/
structure Poller (D Q : Type) where
  phase : PollPhase
  scanned : List (D × List PollEvent)
  rest : List (D × List PollEvent)
  adding : List Q
  proc : Bool
  triggered : Bool
  /-- `num` is not 0 -/
  found : Bool
  nodes : List (Q × List PollEvent)

/-- The queues and the readiness of the descriptors, the pollers, and the calls of `rt_wqueue_wakeup` to come. -/
structure PollWorld (T D Q : Type) where
  queue : Q → List (WaitNode T)
  ready : D → PollEvent → Bool
  poller : T → Poller D Q
  calls : List (Q × List PollEvent)

inductive PollAction (T D Q : Type) where
  | poll (t : T) (fds : List (D × List PollEvent))
  /-- the next step of a poller; `memory` tells whether `rt_malloc` gives memory -/
  | go (t : T) (memory : Bool)
  /-- a thread makes events ready, and is going to wake up -/
  | announce (d : D) (events : List PollEvent) (q : Q) (key : List PollEvent)
  | consume (d : D) (events : List PollEvent)
  /-- one of the calls of `rt_wqueue_wakeup` to come -/
  | wakeup (q : Q) (key : List PollEvent)
  /-- a thread waits in a queue -/
  | join (q : Q)

/-- `pollfd->events | POLLERR | POLLHUP` -/
def wanted (events : List PollEvent) : List PollEvent := events ++ [.pollerr, .pollhup]

def WaitNode.wakes {T : Type} (key : List PollEvent) : WaitNode T → Bool
  | .poll _ own => key = [] || key.any (· ∈ own)
  | .wait => true

namespace PollWorld
variable {T D Q : Type}

def empty : Poller D Q where
  phase := .idle
  scanned := []
  rest := []
  adding := []
  proc := false
  triggered := false
  found := false
  nodes := []

def start (ready : D → PollEvent → Bool) : PollWorld T D Q := ⟨fun _ => [], ready, fun _ => empty, []⟩

section pollers
variable (queues : D → List Q)

def next (proc : Bool) : List (D × List PollEvent) → List Q
  | [] => []
  | entry :: _ => if proc then queues entry.1 else []

def scan (p : Poller D Q) (proc : Bool) : Poller D Q :=
  { p with
    phase := .scan, scanned := [], rest := p.scanned ++ p.rest, adding := next queues proc (p.scanned ++ p.rest),
    proc := proc, triggered := false, found := false }

def unaware (p : Poller D Q) : Bool :=
  (p.phase = .scan || p.phase = .wait || p.phase = .asleep) && !p.found && !p.triggered

variable {queues}

theorem next_adds (proc : Bool) (rest : List (D × List PollEvent)) (adds : next queues proc rest ≠ []) :
    proc = true ∧ rest ≠ [] := by
  cases rest with
  | nil => exact absurd rfl adds
  | cons entry rest =>
    refine ⟨?_, nofun⟩
    cases proc with
    | true => rfl
    | false => exact absurd rfl adds

theorem next_head (proc : Bool) (entry : D × List PollEvent) (rest : List (D × List PollEvent)) (registers : proc = true)
    {q : Q} (queue : q ∈ queues entry.1) : q ∈ next queues proc (entry :: rest) := by
  rw [next, if_pos registers]
  exact queue

theorem unaware_iff {p : Poller D Q} : unaware p = true ↔
    (p.phase = .scan ∨ p.phase = .wait ∨ p.phase = .asleep) ∧ p.found = false ∧ p.triggered = false := by
  simp [unaware, and_assoc, or_assoc]

end pollers

section steps
variable [DecidableEq T] [DecidableEq Q] (queues : D → List Q)

def setPoller (w : PollWorld T D Q) (t : T) (p : Poller D Q) : PollWorld T D Q :=
  { w with poller := Function.update w.poller t p }

def setQueue (w : PollWorld T D Q) (q : Q) (nodes : List (WaitNode T)) : PollWorld T D Q :=
  { w with queue := Function.update w.queue q nodes }

def go (w : PollWorld T D Q) (t : T) (memory : Bool) : Option (PollWorld T D Q) :=
  let p := w.poller t
  match p.phase with
  | .idle => none
  | .asleep => none
  | .scan =>
    match p.rest, p.adding with
    | [], _ => some (w.setPoller t { p with phase := if p.found then .teardown else .wait, proc := false })
    | entry :: _, q :: adding =>
      -- `_poll_add`
      let key := wanted entry.2
      if memory then
        some ((w.setQueue q (w.queue q ++ [.poll t key])).setPoller t
          { p with adding := adding, nodes := (q, key) :: p.nodes })
      else some (w.setPoller t { p with adding := adding })
    | entry :: rest, [] =>
      let mask := (wanted entry.2).any (w.ready entry.1)
      let proc := p.proc && !mask
      some (w.setPoller t { p with
        scanned := p.scanned ++ [entry], rest := rest, adding := next queues proc rest, proc := proc,
        found := p.found || mask })
  | .wait => some (w.setPoller t (if p.triggered then scan queues p false else { p with phase := .asleep }))
  | .woken => some (w.setPoller t (scan queues p false))
  | .teardown =>
    match p.nodes with
    | [] => some (w.setPoller t { p with phase := .idle })
    | (q, key) :: nodes =>
      some ((w.setQueue q ((w.queue q).erase (.poll t key))).setPoller t { p with nodes := nodes })

def wakeup (w : PollWorld T D Q) (q : Q) (key : List PollEvent) : PollWorld T D Q :=
  match (w.queue q).find? (WaitNode.wakes key) with
  | none => w
  | some node =>
    let w := w.setQueue q ((w.queue q).erase node)
    match node with
    | .wait => w
    | .poll t _ =>
      let p := w.poller t
      w.setPoller t { p with triggered := true, phase := if p.phase = .asleep then .woken else p.phase }

/-- Events are made ready with a call to come on a queue of the descriptor whose key covers them. -/
def step [DecidableEq D] (w : PollWorld T D Q) : PollAction T D Q → Option (PollWorld T D Q × Unit)
  | .poll t fds =>
    if (w.poller t).phase = .idle then
      some (w.setPoller t (scan queues { w.poller t with scanned := [], rest := fds, nodes := [] } true), ())
    else none
  | .go t memory => (w.go queues t memory).map (·, ())
  | .announce d events q key =>
    if q ∈ queues d ∧ (key = [] ∨ ∀ e ∈ events, e ∈ key) then
      some ({ w with
        ready := Function.update w.ready d fun e => w.ready d e || e ∈ events, calls := (q, key) :: w.calls }, ())
    else none
  | .consume d events =>
    some ({ w with ready := Function.update w.ready d fun e => w.ready d e && e ∉ events }, ())
  | .wakeup q key =>
    if (q, key) ∈ w.calls then some ({ w with calls := w.calls.erase (q, key) }.wakeup q key, ()) else none
  | .join q => some (w.setQueue q (w.queue q ++ [.wait]), ())

def covered (calls : List (Q × List PollEvent)) (d : D) (e : PollEvent) : Bool :=
  calls.any fun call => call.1 ∈ queues d && (call.2 = [] || e ∈ call.2)

def wokenBy (w : PollWorld T D Q) (q : Q) (key : List PollEvent) : Option T :=
  match (w.queue q).find? (WaitNode.wakes key) with
  | some (.poll t _) => some t
  | _ => none

/-- There is memory for each node; a poller that goes to sleep still has all its nodes in the queues; and of the pollers
that a wake-up call passes over none has looked at the event already, unless another call for it is still to come. -/
def allows (w : PollWorld T D Q) : PollAction T D Q → Bool
  | .go t memory =>
    ((w.poller t).adding = [] || memory) &&
      ((w.poller t).phase ≠ .wait || (w.poller t).triggered ||
        (w.poller t).scanned.all fun entry => (queues entry.1).all fun q => .poll t (wanted entry.2) ∈ w.queue q)
  | .wakeup q key =>
    (w.queue q).all fun node =>
      match node with
      | .wait => true
      | .poll t _ =>
        w.wokenBy q key = some t || !unaware (w.poller t) ||
          (w.poller t).scanned.all fun entry => q ∉ queues entry.1 ||
            (wanted entry.2).all fun e => !w.ready entry.1 e || (key ≠ [] && e ∉ key) ||
              covered queues (w.calls.erase (q, key)) entry.1 e
  | _ => true

end steps

section fine
variable [DecidableEq Q] (queues : D → List Q)

/-- What holds of a poller: while nothing has told it to look again, each event that it has looked for is not ready or has
a wake-up call to come, as long as the nodes for it are in the queues. -/
structure Fine (w : PollWorld T D Q) (t : T) : Prop where
  asleep : (w.poller t).phase = .asleep → (w.poller t).rest = [] ∧ unaware (w.poller t) = true ∧
    ∀ entry ∈ (w.poller t).scanned, ∀ q ∈ queues entry.1, .poll t (wanted entry.2) ∈ w.queue q
  wait : (w.poller t).phase = .wait → (w.poller t).rest = [] ∧ (w.poller t).found = false
  adds : (w.poller t).adding ≠ [] → (w.poller t).proc = true ∧ (w.poller t).rest ≠ []
  nodes : unaware (w.poller t) = true → (w.poller t).proc = true →
    ∀ entry ∈ (w.poller t).scanned, ∀ q ∈ queues entry.1, .poll t (wanted entry.2) ∈ w.queue q
  present : unaware (w.poller t) = true → (w.poller t).proc = true →
    ∀ entry rest, (w.poller t).rest = entry :: rest →
      ∀ q ∈ queues entry.1, q ∈ (w.poller t).adding ∨ .poll t (wanted entry.2) ∈ w.queue q
  quiet : unaware (w.poller t) = true → ∀ entry ∈ (w.poller t).scanned,
    (∀ q ∈ queues entry.1, .poll t (wanted entry.2) ∈ w.queue q) →
      ∀ e ∈ wanted entry.2, w.ready entry.1 e = true → covered queues w.calls entry.1 e = true

variable {queues} {w w' : PollWorld T D Q} {t : T}

section
variable (fine : Fine queues w t) (same : w'.poller t = w.poller t) (nodes : ∀ q key, .poll t key ∈ w'.queue q ↔ .poll t key ∈ w.queue q)
include fine same nodes

theorem Fine.change (quiet : unaware (w.poller t) = true → ∀ entry ∈ (w.poller t).scanned,
      (∀ q ∈ queues entry.1, .poll t (wanted entry.2) ∈ w.queue q) →
        ∀ e ∈ wanted entry.2, w'.ready entry.1 e = true → covered queues w'.calls entry.1 e = true) :
    Fine queues w' t := by
  refine ⟨?_, ?_, ?_, ?_, ?_, ?_⟩ <;> rw [same]
  · intro asleep
    obtain ⟨rest, unaware, whole⟩ := fine.asleep asleep
    exact ⟨rest, unaware, fun entry inside q queue => (nodes q _).mpr (whole entry inside q queue)⟩
  · exact fine.wait
  · exact fine.adds
  · exact fun unaware proc entry inside q queue => (nodes q _).mpr (fine.nodes unaware proc entry inside q queue)
  · exact fun unaware proc entry rest here q queue =>
      (fine.present unaware proc entry rest here q queue).imp_right (nodes q _).mpr
  · exact fun unaware entry inside whole =>
      quiet unaware entry inside fun q queue => (nodes q _).mp (whole q queue)

theorem Fine.frame (cover : ∀ d e, w'.ready d e = true → (w.ready d e = true → covered queues w.calls d e = true) →
      covered queues w'.calls d e = true) : Fine queues w' t :=
  fine.change same nodes fun unaware entry inside whole e want ready =>
    cover entry.1 e ready (fine.quiet unaware entry inside whole e want)

end

/-- A poller that is going to look at all its descriptors, or has found something, or has been told to look. -/
theorem Fine.aware (next : unaware (w.poller t) = true → (w.poller t).scanned = [])
    (asleep : (w.poller t).phase ≠ .asleep)
    (wait : (w.poller t).phase = .wait → (w.poller t).rest = [] ∧ (w.poller t).found = false)
    (adds : (w.poller t).adding ≠ [] → (w.poller t).proc = true ∧ (w.poller t).rest ≠ [])
    (present : unaware (w.poller t) = true → (w.poller t).proc = true → ∀ entry rest,
      (w.poller t).rest = entry :: rest → ∀ q ∈ queues entry.1, q ∈ (w.poller t).adding) : Fine queues w t := by
  refine ⟨fun sleeps => absurd sleeps asleep, wait, adds, ?_, ?_, ?_⟩
  · intro unaware _ entry inside
    rw [next unaware] at inside
    cases inside
  · exact fun unaware proc entry rest here q queue => .inl (present unaware proc entry rest here q queue)
  · intro unaware entry inside
    rw [next unaware] at inside
    cases inside

variable [DecidableEq T]

omit [DecidableEq Q] in
theorem setPoller_self (w : PollWorld T D Q) (t : T) (p : Poller D Q) : (w.setPoller t p).poller t = p :=
  update_self ..

theorem Fine.other (fine : Fine queues w t) {u : T} (apart : t ≠ u) (p : Poller D Q) :
    Fine queues (w.setPoller u p) t :=
  fine.frame (update_of_ne apart ..) (fun _ _ => .rfl) fun _ _ ready before => before ready

theorem Fine.scan (w : PollWorld T D Q) (t : T) (p : Poller D Q) (proc : Bool) :
    Fine queues (w.setPoller t (scan queues p proc)) t := by
  refine .aware ?_ ?_ ?_ ?_ ?_ <;> rw [setPoller_self]
  · exact fun _ => rfl
  · nofun
  · nofun
  · exact next_adds proc (p.scanned ++ p.rest)
  · intro _ registers entry rest here q queue
    have here : p.scanned ++ p.rest = entry :: rest := here
    show q ∈ next queues proc (p.scanned ++ p.rest)
    rw [here]
    exact next_head proc entry rest registers queue

theorem Fine.ended (fine : Fine queues w t) (phase : (w.poller t).phase = .scan) (rest : (w.poller t).rest = []) :
    Fine queues (w.setPoller t { w.poller t with
      phase := if (w.poller t).found then .teardown else .wait, proc := false }) t := by
  have none : (w.poller t).adding = [] := Classical.byContradiction fun adds => (fine.adds adds).2 rest
  cases found : (w.poller t).found with
  | true =>
    refine .aware ?_ ?_ ?_ ?_ ?_ <;> rw [setPoller_self]
    · exact fun unaware => nomatch (unaware_iff.mp unaware).1
    · nofun
    · nofun
    · exact fun adds => absurd none adds
    · nofun
  | false =>
    refine ⟨?_, ?_, ?_, ?_, ?_, ?_⟩ <;> rw [setPoller_self]
    · nofun
    · exact fun _ => ⟨rest, found⟩
    · exact fun adds => absurd none adds
    · nofun
    · nofun
    · intro looks
      exact fine.quiet (unaware_iff.mpr ⟨.inl phase, found, (unaware_iff.mp looks).2.2⟩)

theorem Fine.added (fine : Fine queues w t) {entry : D × List PollEvent} {rest : List (D × List PollEvent)} {q : Q}
    {adding : List Q} (phase : (w.poller t).phase = .scan) (here : (w.poller t).rest = entry :: rest)
    (adds : (w.poller t).adding = q :: adding) :
    Fine queues ((w.setQueue q (w.queue q ++ [.poll t (wanted entry.2)])).setPoller t { w.poller t with
      adding := adding, nodes := (q, wanted entry.2) :: (w.poller t).nodes }) t := by
  have registers := (fine.adds (by rw [adds]; nofun)).1
  have still {u : Q} {node : WaitNode T} (inside : node ∈ w.queue u) :
      node ∈ update w.queue q (w.queue q ++ [.poll t (wanted entry.2)]) u := by
    by_cases own : u = q
    · cases own
      rw [update_self]
      exact List.mem_append_left _ inside
    · rw [update_of_ne own]
      exact inside
  refine ⟨?_, ?_, ?_, ?_, ?_, ?_⟩ <;> rw [setPoller_self]
  · exact fun asleep => nomatch phase.symm.trans asleep
  · exact fun wait => nomatch phase.symm.trans wait
  · exact fun _ => ⟨registers, by rw [here]; nofun⟩
  · exact fun looks _ other inside u queue => still (fine.nodes looks registers other inside u queue)
  · intro looks _ other more same u queue
    cases here.symm.trans same
    rcases fine.present looks registers entry rest here u queue with later | inside
    · rw [adds] at later
      rcases List.mem_cons.mp later with own | later
      · refine .inr ?_
        show _ ∈ update w.queue q _ u
        rw [own, update_self]
        exact List.mem_append_right _ List.mem_cons_self
      · exact .inl later
    · exact .inr (still inside)
  · intro looks other inside _
    exact fine.quiet looks other inside (fine.nodes looks registers other inside)

theorem Fine.reported (fine : Fine queues w t) {entry : D × List PollEvent} {rest : List (D × List PollEvent)}
    (phase : (w.poller t).phase = .scan) (here : (w.poller t).rest = entry :: rest) (none : (w.poller t).adding = []) :
    Fine queues (w.setPoller t { w.poller t with
      scanned := (w.poller t).scanned ++ [entry], rest := rest
      adding := next queues ((w.poller t).proc && !(wanted entry.2).any (w.ready entry.1)) rest
      proc := (w.poller t).proc && !(wanted entry.2).any (w.ready entry.1)
      found := (w.poller t).found || (wanted entry.2).any (w.ready entry.1) }) t := by
  -- As long as nothing is found, nothing was found before, and this descriptor is not ready.
  have before {p : Poller D Q} (looks : unaware p = true) (triggered : p.triggered = (w.poller t).triggered)
      (found : p.found = ((w.poller t).found || (wanted entry.2).any (w.ready entry.1))) :
      unaware (w.poller t) = true ∧ ∀ e ∈ wanted entry.2, w.ready entry.1 e = false := by
    obtain ⟨-, none, calm⟩ := unaware_iff.mp looks
    obtain ⟨old, mask⟩ := Bool.or_eq_false_iff.mp (found.symm.trans none)
    refine ⟨unaware_iff.mpr ⟨.inl phase, old, triggered.symm.trans calm⟩, fun e want => ?_⟩
    exact Bool.eq_false_iff.mpr (List.any_eq_false.mp mask e want)
  refine ⟨?_, ?_, ?_, ?_, ?_, ?_⟩ <;> rw [setPoller_self]
  · exact fun asleep => nomatch phase.symm.trans asleep
  · exact fun wait => nomatch phase.symm.trans wait
  · exact next_adds _ _
  · intro looks registers other inside q queue
    obtain ⟨looked, -⟩ := before looks rfl rfl
    have registers := (Bool.and_eq_true_iff.mp registers).1
    rcases List.mem_append.mp inside with old | new
    · exact fine.nodes looked registers other old q queue
    · cases List.mem_singleton.mp new
      rcases fine.present looked registers entry rest here q queue with later | there
      · rw [none] at later
        cases later
      · exact there
  · intro _ registers other more same q queue
    have same : rest = other :: more := same
    cases same
    exact .inl (next_head _ other more registers queue)
  · intro looks other inside whole e want ready
    obtain ⟨looked, calm⟩ := before looks rfl rfl
    rcases List.mem_append.mp inside with old | new
    · exact fine.quiet looked other old whole e want ready
    · cases List.mem_singleton.mp new
      exact nomatch (calm e want).symm.trans ready

theorem Fine.sleeps (fine : Fine queues w t) (phase : (w.poller t).phase = .wait) (calm : (w.poller t).triggered = false)
    (whole : ∀ entry ∈ (w.poller t).scanned, ∀ q ∈ queues entry.1, .poll t (wanted entry.2) ∈ w.queue q) :
    Fine queues (w.setPoller t { w.poller t with phase := .asleep }) t := by
  obtain ⟨rest, found⟩ := fine.wait phase
  have looked : unaware (w.poller t) = true := unaware_iff.mpr ⟨.inr (.inl phase), found, calm⟩
  refine ⟨?_, ?_, ?_, ?_, ?_, ?_⟩ <;> rw [setPoller_self]
  · exact fun _ => ⟨rest, unaware_iff.mpr ⟨.inr (.inr rfl), found, calm⟩, whole⟩
  · nofun
  · exact fine.adds
  · exact fun _ _ => whole
  · intro _ _ entry more here
    exact nomatch rest.symm.trans here
  · exact fun _ => fine.quiet looked

variable [DecidableEq D]

end fine

section demo

/-- A poller of both sleeps, and then descriptor 1 is made ready. -/
def demo : List (PollAction Nat Nat Nat) :=
  [.poll 0 [(0, [.pollin]), (1, [.pollin])], .go 0 true, .go 0 true, .go 0 true, .go 0 true, .go 0 true, .go 0 true,
    .go 0 true, .announce 1 [.pollin] 1 [.pollin]]

end demo

end PollWorld

end RtThread.Posix
