import RtThread.Ulog.Async
import RtThread.Lib.Throughout

/-! When no log stays behind while the thread of `ulog` sleeps. -/

set_option autoImplicit false
namespace RtThread.Ulog
open Drivers Lib
open Function (update update_of_ne update_self)

def AsyncPc.holds : AsyncPc → Option Nat
  | .output _ i | .free _ i => some i
  | _ => none

def AsyncPc.rawHand : AsyncPc → List UInt8
  | .rawOutput _ log => log
  | _ => []

def AsyncPc.Past : AsyncPc → Prop
  | .look _ | .output _ _ | .free _ _ => False
  | _ => True

theorem AsyncPc.hand_none {pc : AsyncPc} (free : pc.holds = none) : pc.hand = none := by
  cases pc <;> first | rfl | cases free

theorem Round.next_free (round : Round) : round.next.holds = none ∧ round.next.rawHand = [] ∧ round.next ≠ .blocked true ∧
    ∀ at_ logLen total, round.next ≠ .rawGet at_ logLen total := by
  cases round <;> exact ⟨rfl, rfl, nofun, nofun⟩

namespace UlogAsync

variable {s s' : UlogAsync}

/-- The bytes in `async_rb` -/
def content (s : UlogAsync) : List UInt8 :=
  match s.rb with
  | none => []
  | some rb => rb.content

/-- The bytes that have been taken out of `async_rb`. -/
def taken (s : UlogAsync) : Nat := s.handedRaw.length + s.thread.rawHand.length

structure FrameInv (s : UlogAsync) : Prop where
  lists : ∃ free, Lists s.rbb s.rbb.blocks free
  order : s.handed ++ s.inHand ++ s.waiting = s.stored
  numbers : ∀ (n : Nat) (frame : UlogFrame), s.stored[n]? = some frame → frame.number = n
  magic : ∀ frame ∈ s.stored, frame.magic = ulogFrameMagic
  stores : ∀ k i logLen, s.call k = some (.stores i logLen) → i ∈ s.rbb.blocks ∧ (s.rbb.blkSet i).status = .inited
  apart : ∀ k l i m n, s.call k = some (.stores i m) → s.call l = some (.stores i n) → k = l
  hold : ∀ i, s.thread.holds = some i → i ∈ s.rbb.blocks ∧ (s.rbb.blkSet i).status = .get
  looked : s.thread.Past → s.handed.length = s.seen.1
  blocked : s.thread = .blocked true → s.since.1 = s.handed.length

structure RawInv (s : UlogAsync) : Prop where
  ring : ∀ rb, s.rb = some rb → rb.Sound
  order : s.handedRaw ++ s.thread.rawHand ++ s.content = s.storedRaw
  seen : s.seen.2 = s.taken ∨ s.seen.2 ≤ s.taken ∧ 65536 ≤ s.content.length
  get : ∀ round logLen total, s.thread = .rawGet round logLen total →
    total = s.taken + logLen.toNat ∧ logLen.toNat ≤ s.content.length
  blocked : s.thread = .blocked true → s.since.2 = s.taken

structure Inv (s : UlogAsync) : Prop where
  frames : s.FrameInv
  raw : s.RawInv

/-! ## The blocks -/

section frames
variable {used free : List Nat} {i : Nat}

theorem waiting_eq (lists : Lists s.rbb used free) :
    s.waiting = (used.filter fun i => (s.rbb.blkSet i).status = .put).map s.frame := by
  rw [waiting, lists.blocks_eq]

theorem FrameInv.congr (inv : s.FrameInv) (rbb : s'.rbb = s.rbb) (frame : s'.frame = s.frame) (call : s'.call = s.call)
    (thread : s'.thread = s.thread) (handed : s'.handed = s.handed) (stored : s'.stored = s.stored)
    (seen : s'.seen.1 = s.seen.1) (since : s'.since.1 = s.since.1) : s'.FrameInv := by
  have waiting : s'.waiting = s.waiting := by rw [UlogAsync.waiting, UlogAsync.waiting, rbb, frame]
  have inHand : s'.inHand = s.inHand := by rw [UlogAsync.inHand, UlogAsync.inHand, thread, frame]
  constructor
  · rw [rbb]
    exact inv.lists
  · rw [handed, inHand, waiting, stored]
    exact inv.order
  · rw [stored]
    exact inv.numbers
  · rw [stored]
    exact inv.magic
  · rw [call, rbb]
    exact inv.stores
  · rw [call]
    exact inv.apart
  · rw [thread, rbb]
    exact inv.hold
  · rw [thread, handed, seen]
    exact inv.looked
  · rw [thread, handed, since]
    exact inv.blocked

theorem FrameInv.goto (inv : s.FrameInv) (empty : s.thread.hand = none) (pc : AsyncPc) (idle : pc.holds = none)
    (looked : pc.Past → s.handed.length = s.seen.1) (blocked : pc = .blocked true → s.since.1 = s.handed.length) :
    FrameInv { s with thread := pc } where
  lists := inv.lists
  order := by
    have order := inv.order
    rw [inHand, empty] at order
    rw [inHand, AsyncPc.hand_none idle]
    exact order
  numbers := inv.numbers
  magic := inv.magic
  stores := inv.stores
  apart := inv.apart
  hold i holds := by
    change pc.holds = some i at holds
    rw [idle] at holds
    cases holds
  looked := looked
  blocked := blocked

theorem FrameInv.setCall (inv : s.FrameInv) (k : Nat) {pc : Option LogPc} (other : ∀ i logLen, pc ≠ some (.stores i logLen)) :
    (s.setCall k pc).FrameInv where
  lists := inv.lists
  order := inv.order
  numbers := inv.numbers
  magic := inv.magic
  stores l i logLen isCall := by
    change update s.call k pc l = _ at isCall
    by_cases own : l = k
    · rw [own, update_self] at isCall
      exact absurd isCall (other i logLen)
    · rw [update_of_ne own] at isCall
      exact inv.stores l i logLen isCall
  apart l l' i m n isCall isCall' := by
    change update s.call k pc l = _ at isCall
    change update s.call k pc l' = _ at isCall'
    by_cases own : l = k
    · rw [own, update_self] at isCall
      exact absurd isCall (other i m)
    · by_cases own' : l' = k
      · rw [own', update_self] at isCall'
        exact absurd isCall' (other i n)
      · rw [update_of_ne own] at isCall
        rw [update_of_ne own'] at isCall'
        exact inv.apart l l' i m n isCall isCall'
  hold := inv.hold
  looked := inv.looked
  blocked := inv.blocked

theorem FrameInv.setRbb (inv : s.FrameInv) {rbb : Rbb} (lists : Lists rbb s.rbb.blocks free)
    (blkSet : rbb.blkSet = s.rbb.blkSet) : FrameInv { s with rbb } where
  lists := by
    refine ⟨free, ?_⟩
    rw [lists.blocks_eq]
    exact lists
  order := by
    have order := inv.order
    rw [waiting] at order ⊢
    rw [lists.blocks_eq, blkSet]
    exact order
  numbers := inv.numbers
  magic := inv.magic
  stores k i logLen isCall := by
    rw [lists.blocks_eq, blkSet]
    exact inv.stores k i logLen isCall
  apart := inv.apart
  hold i holds := by
    rw [lists.blocks_eq, blkSet]
    exact inv.hold i holds
  looked := inv.looked
  blocked := inv.blocked

theorem filter_put {blkSet : Nat → RbbBlk} {block : RbbBlk} (out : i ∉ used) :
    used.filter (fun j => (update blkSet i block j).status = .put) =
      used.filter fun j => (blkSet j).status = .put := by
  apply List.filter_congr
  intro j inside
  have other : j ≠ i := fun same => out (same ▸ inside)
  rw [update_of_ne other]

theorem FrameInv.alloc (inv : s.FrameInv) {rbb : Rbb} {block : RbbBlk} (k : Nat) (logLen : UInt32) (out : i ∉ s.rbb.blocks)
    (status : block.status = .inited) (blkSet : rbb.blkSet = update s.rbb.blkSet i block)
    (lists : Lists rbb (s.rbb.blocks ++ [i]) free) :
    FrameInv ({ s with rbb }.setCall k (some (.stores i logLen))) := by
  have other {j : Nat} (inside : j ∈ s.rbb.blocks) : j ≠ i := fun same => out (same ▸ inside)
  have kept {j : Nat} (inside : j ∈ s.rbb.blocks) : rbb.blkSet j = s.rbb.blkSet j := by
    rw [blkSet, update_of_ne (other inside)]
  have own : (rbb.blkSet i).status = .inited := by rw [blkSet, update_self, status]
  have blocks : rbb.blocks = s.rbb.blocks ++ [i] := lists.blocks_eq
  refine ⟨⟨free, ?_⟩, ?_, inv.numbers, inv.magic, ?_, ?_, ?_, inv.looked, inv.blocked⟩
  · change Lists rbb rbb.blocks free
    rw [blocks]
    exact lists
  · have order := inv.order
    rw [waiting] at order ⊢
    change s.handed ++ s.inHand ++ (rbb.blocks.filter fun j => (rbb.blkSet j).status = .put).map s.frame = s.stored
    rw [blocks, List.filter_append, List.filter_singleton, own, blkSet, filter_put out]
    simpa using order
  · intro l j n isCall
    change j ∈ rbb.blocks ∧ (rbb.blkSet j).status = .inited
    change update s.call k _ l = _ at isCall
    rw [blocks]
    by_cases mine : l = k
    · rw [mine, update_self] at isCall
      cases isCall
      exact ⟨List.mem_append_right _ List.mem_cons_self, own⟩
    · rw [update_of_ne mine] at isCall
      obtain ⟨inside, inited⟩ := inv.stores l j n isCall
      rw [kept inside]
      exact ⟨List.mem_append_left _ inside, inited⟩
  · intro l l' j m n isCall isCall'
    change update s.call k _ l = _ at isCall
    change update s.call k _ l' = _ at isCall'
    by_cases mine : l = k <;> by_cases mine' : l' = k
    · rw [mine, mine']
    · rw [mine, update_self] at isCall
      rw [update_of_ne mine'] at isCall'
      cases isCall
      exact absurd (inv.stores l' i n isCall').1 out
    · rw [mine', update_self] at isCall'
      rw [update_of_ne mine] at isCall
      cases isCall'
      exact absurd (inv.stores l i m isCall).1 out
    · rw [update_of_ne mine] at isCall
      rw [update_of_ne mine'] at isCall'
      exact inv.apart l l' j m n isCall isCall'
  · intro j holds
    change j ∈ rbb.blocks ∧ (rbb.blkSet j).status = .get
    obtain ⟨inside, got⟩ := inv.hold j holds
    rw [blocks, kept inside]
    exact ⟨List.mem_append_left _ inside, got⟩

/-- What waits when a block is put: the new frame stands between those in front of its block and those behind. -/
theorem waiting_put {xs ys : List Nat} {f : UlogFrame} (lists : Lists s.rbb (xs ++ i :: ys) free)
    (inited : (s.rbb.blkSet i).status = .inited) :
    s.waiting = (xs.filter fun j => (s.rbb.blkSet j).status = .put).map s.frame ++
        (ys.filter fun j => (s.rbb.blkSet j).status = .put).map s.frame ∧
      waiting { s with rbb := s.rbb.setStatus i .put, frame := update s.frame i f } =
        (xs.filter fun j => (s.rbb.blkSet j).status = .put).map s.frame ++
          f :: (ys.filter fun j => (s.rbb.blkSet j).status = .put).map s.frame := by
  have nodup := nodup_used lists.usedList
  have outX : i ∉ xs := fun inside => (List.nodup_append.mp nodup).2.2 i inside i List.mem_cons_self rfl
  have outY : i ∉ ys := (List.nodup_cons.mp (List.nodup_append.mp nodup).2.1).1
  have frames {zs : List Nat} (out : i ∉ zs) (p : Nat → Bool) :
      (zs.filter p).map (update s.frame i f) = (zs.filter p).map s.frame := by
    apply List.map_congr_left
    intro j inside
    have other : j ≠ i := fun same => out (same ▸ List.mem_of_mem_filter inside)
    exact update_of_ne other _ _
  constructor
  · rw [waiting_eq lists, List.filter_append, List.filter_cons_of_neg (by simp [inited]), List.map_append]
  · have kept : Lists (s.rbb.setStatus i .put) (xs ++ i :: ys) free := lists.setStatus (by simp) (by simp)
    rw [waiting]
    change ((s.rbb.setStatus i .put).blocks.filter fun j =>
      (update s.rbb.blkSet i { s.rbb.blkSet i with status := .put } j).status = .put).map
        (update s.frame i f) = _
    rw [kept.blocks_eq, List.filter_append,
      List.filter_cons_of_pos (by simp), filter_put outX, filter_put outY, List.map_append, List.map_cons,
      update_self, frames outX, frames outY]

section
variable (inv : s.FrameInv)
include inv

theorem FrameInv.split (inside : i ∈ s.rbb.blocks) :
    ∃ xs ys free, s.rbb.blocks = xs ++ i :: ys ∧ Lists s.rbb (xs ++ i :: ys) free := by
  obtain ⟨free, lists⟩ := inv.lists
  obtain ⟨xs, ys, cut⟩ := List.append_of_mem inside
  exact ⟨xs, ys, free, cut, cut ▸ lists⟩

theorem FrameInv.inHand_put {f : UlogFrame} (inited : (s.rbb.blkSet i).status = .inited) :
    (s.thread.hand.map (update s.frame i f)).toList = s.inHand := by
  rw [inHand]
  cases hand : s.thread.hand with
  | none => rfl
  | some j =>
    have holds : s.thread.holds = some j := by
      revert hand
      cases s.thread <;> first | exact id | exact nofun
    have other : j ≠ i := by
      rintro rfl
      have got := (inv.hold j holds).2
      rw [inited] at got
      cases got
    rw [Option.map_some, Option.map_some, update_of_ne other]

theorem FrameInv.put {f : UlogFrame} (inside : i ∈ s.rbb.blocks)
    (inited : (s.rbb.blkSet i).status = .inited) (ownerless : ∀ k logLen, s.call k ≠ some (.stores i logLen))
    (magic : f.magic = ulogFrameMagic) (number : f.number = s.stored.length)
    (last : ∀ j ∈ s.rbb.behind i, (s.rbb.blkSet j).status ≠ .put) :
    FrameInv { s with
      rbb := s.rbb.setStatus i .put, frame := update s.frame i f, stored := s.stored ++ [f] } := by
  obtain ⟨xs, ys, free, cut, lists⟩ := inv.split inside
  have kept : Lists (s.rbb.setStatus i .put) (xs ++ i :: ys) free := lists.setStatus (by simp) (by simp)
  have blocks : (s.rbb.setStatus i .put).blocks = s.rbb.blocks := kept.blocks_eq.trans cut.symm
  have stays {j : Nat} {status : RbbStatus} (member : j ∈ s.rbb.blocks) (has : (s.rbb.blkSet j).status = status)
      (differs : j ≠ i) : j ∈ (s.rbb.setStatus i .put).blocks ∧ ((s.rbb.setStatus i .put).blkSet j).status = status := by
    rw [blocks]
    refine ⟨member, ?_⟩
    change (update s.rbb.blkSet i _ j).status = status
    rwa [update_of_ne differs]
  have behind : (ys.filter fun j => (s.rbb.blkSet j).status = .put) = [] := by
    rw [List.filter_eq_nil_iff]
    intro j member
    rw [decide_eq_true_iff]
    exact last j (by rwa [lists.behind_eq])
  refine ⟨⟨free, ?_⟩, ?_, ?_, ?_, ?_, inv.apart, ?_, inv.looked, inv.blocked⟩
  · change Lists (s.rbb.setStatus i .put) (s.rbb.setStatus i .put).blocks free
    rw [kept.blocks_eq]
    exact kept
  · obtain ⟨before, after⟩ := waiting_put (f := f) lists inited
    change s.handed ++ (s.thread.hand.map (update s.frame i f)).toList ++
      waiting { s with rbb := s.rbb.setStatus i .put, frame := update s.frame i f } = s.stored ++ [f]
    rw [inv.inHand_put inited, after, ← inv.order, before, behind]
    simp
  · intro n frame isFrame
    change (s.stored ++ [f])[n]? = some frame at isFrame
    rcases Nat.lt_or_ge n s.stored.length with less | beyond
    · rw [List.getElem?_append_left less] at isFrame
      exact inv.numbers n frame isFrame
    · rw [List.getElem?_append_right beyond, List.getElem?_singleton] at isFrame
      split at isFrame
      case isTrue =>
        cases isFrame
        omega
      case isFalse => cases isFrame
  · intro frame member
    rcases List.mem_append.mp member with old | new
    · exact inv.magic frame old
    · rw [List.mem_singleton.mp new]
      exact magic
  · intro l j n isStore
    obtain ⟨member, isInited⟩ := inv.stores l j n isStore
    refine stays member isInited ?_
    rintro rfl
    exact ownerless l n isStore
  · intro j holds
    obtain ⟨member, got⟩ := inv.hold j holds
    refine stays member got ?_
    rintro rfl
    rw [inited] at got
    cases got

theorem FrameInv.put_last {f : UlogFrame} (inside : i ∈ s.rbb.blocks)
    (inited : (s.rbb.blkSet i).status = .inited) (number : f.number = s.stored.length)
    (order : s.handed ++ (s.thread.hand.map (update s.frame i f)).toList ++
      waiting { s with rbb := s.rbb.setStatus i .put, frame := update s.frame i f } = s.stored ++ [f]) :
    ∀ j ∈ s.rbb.behind i, (s.rbb.blkSet j).status ≠ .put := by
  obtain ⟨xs, ys, free, cut, lists⟩ := inv.split inside
  obtain ⟨before, after⟩ := waiting_put (f := f) lists inited
  intro j member put
  rw [lists.behind_eq] at member
  rw [inv.inHand_put inited, after, ← inv.order, before, List.append_assoc, List.append_assoc, List.append_assoc,
    List.append_assoc, List.append_cancel_left_eq, List.append_cancel_left_eq, List.append_cancel_left_eq] at order
  have waits : s.frame j ∈ (ys.filter fun j => (s.rbb.blkSet j).status = .put).map s.frame :=
    List.mem_map_of_mem (List.mem_filter.mpr ⟨member, by simpa using put⟩)
  cases rest : (ys.filter fun j => (s.rbb.blkSet j).status = .put).map s.frame with
  | nil =>
    rw [rest] at waits
    cases waits
  | cons g gs =>
    rw [rest, List.cons_append] at order
    have same : f = g := (List.cons.inj order).1
    have old : g ∈ s.stored := by
      rw [← inv.order, before, rest]
      simp
    obtain ⟨n, less, isG⟩ := List.getElem_of_mem old
    have position := inv.numbers n g (by rw [List.getElem?_eq_getElem less, isG])
    rw [← same, number] at position
    omega

theorem FrameInv.found (round : Round) (free : s.thread.hand = none)
    (found : s.rbb.blocks.find? (fun i => (s.rbb.blkSet i).status = .put) = some i) :
    FrameInv { s with rbb := s.rbb.setStatus i .get, thread := .output round i } := by
  obtain ⟨put, xs, ys, cut, front⟩ := List.find?_eq_some_iff_append.mp found
  rw [decide_eq_true_iff] at put
  obtain ⟨spare, lists⟩ := inv.lists
  rw [cut] at lists
  have kept : Lists (s.rbb.setStatus i .get) (xs ++ i :: ys) spare := lists.setStatus (by simp) (by simp)
  have blocks : (s.rbb.setStatus i .get).blocks = s.rbb.blocks := kept.blocks_eq.trans cut.symm
  have nodup := nodup_used lists.usedList
  have outX : i ∉ xs := fun inside => (List.nodup_append.mp nodup).2.2 i inside i List.mem_cons_self rfl
  have outY : i ∉ ys := (List.nodup_cons.mp (List.nodup_append.mp nodup).2.1).1
  have noneX : (xs.filter fun j => (s.rbb.blkSet j).status = .put) = [] :=
    List.filter_eq_nil_iff.mpr fun j inside => by simpa using front j inside
  refine ⟨⟨spare, ?_⟩, ?_, inv.numbers, inv.magic, ?_, inv.apart, ?_, nofun, nofun⟩
  · change Lists (s.rbb.setStatus i .get) (s.rbb.setStatus i .get).blocks spare
    rw [kept.blocks_eq]
    exact kept
  · have order := inv.order
    rw [inHand, free, waiting_eq lists, List.filter_append, noneX, List.filter_cons_of_pos (by simpa using put)] at order
    rw [waiting]
    change s.handed ++ [s.frame i] ++ ((s.rbb.setStatus i .get).blocks.filter fun j =>
      (update s.rbb.blkSet i { s.rbb.blkSet i with status := .get } j).status = .put).map s.frame = s.stored
    rw [kept.blocks_eq, List.filter_append, List.filter_cons_of_neg (by simp), filter_put outX, filter_put outY, noneX,
      ← order]
    simp
  · intro l j n isStore
    obtain ⟨member, isInited⟩ := inv.stores l j n isStore
    have differs : j ≠ i := by
      rintro rfl
      rw [put] at isInited
      cases isInited
    change j ∈ (s.rbb.setStatus i .get).blocks ∧ (update s.rbb.blkSet i _ j).status = .inited
    rw [blocks, update_of_ne differs]
    exact ⟨member, isInited⟩
  · intro j holds
    cases holds
    change i ∈ (s.rbb.setStatus i .get).blocks ∧ (update s.rbb.blkSet i _ i).status = .get
    rw [blocks, update_self, cut]
    simp

theorem FrameInv.drained (free : s.thread.hand = none)
    (empty : s.rbb.blocks.find? (fun i => (s.rbb.blkSet i).status = .put) = none) :
    s.handed.length = s.stored.length := by
  have order := inv.order
  have nothing : (s.rbb.blocks.filter fun i => (s.rbb.blkSet i).status = .put) = [] :=
    List.filter_eq_nil_iff.mpr (List.find?_eq_none.mp empty)
  rw [inHand, free, waiting, nothing] at order
  simpa using congrArg List.length order

theorem FrameInv.handOn {round : Round} (output : s.thread = .output round i) :
    FrameInv { s with handed := s.handed ++ [s.frame i], thread := .free round i } where
  lists := inv.lists
  order := by
    have order := inv.order
    rw [inHand, output] at order
    change s.handed ++ [s.frame i] ++ [] ++ s.waiting = s.stored
    rw [List.append_nil]
    exact order
  numbers := inv.numbers
  magic := inv.magic
  stores := inv.stores
  apart := inv.apart
  hold j holds := inv.hold j (by rw [output]; exact holds)
  looked := nofun
  blocked := nofun

theorem FrameInv.freed {round : Round} (free : s.thread = .free round i) {rbb : Rbb}
    (done : rtRbbBlkFree s.rbb i = some rbb) : FrameInv { s with rbb, thread := .look round } := by
  obtain ⟨inside, got⟩ := inv.hold i (by rw [free]; rfl)
  obtain ⟨xs, ys, spare, cut, lists⟩ := inv.split inside
  obtain ⟨rbb', freed, kept, _, blkSet⟩ := lists.release
  obtain rfl : rbb' = rbb := Option.some.inj (freed.symm.trans done)
  have nodup := nodup_used lists.usedList
  have outX : i ∉ xs := fun inside => (List.nodup_append.mp nodup).2.2 i inside i List.mem_cons_self rfl
  have outY : i ∉ ys := (List.nodup_cons.mp (List.nodup_append.mp nodup).2.1).1
  refine ⟨⟨i :: spare, ?_⟩, ?_, inv.numbers, inv.magic, ?_, inv.apart, nofun, nofun, nofun⟩
  · change Lists rbb' rbb'.blocks (i :: spare)
    rw [kept.blocks_eq]
    exact kept
  · have order := inv.order
    rw [inHand, free, waiting_eq lists, List.filter_append, List.filter_cons_of_neg (by simp [got])] at order
    rw [waiting]
    change s.handed ++ [] ++ (rbb'.blocks.filter fun j => (rbb'.blkSet j).status = .put).map s.frame = s.stored
    rw [kept.blocks_eq, blkSet, List.filter_append, filter_put outX, filter_put outY, ← order]
    rfl
  · intro l j n isStore
    obtain ⟨member, isInited⟩ := inv.stores l j n isStore
    have differs : j ≠ i := by
      rintro rfl
      rw [got] at isInited
      cases isInited
    change j ∈ rbb'.blocks ∧ (rbb'.blkSet j).status = .inited
    rw [kept.blocks_eq, blkSet, update_of_ne differs]
    refine ⟨?_, isInited⟩
    rw [cut] at member
    simpa [differs] using member

end

end frames

/-! ## The raw bytes -/

section raw
variable {rb : Ringbuffer}

theorem RawInv.congr (inv : s.RawInv) (rb : s'.rb = s.rb) (thread : s'.thread = s.thread) (handedRaw : s'.handedRaw = s.handedRaw)
    (storedRaw : s'.storedRaw = s.storedRaw) (seen : s'.seen.2 = s.seen.2) (since : s'.since.2 = s.since.2) : s'.RawInv := by
  have content : s'.content = s.content := by rw [UlogAsync.content, UlogAsync.content, rb]
  have taken : s'.taken = s.taken := by rw [UlogAsync.taken, UlogAsync.taken, handedRaw, thread]
  constructor
  · rw [rb]
    exact inv.ring
  · rw [handedRaw, thread, content, storedRaw]
    exact inv.order
  · rw [seen, taken, content]
    exact inv.seen
  · rw [thread, taken, content]
    exact inv.get
  · rw [thread, since, taken]
    exact inv.blocked

theorem RawInv.goto (inv : s.RawInv) (empty : s.thread.rawHand = []) (pc : AsyncPc) (idle : pc.rawHand = [])
    (get : ∀ round logLen total, pc = .rawGet round logLen total →
      total = s.taken + logLen.toNat ∧ logLen.toNat ≤ s.content.length)
    (blocked : pc = .blocked true → s.since.2 = s.taken) : RawInv { s with thread := pc } := by
  have taken : taken { s with thread := pc } = s.taken := by
    change s.handedRaw.length + pc.rawHand.length = s.handedRaw.length + s.thread.rawHand.length
    rw [empty, idle]
  refine ⟨inv.ring, ?_, ?_, ?_, ?_⟩
  · have order := inv.order
    rw [empty] at order
    change s.handedRaw ++ pc.rawHand ++ s.content = s.storedRaw
    rwa [idle]
  · rw [taken]
    exact inv.seen
  · rw [taken]
    exact get
  · rw [taken]
    exact blocked

theorem RawInv.length (inv : s.RawInv) : s.taken + s.content.length = s.storedRaw.length := by
  rw [← inv.order, List.length_append, List.length_append, taken]

theorem content_some (here : s.rb = some rb) : s.content = rb.content := by rw [content, here]

theorem RawInv.append (inv : s.RawInv) (log : List UInt8) (sound : rb.Sound) (content : rb.content = s.content ++ log) :
    RawInv { s with rb := some rb, storedRaw := s.storedRaw ++ log } := by
  have more : s.content.length ≤ rb.content.length := by
    rw [content, List.length_append]
    exact Nat.le_add_right _ _
  constructor
  · rintro _ ⟨⟩
    exact sound
  · change s.handedRaw ++ s.thread.rawHand ++ rb.content = s.storedRaw ++ log
    rw [content, ← inv.order, List.append_assoc, List.append_assoc, List.append_assoc]
  · exact inv.seen.imp_right fun both => ⟨both.1, both.2.trans more⟩
  · intro round logLen total isGet
    obtain ⟨total, le⟩ := inv.get round logLen total isGet
    exact ⟨total, le.trans more⟩
  · exact inv.blocked

theorem RawInv.putRaw (inv : s.RawInv) (here : s.rb = some rb) (log : Nat → UInt8) (len : UInt32) :
    RawInv { s with
      rb := some (rtRingbufferPut rb log len).1
      storedRaw := s.storedRaw ++ bytesAt log (rtRingbufferPut rb log len).2.toNat } := by
  obtain ⟨sound, _, content, count⟩ := put_fifo (inv.ring rb here) log len
  refine inv.append _ sound ?_
  rw [content, content_some here, count, bytesAt_take, bytesAt_length]

theorem RawInv.create (inv : s.RawInv) (c : UlogConfig) (absent : s.rb = none) (pool : Nat → UInt8) :
    RawInv { s with rb := some (rtRingbufferInit pool (UInt32.ofNat c.bufSize)) } := by
  have most := c.most
  have lines := c.lines
  have word : UInt32.size = 4294967296 := rfl
  have size : (UInt32.ofNat c.bufSize).toNat = c.bufSize := UInt32.toNat_ofNat_of_lt' (by omega)
  have least : Mem.Config.board.alignSize ≤ (UInt32.ofNat c.bufSize).toNat := by
    rw [size, show Mem.Config.board.alignSize = 8 from rfl]
    omega
  obtain ⟨sound, empty, _⟩ := rtRingbufferInit_sound pool least (by rw [size]; exact most)
  have nothing : s.content = [] := by rw [content, absent]
  have same := inv.append [] sound (by rw [empty, nothing]; rfl)
  rwa [List.append_nil] at same

theorem uint16_toNat (n : UInt32) : n.toUInt16.toUInt32.toNat = n.toNat % 65536 := by
  rw [UInt16.toNat_toUInt32, UInt32.toNat_toUInt16]

/-- As many bytes are taken out as there were when the length was asked for, if these are less than 65536. -/
theorem RawInv.got (inv : s.RawInv) (here : s.rb = some rb) {round : Round} {logLen : UInt32} {total : Nat}
    (isGet : s.thread = .rawGet round logLen total) :
    RawInv { s with
      rb := some (rtRingbufferGet rb (fun _ => 0) logLen.toUInt16.toUInt32).1
      seen := if logLen < 65536 then (s.seen.1, total) else s.seen
      thread := .rawOutput round (bytesAt (rtRingbufferGet rb (fun _ => 0) logLen.toUInt16.toUInt32).2.1
        (rtRingbufferGet rb (fun _ => 0) logLen.toUInt16.toUInt32).2.2.toNat) } := by
  obtain ⟨sound, _, content, _, bytes⟩ := get_fifo (inv.ring rb here) (fun _ => 0) logLen.toUInt16.toUInt32
  obtain ⟨isTotal, le⟩ := inv.get round logLen total isGet
  rw [content_some here] at le
  rw [bytes]
  rw [uint16_toNat] at content ⊢
  have part : logLen.toNat % 65536 ≤ logLen.toNat := Nat.mod_le _ _
  have length : (rb.content.take (logLen.toNat % 65536)).length = logLen.toNat % 65536 := by
    rw [List.length_take]
    omega
  have before : s.taken = s.handedRaw.length := by rw [taken, isGet]; rfl
  refine ⟨?_, ?_, ?_, nofun, nofun⟩
  · rintro _ ⟨⟩
    exact sound
  · have order := inv.order
    rw [isGet, content_some here] at order
    change s.handedRaw ++ rb.content.take _ ++ (rtRingbufferGet rb _ _).1.content = s.storedRaw
    rw [content, List.append_assoc, List.take_append_drop]
    simpa [AsyncPc.rawHand] using order
  · change (if logLen < 65536 then (s.seen.1, total) else s.seen).2 = s.handedRaw.length + (rb.content.take _).length ∨
      (if logLen < 65536 then (s.seen.1, total) else s.seen).2 ≤ s.handedRaw.length + (rb.content.take _).length ∧
        65536 ≤ (rtRingbufferGet rb _ _).1.content.length
    rw [length, content, List.length_drop, ← before]
    split
    case isTrue short =>
      have less : logLen.toNat < 65536 := UInt32.lt_iff_toNat_lt.mp short
      rw [Nat.mod_eq_of_lt less]
      exact Or.inl isTotal
    case isFalse long =>
      have more : ¬logLen.toNat < 65536 := fun less => long (UInt32.lt_iff_toNat_lt.mpr less)
      have seen := inv.seen
      right
      omega

theorem RawInv.handOn (inv : s.RawInv) {round : Round} {log : List UInt8} (output : s.thread = .rawOutput round log) :
    RawInv { s with handedRaw := s.handedRaw ++ log, thread := round.next } := by
  obtain ⟨_, rawHand, awake, noGet⟩ := round.next_free
  have taken : UlogAsync.taken { s with handedRaw := s.handedRaw ++ log, thread := round.next } = s.taken := by
    change (s.handedRaw ++ log).length + round.next.rawHand.length = s.handedRaw.length + s.thread.rawHand.length
    rw [rawHand, output, List.length_append]
    rfl
  refine ⟨inv.ring, ?_, ?_, fun at_ logLen total isGet => absurd isGet (noGet at_ logLen total), fun isBlocked => absurd isBlocked awake⟩
  · have order := inv.order
    rw [output] at order
    change s.handedRaw ++ log ++ round.next.rawHand ++ s.content = s.storedRaw
    rwa [rawHand, List.append_nil]
  · rw [taken]
    exact inv.seen

end raw

/-! ## Steps -/

section steps
variable {c : UlogConfig} {a : UlogAction}

section
variable (inv : s.Inv)
include inv

theorem Inv.sound : s.Sound where
  frames isBlocked frame waits := by
    have handed := inv.frames.blocked isBlocked
    have order := inv.frames.order
    rw [inHand, isBlocked] at order
    obtain ⟨n, less, isFrame⟩ := List.getElem_of_mem waits
    have place : s.stored[s.handed.length + n]? = some frame := by
      rw [← order]
      change (s.handed ++ [] ++ s.waiting)[s.handed.length + n]? = some frame
      rw [List.append_nil, List.getElem?_append_right (Nat.le_add_right _ _), Nat.add_sub_cancel_left,
        List.getElem?_eq_getElem less, isFrame]
    rw [handed, inv.frames.numbers _ _ place]
    exact Nat.le_add_right _ _
  bytes isBlocked rb here := by
    have taken := inv.raw.blocked isBlocked
    have length := inv.raw.length
    rw [content_some here] at length
    rw [Ringbuffer.dataLen_toNat (inv.raw.ring rb here), ← Ringbuffer.content_length, taken]
    omega
  order := inv.frames.order

theorem Inv.goto (pc : AsyncPc) (before : s.thread.hand = none ∧ s.thread.rawHand = [])
    (after : pc.holds = none ∧ pc.rawHand = []) (looked : pc.Past → s.handed.length = s.seen.1)
    (get : ∀ round logLen total, pc = .rawGet round logLen total →
      total = s.taken + logLen.toNat ∧ logLen.toNat ≤ s.content.length)
    (blocked : pc = .blocked true → s.since = (s.handed.length, s.taken)) : Inv { s with thread := pc } where
  frames := inv.frames.goto before.1 pc after.1 looked fun isBlocked => congrArg Prod.fst (blocked isBlocked)
  raw := inv.raw.goto before.2 pc after.2 get fun isBlocked => congrArg Prod.snd (blocked isBlocked)

theorem Inv.notice (notice : Nat) : Inv { s with notice } where
  frames := inv.frames.congr rfl rfl rfl rfl rfl rfl rfl rfl
  raw := inv.raw.congr rfl rfl rfl rfl rfl rfl

theorem Inv.goLook (before : s.thread.hand = none ∧ s.thread.rawHand = []) (round : Round) :
    Inv { s with thread := .look round } :=
  inv.goto (.look round) before ⟨rfl, rfl⟩ (fun past => past.elim) (fun _ _ _ bad => nomatch bad) (fun bad => nomatch bad)

theorem Inv.release : s.release.Inv := by
  unfold UlogAsync.release
  split
  case h_1 blocked => exact inv.goLook (by rw [blocked]; exact ⟨rfl, rfl⟩) .inner
  case h_2 =>
    split
    case isTrue => exact inv.notice _
    case isFalse => exact inv

theorem Inv.setCall (k : Nat) {pc : Option LogPc} (other : ∀ i logLen, pc ≠ some (.stores i logLen)) :
    (s.setCall k pc).Inv where
  frames := inv.frames.setCall k other
  raw := inv.raw.congr rfl rfl rfl rfl rfl rfl

theorem Inv.goNext (before : s.thread.hand = none ∧ s.thread.rawHand = []) (past : s.thread.Past) (round : Round) :
    Inv { s with thread := round.next } := by
  obtain ⟨free, rawHand, awake, noGet⟩ := round.next_free
  exact inv.goto round.next before ⟨free, rawHand⟩ (fun _ => inv.frames.looked past)
    (fun at_ logLen total isGet => absurd isGet (noGet at_ logLen total)) (fun isBlocked => absurd isBlocked awake)

theorem Inv.look {round : Round} (isLook : s.thread = .look round) {rbb : Rbb} {got : Option Nat}
    (done : rtRbbBlkGet s.rbb = some (rbb, got)) :
    match got with
    | some i => Inv { s with rbb, thread := .output round i }
    | none => Inv { s with rbb, thread := .rawLen round, seen := (s.stored.length, s.seen.2) } := by
  obtain ⟨free, lists⟩ := inv.frames.lists
  have enough : s.rbb.blocks.length ≤ s.rbb.loopFuel := Nat.le_succ_of_le lists.length_used
  have hand : s.thread.hand = none := by rw [isLook]; rfl
  have rawHand : s.thread.rawHand = [] := by rw [isLook]; rfl
  rw [rtRbbBlkGet, findPut_eq lists.usedList.links _ enough] at done
  cases found : s.rbb.blocks.find? fun i => (s.rbb.blkSet i).status = .put with
  | some i =>
    rw [found] at done
    cases done
    refine ⟨inv.frames.found round hand found, ?_⟩
    exact (inv.raw.goto rawHand (.output round i) rfl (fun _ _ _ bad => nomatch bad) (fun bad => nomatch bad)).congr
      rfl rfl rfl rfl rfl rfl
  | none =>
    rw [found] at done
    cases done
    have seen : FrameInv { s with seen := (s.stored.length, s.seen.2) } :=
      { inv.frames with
        looked := fun past => by
          change s.thread.Past at past
          rw [isLook] at past
          exact past.elim }
    have seenRaw : RawInv { s with seen := (s.stored.length, s.seen.2) } := inv.raw.congr rfl rfl rfl rfl rfl rfl
    exact ⟨seen.goto hand (.rawLen round) rfl (fun _ => inv.frames.drained hand found) (fun bad => nomatch bad),
      seenRaw.goto rawHand (.rawLen round) rfl (fun _ _ _ bad => nomatch bad) (fun bad => nomatch bad)⟩

theorem Inv.go {memory : Bool} (allowed : s.Allowed (.async memory)) (done : s.go memory = some s') :
    s'.Inv := by
  unfold UlogAsync.go at done
  cases at_ : s.thread with
  | look round =>
    simp only [at_] at done
    cases got : rtRbbBlkGet s.rbb with
    | none =>
      rw [got] at done
      cases done
    | some next =>
      obtain ⟨rbb, found⟩ := next
      have looked := inv.look at_ got
      rw [got] at done
      cases found with
      | none | some i =>
        cases done
        exact looked
  | output round i =>
    simp only [at_, Option.some.injEq] at done
    have member : s.frame i ∈ s.stored := by
      rw [← inv.frames.order, inHand, at_]
      simp [AsyncPc.hand]
    rw [if_pos (inv.frames.magic _ member)] at done
    rw [← done]
    refine ⟨inv.frames.handOn at_, ?_⟩
    exact (inv.raw.goto (by rw [at_]; rfl) (.free round i) rfl (fun _ _ _ bad => nomatch bad) (fun bad => nomatch bad)).congr
      rfl rfl rfl rfl rfl rfl
  | free round i =>
    simp only [at_, Option.map_eq_some_iff] at done
    obtain ⟨rbb, freed, rfl⟩ := done
    refine ⟨inv.frames.freed at_ freed, ?_⟩
    exact (inv.raw.goto (by rw [at_]; rfl) (.look round) rfl (fun _ _ _ bad => nomatch bad) (fun bad => nomatch bad)).congr
      rfl rfl rfl rfl rfl rfl
  | rawLen round =>
    have before : s.thread.hand = none ∧ s.thread.rawHand = [] := by
      rw [at_]
      exact ⟨rfl, rfl⟩
    have past : s.thread.Past := by
      rw [at_]
      trivial
    simp only [at_] at done
    cases here : s.rb with
    | none =>
      have next := inv.goNext before past round
      simp only [here, Option.some.injEq] at done next
      rwa [← done]
    | some rb =>
      simp only [here] at done
      split at done
      case isFalse =>
        have next := inv.goNext before past round
        rw [here] at next
        rwa [← Option.some.inj done]
      case isTrue =>
        rw [← Option.some.inj done, ← here]
        refine inv.goto (.rawGet round (rtRingbufferDataLen rb) s.storedRaw.length) before ⟨rfl, rfl⟩
          (fun _ => inv.frames.looked past) ?_ (fun bad => nomatch bad)
        rintro _ _ _ ⟨⟩
        have length := inv.raw.length
        rw [content_some here] at length ⊢
        rw [Ringbuffer.dataLen_toNat (inv.raw.ring rb here), ← Ringbuffer.content_length]
        exact ⟨length.symm, Nat.le_refl _⟩
  | rawGet round logLen total =>
    simp only [at_] at done
    cases here : s.rb with
    | none =>
      rw [here] at done
      cases done
    | some rb =>
      simp only [here, Option.some.injEq] at done
      rw [← done]
      have past : s.thread.Past := by
        rw [at_]
        trivial
      have looked := inv.frames.looked past
      have frames : FrameInv { s with thread := .rawOutput round [] } :=
        inv.frames.goto (by rw [at_]; rfl) _ rfl (fun _ => looked) (fun bad => nomatch bad)
      refine ⟨⟨frames.lists, frames.order, frames.numbers, frames.magic, frames.stores, frames.apart, nofun, ?_, nofun⟩,
        inv.raw.got here at_⟩
      intro _
      change s.handed.length = (if logLen < 65536 then (s.seen.1, total) else s.seen).1
      split <;> exact looked
  | rawOutput round log =>
    simp only [at_, Option.some.injEq] at done
    have past : s.thread.Past := by
      rw [at_]
      trivial
    obtain ⟨free, _, awake, _⟩ := round.next_free
    rw [← done]
    refine ⟨?_, inv.raw.handOn at_⟩
    exact (inv.frames.goto (by rw [at_]; rfl) round.next free (fun _ => inv.frames.looked past)
      (fun isBlocked => absurd isBlocked awake)).congr rfl rfl rfl rfl rfl rfl rfl rfl
  | reset forever =>
    simp only [at_, Option.some.injEq] at done
    have past : s.thread.Past := by
      rw [at_]
      trivial
    rw [← done]
    exact (inv.notice 0).goto (.take forever) (by rw [show UlogAsync.thread { s with notice := 0 } = _ from at_]; exact ⟨rfl, rfl⟩)
      ⟨rfl, rfl⟩ (fun _ => inv.frames.looked past) (fun _ _ _ bad => nomatch bad) (fun bad => nomatch bad)
  | take forever =>
    simp only [at_] at done
    have before : s.thread.hand = none ∧ s.thread.rawHand = [] := by
      rw [at_]
      exact ⟨rfl, rfl⟩
    split at done
    case isTrue =>
      rw [← Option.some.inj done]
      exact (inv.notice (s.notice - 1)).goLook before .inner
    case isFalse empty =>
      have past : s.thread.Past := by
        rw [at_]
        trivial
      have awake : s.thread ≠ .blocked true := by
        rw [at_]
        exact nofun
      have since : Inv { s with since := (s.stored.length, s.storedRaw.length) } :=
        ⟨{ inv.frames with blocked := fun isBlocked => absurd isBlocked awake },
          { inv.raw with blocked := fun isBlocked => absurd isBlocked awake }⟩
      rw [← Option.some.inj done]
      refine since.goto (.blocked forever) before ⟨rfl, rfl⟩ (fun _ => inv.frames.looked past) (fun _ _ _ bad => nomatch bad) ?_
      intro isBlocked
      have forever := AsyncPc.blocked.inj isBlocked
      have nothing := allowed (by rw [at_, forever]) (by omega)
      have looked := inv.frames.looked past
      have length := inv.raw.length
      have seen := inv.raw.seen
      rw [nothing] at looked seen
      change (s.stored.length, s.storedRaw.length) = (s.handed.length, s.taken)
      rw [looked]
      congr 1
      omega
  | blocked forever =>
    simp only [at_] at done
    cases done

theorem Inv.step (allowed : s.Allowed a) (done : s.act c a = some s') : s'.Inv := by
  cases a with
  | alloc k logLen =>
    simp only [act] at done
    split at done
    case h_1 rbb _ allocated =>
      obtain ⟨free, lists⟩ := inv.frames.lists
      rw [← Option.some.inj done]
      rcases lists.alloc allocated with ⟨_, blkSet, _, lists'⟩ | ⟨_, _, bad, _⟩
      · exact ⟨inv.frames.setRbb lists' blkSet, inv.raw.congr rfl rfl rfl rfl rfl rfl⟩
      · cases bad
    case h_2 rbb i _ allocated =>
      obtain ⟨free, lists⟩ := inv.frames.lists
      rw [← Option.some.inj done]
      rcases lists.alloc allocated with ⟨bad, _⟩ | ⟨_, block, same, out, status, blkSet, _, lists'⟩
      · cases bad
      · cases same
        exact ⟨inv.frames.alloc k logLen out status blkSet lists', inv.raw.congr rfl rfl rfl rfl rfl rfl⟩
    case h_3 => cases done
  | put k level tag log =>
    simp only [act] at done
    split at done
    case h_2 => cases done
    case h_1 i logLen isCall =>
      obtain ⟨inside, inited⟩ := inv.frames.stores k i logLen isCall
      rw [rtRbbBlkPut, if_pos inited, Option.map_some] at done
      rw [← Option.some.inj done]
      have left : (s.setCall k (some .notifies)).FrameInv := inv.frames.setCall k (fun _ _ => nofun)
      refine ⟨left.put inside inited ?_ rfl rfl (allowed i logLen isCall), inv.raw.congr rfl rfl rfl rfl rfl rfl⟩
      intro l n isStore
      change update s.call k _ l = _ at isStore
      by_cases mine : l = k
      · rw [mine, update_self] at isStore
        cases isStore
      · rw [update_of_ne mine] at isStore
        exact mine (inv.frames.apart l k i n logLen isStore isCall)
  | create pool =>
    simp only [act] at done
    split at done
    case isFalse => cases done
    case isTrue absent =>
      rw [← Option.some.inj done]
      exact ⟨inv.frames.congr rfl rfl rfl rfl rfl rfl rfl rfl,
        inv.raw.create c (Option.isNone_iff_eq_none.mp absent) pool⟩
  | putRaw k log logLen =>
    simp only [act] at done
    split at done
    case h_2 => cases done
    case h_1 rb _ here =>
      rw [← Option.some.inj done]
      have stored : Inv { s with
          rb := some (rtRingbufferPut rb log (logLen + 1).toUInt16.toUInt32).1
          storedRaw := s.storedRaw ++
            bytesAt log (rtRingbufferPut rb log (logLen + 1).toUInt16.toUInt32).2.toNat } :=
        ⟨inv.frames.congr rfl rfl rfl rfl rfl rfl rfl rfl, inv.raw.putRaw here log _⟩
      exact stored.setCall k fun _ _ => nofun
  | notify k =>
    simp only [act] at done
    split at done
    case h_2 => cases done
    case h_1 =>
      rw [← Option.some.inj done]
      exact inv.release.setCall k fun _ _ => nofun
  | async memory => exact inv.go allowed done
  | timeout =>
    simp only [act] at done
    split at done
    case h_2 => cases done
    case h_1 blocked =>
      rw [← Option.some.inj done]
      exact inv.goLook (by rw [blocked]; exact ⟨rfl, rfl⟩) .flush

theorem allowed_of_sound (done : s.act c a = some s') (sound : s'.Sound) : s.Allowed a := by
  cases a with
  | alloc | create | putRaw | notify | timeout => trivial
  | put k level tag log =>
    intro i logLen isCall
    obtain ⟨inside, inited⟩ := inv.frames.stores k i logLen isCall
    simp only [act, isCall, rtRbbBlkPut, if_pos inited, Option.map_some, Option.some.injEq] at done
    have order := sound.order
    rw [← done] at order
    exact inv.frames.put_last inside inited rfl order
  | async memory =>
    intro takes empty
    simp only [act, UlogAsync.go, takes, empty, Nat.lt_irrefl, if_false, Option.some.injEq] at done
    have past : s.thread.Past := by
      rw [takes]
      trivial
    have looked := inv.frames.looked past
    have order := inv.frames.order
    rw [inHand, takes] at order
    have noFrame : s.waiting = [] := by
      rw [List.eq_nil_iff_forall_not_mem]
      intro frame waits
      have late := sound.frames (by rw [← done]) frame (by rw [← done]; exact waits)
      rw [← done] at late
      have member : frame ∈ s.stored := by
        rw [← order]
        exact List.mem_append_right _ waits
      obtain ⟨n, less, isFrame⟩ := List.getElem_of_mem member
      have position := inv.frames.numbers n frame (by rw [List.getElem?_eq_getElem less, isFrame])
      change s.stored.length ≤ frame.number at late
      omega
    have noByte : s.content = [] := by
      cases here : s.rb with
      | none => rw [content, here]
      | some rb =>
        have late := sound.bytes (by rw [← done]) rb (by rw [← done]; exact here)
        rw [← done] at late
        change (rtRingbufferDataLen rb).toNat ≤ s.storedRaw.length - s.storedRaw.length at late
        rw [Ringbuffer.dataLen_toNat (inv.raw.ring rb here), ← Ringbuffer.content_length] at late
        rw [content_some here]
        exact List.eq_nil_of_length_eq_zero (by omega)
    have length := inv.raw.length
    have seen := inv.raw.seen
    rw [noByte, List.length_nil] at length seen
    have handed : s.handed = s.stored := by
      rw [noFrame] at order
      simpa [AsyncPc.hand] using order
    rw [handed] at looked
    refine Prod.ext looked.symm ?_
    change s.seen.2 = s.storedRaw.length
    omega

end

end steps

theorem Inv.init (c : UlogConfig) (buf : UInt32) (blkSet : Nat → RbbBlk) (next : SNode → Option SNode)
    (frame : Nat → UlogFrame) : (init c buf blkSet next frame).Inv := by
  obtain ⟨rbb, free, same, lists, _, _⟩ :=
    Lists.init buf (UInt32.ofNat (Mem.Config.board.rtAlign c.bufSize)) blkSet next c.storeLines
  have isRbb : (UlogAsync.init c buf blkSet next frame).rbb = rbb := same.symm
  have noBlock : rbb.blocks = [] := lists.blocks_eq
  constructor
  · constructor
    · refine ⟨free, ?_⟩
      rw [isRbb, noBlock]
      exact lists
    · rw [waiting, isRbb, noBlock]
      rfl
    · exact fun _ _ bad => nomatch bad
    · exact fun _ bad => nomatch bad
    · exact fun _ _ _ bad => nomatch bad
    · exact fun _ _ _ _ _ bad => nomatch bad
    · exact fun _ bad => nomatch bad
    · exact fun bad => bad.elim
    · exact fun bad => nomatch bad
  · exact ⟨fun _ bad => (nomatch bad), rfl, Or.inl rfl, fun _ _ _ bad => (nomatch bad), fun bad => (nomatch bad)⟩

def Step (c : UlogConfig) (s : UlogAsync) (a : UlogAction) (s' : UlogAsync) : Prop := s.act c a = some s'

end UlogAsync

section demo

def AsyncPc.sleeps : AsyncPc → Bool
  | .blocked forever => forever
  | _ => false

end demo

end RtThread.Ulog
