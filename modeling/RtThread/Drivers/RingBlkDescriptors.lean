import RtThread.Drivers.RingBlkAlloc
import RtThread.Lib.Throughout

/-! The descriptors of a ring block buffer: each on one of the two lists, as long as no allocation loses one. -/

set_option autoImplicit false
namespace RtThread.Drivers
open Lib

def Rbb.Conserved (rbb : Rbb) : Prop :=
  ∃ used free : List Nat, Segment rbb.next (rbb.next .blkList) (used.map .blk) none ∧
    Segment rbb.next (rbb.next .freeList) (free.map .blk) none ∧ (used ++ free).Nodup ∧
    (∀ i, i ∈ used ++ free ↔ i < rbb.blkMaxNum) ∧ (∀ i ∈ used, (rbb.blkSet i).status ≠ .unused) ∧
    ∀ i ∈ free, (rbb.blkSet i).status = .unused

def Rbb.HasRoom (rbb : Rbb) : RbbCall → Prop
  | .alloc blkSize => rbb.next .freeList = none ∨ rbb.next .blkList = none ∨
      ∃ head tail, rbb.next .blkList = some (.blk head) ∧ rbb.tail = .blk tail ∧
        (fits rbb (rbb.blkSet head) (rbb.blkSet tail) blkSize).isSome
  | _ => True

def RbbStep (rbb : Rbb) (call : RbbCall) (rbb' : Rbb) : Prop := rbb.Permits call ∧ rbbPerform rbb call = some rbb'

variable {rbb rbb' : Rbb} {used free : List Nat} {i : Nat} {blkSize : UInt32} {got : Option Nat}

structure Whole (rbb : Rbb) (used free : List Nat) : Prop extends Lists rbb used free where
  all : ∀ i < rbb.blkMaxNum, i ∈ used ∨ i ∈ free

def Rbb.IsWhole (rbb : Rbb) : Prop := ∃ used free, Whole rbb used free

theorem Whole.conserved (whole : Whole rbb used free) : rbb.Conserved := by
  refine ⟨used, free, whole.usedList.links, whole.freeList.links, ?_, fun i => ?_, fun i inside => ?_, fun i inside => ?_⟩
  · refine List.nodup_append.mpr ⟨nodup_used whole.usedList, nodup_used whole.freeList, ?_⟩
    intro i inside j member same
    exact whole.apart i inside (same ▸ member)
  · rw [List.mem_append]
    exact ⟨whole.below i, whole.all i⟩
  · exact (whole.status i (whole.below i (Or.inl inside))).mpr inside
  · by_contra busy
    exact whole.apart i ((whole.status i (whole.below i (Or.inr inside))).mp busy) inside

theorem Lists.all_of_conserved (lists : Lists rbb used free) (conserved : rbb.Conserved) :
    ∀ i < rbb.blkMaxNum, i ∈ used ∨ i ∈ free := by
  obtain ⟨used', free', usedList, freeList, -, every, -⟩ := conserved
  have injective : Function.Injective SNode.blk := fun _ _ same => by cases same; rfl
  have same := List.map_injective_iff.mpr injective (lists.usedList.links.unique usedList)
  have same' := List.map_injective_iff.mpr injective (lists.freeList.links.unique freeList)
  intro i below
  rw [same, same', ← List.mem_append]
  exact (every i).mpr below

theorem fits_congr (same : SameBuffer rbb rbb') (head tail : RbbBlk) :
    fits rbb' head tail blkSize = fits rbb head tail blkSize := by
  unfold fits
  rw [same.buf, same.bufSize]

theorem Lists.alloc_room (lists : Lists rbb used free) (room : rbb.HasRoom (.alloc blkSize))
    (done : rtRbbBlkAlloc rbb blkSize = some (rbb', got)) :
    (got = none → rbb' = rbb) ∧ ∃ used' free', Lists rbb' used' free' ∧ rbb'.blkMaxNum = rbb.blkMaxNum ∧
      ∀ j, j ∈ used ∨ j ∈ free → j ∈ used' ∨ j ∈ free' := by
  unfold rtRbbBlkAlloc at done
  split at done
  case isFalse => cases done
  case isTrue =>
    rcases lists.findEmpty with ⟨_, empty⟩ | ⟨i, rest, mid, rfl, found, midLists, same, blkSet, out, fresh, below⟩
    · rw [empty] at done
      cases done
      exact ⟨fun _ => rfl, used, free, lists, rfl, fun _ => id⟩
    · have below' : i < mid.blkMaxNum := by
        rw [same.blkMaxNum]
        exact below
      have new (buf : UInt32) : ∃ used' free', Lists (Drivers.place mid i buf blkSize) used' free' ∧
          (Drivers.place mid i buf blkSize).blkMaxNum = rbb.blkMaxNum ∧
            ∀ j, j ∈ used ∨ j ∈ i :: rest → j ∈ used' ∨ j ∈ free' := by
        obtain ⟨placed, same', -⟩ := midLists.place out fresh below' buf blkSize
        refine ⟨_, _, placed, same'.blkMaxNum.trans same.blkMaxNum, fun j old => ?_⟩
        simp only [List.mem_append, List.mem_cons, List.not_mem_nil, or_false] at old ⊢
        tauto
      have first : mid.next .blkList = rbb.next .blkList := by rw [midLists.usedList.first, lists.usedList.first]
      have last : mid.tail = rbb.tail := by rw [midLists.tail, lists.tail]
      rw [found] at done
      dsimp only at done
      rw [first, last] at done
      rcases room with none | empty | ⟨head, tail, isHead, isTail, fit⟩
      · rw [lists.freeList.first] at none
        cases none
      · rw [empty] at done
        cases done
        exact ⟨nofun, new _⟩
      · rw [isHead, isTail] at done
        dsimp only [SNode.entry] at done
        rw [fits_congr same, blkSet] at done
        obtain ⟨buf, isBuf⟩ := Option.isSome_iff_exists.mp fit
        rw [isBuf] at done
        cases done
        exact ⟨nofun, new _⟩

theorem Lists.lost (lists : Lists rbb used free) (tight : ¬rbb.HasRoom (.alloc blkSize))
    (done : rtRbbBlkAlloc rbb blkSize = some (rbb', got)) :
    got = none ∧ ∃ i rest, free = i :: rest ∧ Lists rbb' used rest ∧ SameBuffer rbb rbb' ∧ i ∉ used ∧ i ∉ rest := by
  unfold Rbb.HasRoom at tight
  push Not at tight
  obtain ⟨some, busy, unfit⟩ := tight
  unfold rtRbbBlkAlloc at done
  split at done
  case isFalse => cases done
  case isTrue =>
    rcases lists.findEmpty with ⟨rfl, _⟩ | ⟨i, rest, mid, rfl, found, midLists, same, blkSet, out, fresh, below⟩
    · exact absurd lists.freeList.first some
    · have first : mid.next .blkList = rbb.next .blkList := by rw [midLists.usedList.first, lists.usedList.first]
      have last : mid.tail = rbb.tail := by rw [midLists.tail, lists.tail]
      rw [found] at done
      dsimp only at done
      rw [first, last] at done
      split at done
      case h_1 empty => exact absurd empty busy
      case h_2 node isNode =>
        split at done
        case h_2 => cases done
        case h_1 head tail isHead isTail =>
          have head' : rbb.next .blkList = Option.some (.blk head) := by
            rw [isNode]
            cases node <;> cases isHead
            rfl
          have tail' : rbb.tail = .blk tail := by
            generalize rbb.tail = last at isTail
            cases last <;> cases isTail
            rfl
          have none := unfit head tail head' tail'
          rw [ne_eq, Bool.not_eq_true, Option.isSome_eq_false_iff, Option.isNone_iff_eq_none] at none
          rw [fits_congr same, blkSet, none] at done
          cases done
          exact ⟨rfl, i, rest, rfl, midLists, same, out, fresh⟩

theorem Lists.others (lists : Lists rbb used free) {call : RbbCall} (other : ∀ blkSize, call ≠ .alloc blkSize)
    (step : RbbStep rbb call rbb') :
    ∃ used' free', Lists rbb' used' free' ∧ rbb'.blkMaxNum = rbb.blkMaxNum ∧
      ∀ j, j ∈ used ∨ j ∈ free → j ∈ used' ∨ j ∈ free' := by
  obtain ⟨permits, done⟩ := step
  cases call with
  | alloc blkSize => exact absurd rfl (other blkSize)
  | put i =>
    obtain ⟨below, inited⟩ := permits
    rw [rbbPerform, rtRbbBlkPut, if_pos inited] at done
    cases done
    exact ⟨_, _, lists.setStatus ((lists.status i below).mp (by rw [inited]; decide)) (by decide), rfl, fun _ => id⟩
  | get =>
    have short := lists.length_used
    have found := findPut_eq lists.usedList.links rbb.loopFuel (Nat.le_succ_of_le short)
    rw [rbbPerform, rtRbbBlkGet, found] at done
    cases first : used.find? fun i => (rbb.blkSet i).status = .put with
    | none =>
      rw [first] at done
      cases done
      exact ⟨_, _, lists, rfl, fun _ => id⟩
    | some i =>
      rw [first] at done
      cases done
      exact ⟨_, _, lists.setStatus (List.mem_of_find?_eq_some first) (by decide), rfl, fun _ => id⟩
  | free i =>
    obtain ⟨below, busy⟩ := permits
    obtain ⟨xs, ys, cut⟩ := List.append_of_mem ((lists.status i below).mp busy)
    subst cut
    obtain ⟨next, code, lists', same, -⟩ := lists.release
    rw [rbbPerform, code] at done
    cases done
    refine ⟨_, _, lists', same.blkMaxNum, fun j old => ?_⟩
    simp only [List.mem_append, List.mem_cons] at old ⊢
    tauto

theorem Whole.step (whole : Whole rbb used free) {call : RbbCall} (room : rbb.HasRoom call) (step : RbbStep rbb call rbb') :
    ∃ used' free', Whole rbb' used' free' := by
  by_cases allocates : ∃ blkSize, call = .alloc blkSize
  · obtain ⟨blkSize, rfl⟩ := allocates
    obtain ⟨⟨next, got⟩, code, rfl⟩ := Option.map_eq_some_iff.mp step.2
    obtain ⟨-, used', free', lists, number, kept⟩ := whole.alloc_room room code
    refine ⟨_, _, lists, fun j less => kept j (whole.all j ?_)⟩
    rwa [number] at less
  · obtain ⟨used', free', lists, number, kept⟩ := whole.others (fun blkSize same => allocates ⟨blkSize, same⟩) step
    refine ⟨_, _, lists, fun j less => kept j (whole.all j ?_)⟩
    rwa [number] at less

theorem Lists.step (lists : Lists rbb used free) {call : RbbCall} (step : RbbStep rbb call rbb') :
    ∃ used' free', Lists rbb' used' free' := by
  by_cases allocates : ∃ blkSize, call = .alloc blkSize
  · obtain ⟨blkSize, rfl⟩ := allocates
    obtain ⟨⟨next, got⟩, code, rfl⟩ := Option.map_eq_some_iff.mp step.2
    rcases lists.alloc code with ⟨_, _, free', lists'⟩ | ⟨i, _, _, _, _, _, free', lists'⟩
    · exact ⟨_, _, lists'⟩
    · exact ⟨_, _, lists'⟩
  · obtain ⟨used', free', lists', -⟩ := lists.others (fun blkSize same => allocates ⟨blkSize, same⟩) step
    exact ⟨_, _, lists'⟩

theorem Whole.room_of_conserved (whole : Whole rbb used free) {call : RbbCall} (step : RbbStep rbb call rbb')
    (conserved : rbb'.Conserved) : rbb.HasRoom call := by
  by_contra tight
  cases call with
  | alloc blkSize =>
    obtain ⟨⟨next, got⟩, code, rfl⟩ := Option.map_eq_some_iff.mp step.2
    obtain ⟨_, i, rest, rfl, lists, same, out, fresh⟩ := whole.lost tight code
    have below := whole.below i (Or.inr List.mem_cons_self)
    rw [← same.blkMaxNum] at below
    exact (lists.all_of_conserved conserved i below).elim out fresh
  | put | get | free => exact tight trivial

theorem Lists.failed_iff (lists : Lists rbb used free) (failed : rtRbbBlkAlloc rbb blkSize = some (rbb', none)) :
    rbb' = rbb ↔ rbb.HasRoom (.alloc blkSize) := by
  constructor
  · intro same
    by_contra tight
    obtain ⟨_, i, rest, rfl, lists', _, out, fresh⟩ := lists.lost tight failed
    have one := lists.freeList.first
    have two := lists'.freeList.first
    rw [same, one] at two
    cases rest with
    | nil => cases two
    | cons j rest =>
      cases two
      exact fresh List.mem_cons_self
  · intro room
    exact (lists.alloc_room room failed).1 rfl

/-! ## Runs -/

theorem Whole.init (buf bufSize : UInt32) (blkSet : Nat → RbbBlk) (next : SNode → Option SNode) (blkMaxNum : Nat) :
    ∃ free, Whole (rtRbbInit buf bufSize blkSet next blkMaxNum) [] free := by
  obtain ⟨rbb, free, rfl, lists, -, -, number, all⟩ := Lists.init buf bufSize blkSet next blkMaxNum
  exact ⟨free, lists, fun i less => Or.inr (all i (number ▸ less))⟩

/-- All descriptors stay on the lists throughout a run just if each allocation in it has room or finds no descriptor,
and an allocation that fails changes nothing just if it does. -/
theorem rbb_conserved (buf bufSize : UInt32) (blkSet : Nat → RbbBlk) (next : SNode → Option SNode) (blkMaxNum : Nat)
    (calls : List RbbCall) :
    (Throughout RbbStep (rtRbbInit buf bufSize blkSet next blkMaxNum) calls Rbb.Conserved ↔
      EachStep RbbStep (rtRbbInit buf bufSize blkSet next blkMaxNum) calls Rbb.HasRoom) ∧
    ∀ rbb rbb' blkSize, Run RbbStep (rtRbbInit buf bufSize blkSet next blkMaxNum) calls rbb →
      rtRbbBlkAlloc rbb blkSize = some (rbb', none) → (rbb' = rbb ↔ rbb.HasRoom (.alloc blkSize)) := by
  obtain ⟨free, whole⟩ := Whole.init buf bufSize blkSet next blkMaxNum
  constructor
  · have start : (rtRbbInit buf bufSize blkSet next blkMaxNum).IsWhole := ⟨_, free, whole⟩
    refine throughout_iff_eachStep ?_ ?_ ?_ start
    · rintro rbb ⟨used, free, whole⟩
      exact whole.conserved
    · rintro rbb call rbb' ⟨used, free, whole⟩ room step
      exact whole.step room step
    · rintro rbb call rbb' ⟨used, free, whole⟩ step conserved
      exact whole.room_of_conserved step conserved
  · intro rbb rbb' blkSize run failed
    have reached : ∃ used free, Lists rbb used free := by
      refine Run.invariant (fun rbb => ∃ used free, Lists rbb used free) ?_ ⟨_, free, whole.toLists⟩ run
      rintro s call s' ⟨used, free, lists⟩ step
      exact lists.step step
    obtain ⟨used, free, lists⟩ := reached
    exact lists.failed_iff failed

def Rbb.permits (rbb : Rbb) : RbbCall → Bool
  | .alloc blkSize => decide (blkSize < 0x1000000)
  | .put i => decide (i < rbb.blkMaxNum) && decide ((rbb.blkSet i).status = .inited)
  | .get => true
  | .free i => decide (i < rbb.blkMaxNum) && decide ((rbb.blkSet i).status ≠ .unused)

def rbbTrace (rbb : Rbb) (call : RbbCall) : Option Rbb := if rbb.permits call then rbbPerform rbb call else none

theorem run_of_rbbTrace {calls : List RbbCall} (done : calls.foldlM rbbTrace rbb = some rbb') : Run RbbStep rbb calls rbb' := by
  refine (run_of_foldlM done).mono fun s call s' step => ?_
  unfold rbbTrace at step
  split at step
  case isFalse => cases step
  case isTrue permitted =>
    refine ⟨?_, step⟩
    cases call with
    | alloc blkSize | put i | free i => simpa [Rbb.Permits, Rbb.permits] using permitted
    | get => exact trivial

/-- A buffer of 100 bytes with two blocks -/
def pairRbb : Rbb := rtRbbInit 0x20000000 100 (fun _ => { status := .unused, size := 0, buf := 0 }) (fun _ => none) 2

/-- Of two descriptors the second is lost on an allocation that finds no space. -/
theorem rbb_descriptor_lost : ¬Throughout RbbStep pairRbb [.alloc 60, .alloc 60] Rbb.Conserved := by
  intro conserved
  have result : ([RbbCall.alloc 60, .alloc 60].foldlM rbbTrace pairRbb).map (fun rbb =>
      ([.blkList, .blk 1, .freeList].map rbb.next, rbb.blkMaxNum)) = some ([some (.blk 1), none, none], 2) := by
    decide +kernel
  obtain ⟨rbb, run, result⟩ := Option.map_eq_some_iff.mp result
  simp only [Prod.mk.injEq, List.map_cons, List.map_nil, List.cons.injEq, and_true] at result
  obtain ⟨⟨list, one, free⟩, number⟩ := result
  have steps := run_of_rbbTrace run
  obtain ⟨used, unused, usedList, freeList, -, every, -⟩ := conserved _ _ (List.prefix_refl _) steps
  have isUsed : Segment rbb.next (rbb.next .blkList) ([1].map .blk) none := ⟨list, one⟩
  have isFree : Segment rbb.next (rbb.next .freeList) (([] : List Nat).map .blk) none := free
  have injective : Function.Injective SNode.blk := fun _ _ same => by cases same; rfl
  have same := List.map_injective_iff.mpr injective (usedList.unique isUsed)
  have same' := List.map_injective_iff.mpr injective (freeList.unique isFree)
  have zero := (every 0).mpr (by rw [number]; decide)
  rw [same, same'] at zero
  exact absurd zero (by decide)

end RtThread.Drivers
