import Mathlib.Data.List.Perm.Subperm
import RtThread.Drivers.RingBlkBuf
import RtThread.Lib.Segment

/-! The two lists of a ring block buffer, as the blocks that are in use and those that are not. -/

set_option autoImplicit false
namespace RtThread.Drivers
open Lib
open List (length_cons mem_cons mem_append nodup_cons map_append map_cons)
open Function (update update_of_ne update_self)

/-- The blocks in use from the oldest to the newest, and the order of the free list. A block that is on neither
list is not used any more. -/
structure Lists (rbb : Rbb) (used free : List Nat) : Prop where
  usedList : Hung rbb.next .blkList (used.map .blk)
  freeList : Hung rbb.next .freeList (free.map .blk)
  apart : ∀ i ∈ used, i ∉ free
  below : ∀ i, i ∈ used ∨ i ∈ free → i < rbb.blkMaxNum
  tail : rbb.tail = lastNode .blkList (used.map .blk)
  status : ∀ i < rbb.blkMaxNum, (rbb.blkSet i).status ≠ .unused ↔ i ∈ used

structure SameBuffer (rbb rbb' : Rbb) : Prop where
  buf : rbb'.buf = rbb.buf
  bufSize : rbb'.bufSize = rbb.bufSize
  blkMaxNum : rbb'.blkMaxNum = rbb.blkMaxNum

variable {rbb rbb' : Rbb} {used free xs ys : List Nat} {i j : Nat} {head n : SNode} {before after : List SNode}

theorem SameBuffer.refl (rbb : Rbb) : SameBuffer rbb rbb := ⟨rfl, rfl, rfl⟩

theorem SameBuffer.trans {rbb'' : Rbb} (first : SameBuffer rbb rbb') (second : SameBuffer rbb' rbb'') :
    SameBuffer rbb rbb'' :=
  ⟨second.buf.trans first.buf, second.bufSize.trans first.bufSize, second.blkMaxNum.trans first.blkMaxNum⟩

theorem mem_map_blk : SNode.blk i ∈ used.map SNode.blk ↔ i ∈ used := by simp

theorem nodup_used (hung : Hung rbb.next head (used.map .blk)) : used.Nodup :=
  (nodup_cons.mp hung.nodup).2.of_map _

theorem walk_eq (hung : Hung rbb.next head (before ++ n :: after)) (fuel : Nat) (enough : before.length < fuel) :
    rbb.walk n fuel head = some (lastNode head before) := by
  induction before generalizing head fuel with
  | nil =>
    obtain ⟨fuel, rfl⟩ : ∃ k, fuel = k + 1 := ⟨fuel - 1, by omega⟩
    rw [Rbb.walk, hung.rest.1]
    exact if_pos rfl
  | cons m rest ih =>
    obtain ⟨fuel, rfl⟩ : ∃ k, fuel = k + 1 := ⟨fuel - 1, by omega⟩
    obtain ⟨link, tail⟩ := hung.rest
    have other : m ≠ n := by
      rintro rfl
      have once := (nodup_cons.mp tail.nodup).1
      exact once (List.mem_append_right _ List.mem_cons_self)
    rw [length_cons] at enough
    rw [Rbb.walk, link]
    simp only [if_neg other]
    exact ih tail fuel (by omega)

namespace Lists

theorem length_used (lists : Lists rbb used free) : used.length ≤ rbb.blkMaxNum := by
  have inside : used ⊆ List.range rbb.blkMaxNum := fun i member => List.mem_range.mpr (lists.below i (Or.inl member))
  have fewer := ((nodup_used lists.usedList).subperm inside).length_le
  rwa [List.length_range] at fewer

theorem fresh_used (out : i ∉ used) : SNode.blk i ∉ SNode.blkList :: used.map SNode.blk := by
  simp [out]

theorem fresh_free (out : i ∉ free) : SNode.blk i ∉ SNode.freeList :: free.map SNode.blk := by
  simp [out]

theorem setBlk (lists : Lists rbb used free) {block : RbbBlk} (inside : i ∈ used) (busy : block.status ≠ .unused) :
    Lists (rbb.setBlk i block) used free where
  usedList := lists.usedList
  freeList := lists.freeList
  apart := lists.apart
  below := lists.below
  tail := lists.tail
  status := by
    intro j less
    by_cases own : j = i
    · subst own
      simp [Rbb.setBlk, busy, inside]
    · have same : ((rbb.setBlk i block).blkSet j) = rbb.blkSet j := update_of_ne own _ _
      rw [same]
      exact lists.status j less

theorem findEmpty (lists : Lists rbb used free) :
    free = [] ∧ findEmptyBlkInSet rbb = some (rbb, none) ∨
      ∃ i rest rbb', free = i :: rest ∧ findEmptyBlkInSet rbb = some (rbb', some i) ∧ Lists rbb' used rest ∧
        SameBuffer rbb rbb' ∧ rbb'.blkSet = rbb.blkSet ∧ i ∉ used ∧ i ∉ rest ∧ i < rbb.blkMaxNum := by
  cases free with
  | nil =>
    left
    refine ⟨rfl, ?_⟩
    have none : rbb.next .freeList = none := lists.freeList.first
    rw [findEmptyBlkInSet, none]
  | cons i rest =>
    right
    have hung : Hung rbb.next .freeList ([] ++ .blk i :: rest.map .blk) := lists.freeList
    obtain ⟨link, rest'⟩ := hung.remove
    have once := (nodup_cons.mp (nodup_used lists.freeList)).1
    have out : i ∉ used := fun inside => lists.apart i inside List.mem_cons_self
    have below := lists.below i (Or.inr List.mem_cons_self)
    have found : rbb.walk (.blk i) rbb.loopFuel .freeList = some .freeList :=
      walk_eq hung _ (Nat.succ_pos _)
    have unused : (rbb.blkSet i).status = .unused := by
      by_contra busy
      exact out ((lists.status i below).mp busy)
    have link' : rbb.next .freeList = some (.blk i) := link
    refine ⟨i, rest, rbb.setNext .freeList (rbb.next (.blk i)), rfl, ?_, ?_, ⟨rfl, rfl, rfl⟩, rfl, out, once, below⟩
    · rw [findEmptyBlkInSet, link']
      simp only [SNode.entry, rtSlistRemove, found, Option.map_some, link']
      exact if_pos unused
    · constructor
      · apply lists.usedList.congr
        intro m inside
        have other : m ≠ .freeList := by
          rintro rfl
          simp at inside
        exact update_of_ne other _ _
      · exact rest'
      · exact fun j inside member => lists.apart j inside (List.mem_cons_of_mem _ member)
      · intro j member
        apply lists.below j
        rw [mem_cons]
        tauto
      · exact lists.tail
      · exact lists.status

theorem place (lists : Lists rbb used free) (out : i ∉ used) (fresh : i ∉ free) (below : i < rbb.blkMaxNum)
    (buf size : UInt32) : Lists (place rbb i buf size) (used ++ [i]) free ∧ SameBuffer rbb (place rbb i buf size) ∧
      (Drivers.place rbb i buf size).blkSet =
        update rbb.blkSet i { status := .inited, buf, size := field24 size } := by
  have appended := lists.usedList.append (fresh_used out)
  refine ⟨?_, ⟨rfl, rfl, rfl⟩, rfl⟩
  have next : (Drivers.place rbb i buf size).next = update (update rbb.next
      (lastNode .blkList (used.map .blk)) (some (.blk i))) (.blk i) none := by
    rw [← lists.tail]
    rfl
  constructor
  · rw [next]
    simpa using appended
  · rw [next]
    apply lists.freeList.congr
    intro m inside
    have notNew : m ≠ .blk i := by
      rintro rfl
      exact fresh_free fresh inside
    have notLast : m ≠ lastNode SNode.blkList (used.map SNode.blk) := by
      intro own
      have last := lastNode_mem SNode.blkList (used.map SNode.blk)
      rw [← own] at last
      rcases mem_cons.mp inside with rfl | inside
      · simp at last
      · obtain ⟨j, member, rfl⟩ := List.mem_map.mp inside
        rcases mem_cons.mp last with other | last
        · cases other
        · exact lists.apart j (mem_map_blk.mp last) member
    rw [update_of_ne notNew, update_of_ne notLast]
  · intro j inside
    rcases mem_append.mp inside with old | new
    · exact lists.apart j old
    · obtain rfl : j = i := by simpa using new
      exact fresh
  · intro j member
    rw [mem_append, List.mem_singleton] at member
    rcases member with (old | rfl) | old
    · exact lists.below j (Or.inl old)
    · exact below
    · exact lists.below j (Or.inr old)
  · rw [map_append, List.map_singleton, lastNode_concat]
    rfl
  · intro j less
    have read : (Drivers.place rbb i buf size).blkSet j =
        update rbb.blkSet i { status := .inited, buf, size := field24 size } j := rfl
    rw [read, mem_append, List.mem_singleton]
    by_cases own : j = i
    · subst own
      simp
    · rw [update_of_ne own]
      have old := lists.status j less
      simp only [own, or_false]
      exact old

theorem release (lists : Lists rbb (xs ++ i :: ys) free) : ∃ rbb', rtRbbBlkFree rbb i = some rbb' ∧
    Lists rbb' (xs ++ ys) (i :: free) ∧ SameBuffer rbb rbb' ∧
      rbb'.blkSet = update rbb.blkSet i { rbb.blkSet i with status := .unused } := by
  have inside : i ∈ xs ++ i :: ys := by simp
  have below := lists.below i (Or.inl inside)
  have busy := (lists.status i below).mpr inside
  have hung : Hung rbb.next .blkList (xs.map .blk ++ .blk i :: ys.map .blk) := by
    have whole := lists.usedList
    rwa [map_append, map_cons] at whole
  obtain ⟨link, removed⟩ := hung.remove
  have short := lists.length_used
  rw [List.length_append, length_cons] at short
  have found : rbb.walk (.blk i) rbb.loopFuel .blkList = some (lastNode .blkList (xs.map .blk)) := by
    apply walk_eq hung
    rw [List.length_map, Rbb.loopFuel]
    omega
  have last := lastNode_mem SNode.blkList (xs.map SNode.blk)
  have nodup := nodup_used lists.usedList
  obtain ⟨once, rest⟩ : i ∉ xs ++ ys ∧ (xs ++ ys).Nodup := by
    exact nodup_cons.mp (List.perm_middle.nodup_iff.mp nodup)
  -- the links behind `list_remove` and behind `rt_slist_insert`
  obtain ⟨cut, cutIs⟩ : ∃ cut, cut = update (update rbb.next
    (lastNode .blkList (xs.map .blk)) (rbb.next (.blk i))) (.blk i) none := ⟨_, rfl⟩
  obtain ⟨links, linksAre⟩ : ∃ links, links = update (update cut (.blk i)
    (cut .freeList)) .freeList (some (.blk i)) := ⟨_, rfl⟩
  have taken : ∃ rbb', listRemove rbb (.blk i) = some rbb' ∧ rbb'.next = cut ∧ SameBuffer rbb rbb' ∧
      rbb'.blkSet = rbb.blkSet ∧
        rbb'.tail = if rbb.tail = .blk i then lastNode .blkList (xs.map .blk) else rbb.tail := by
    rw [listRemove, found, cutIs]
    simp only [Option.map_some, link]
    by_cases newest : rbb.tail = .blk i
    · refine ⟨_, rfl, ?_⟩
      have same : ((rbb.setNext (lastNode .blkList (xs.map .blk)) (rbb.next (.blk i))).setNext (.blk i) none).tail =
          rbb.tail := rfl
      rw [same, if_pos newest, if_pos newest]
      exact ⟨rfl, ⟨rfl, rfl, rfl⟩, rfl, rfl⟩
    · refine ⟨_, rfl, ?_⟩
      have same : ((rbb.setNext (lastNode .blkList (xs.map .blk)) (rbb.next (.blk i))).setNext (.blk i) none).tail =
          rbb.tail := rfl
      rw [same, if_neg newest, if_neg newest]
      exact ⟨rfl, ⟨rfl, rfl, rfl⟩, rfl, rfl⟩
  obtain ⟨rbb₁, removedIs, next₁, same₁, blkSet₁, tail₁⟩ := taken
  have code : rtRbbBlkFree rbb i = some ((rbb₁.setStatus i .unused).slistInsert .freeList (.blk i)) := by
    rw [rtRbbBlkFree, if_pos busy, removedIs]
    rfl
  have next₂ : ((rbb₁.setStatus i .unused).slistInsert .freeList (.blk i)).next = links := by
    rw [linksAre, ← next₁]
    rfl
  have blkSet₂ : ((rbb₁.setStatus i .unused).slistInsert .freeList (.blk i)).blkSet =
      update rbb.blkSet i { rbb.blkSet i with status := .unused } := by
    rw [← blkSet₁]
    rfl
  have tail₂ : ((rbb₁.setStatus i .unused).slistInsert .freeList (.blk i)).tail = rbb₁.tail := rfl
  have same₂ : SameBuffer rbb ((rbb₁.setStatus i .unused).slistInsert .freeList (.blk i)) :=
    same₁.trans ⟨rfl, rfl, rfl⟩
  generalize (rbb₁.setStatus i .unused).slistInsert .freeList (.blk i) = rbb₂ at code next₂ blkSet₂ tail₂ same₂
  refine ⟨rbb₂, code, ?_, same₂, blkSet₂⟩
  constructor
  · rw [next₂, linksAre, cutIs, map_append]
    apply removed.congr
    intro m member
    have notFree : m ≠ .freeList := by
      rintro rfl
      simp at member
    have notNew : m ≠ .blk i := by
      rintro rfl
      rw [← map_append] at member
      exact fresh_used once member
    rw [update_of_ne notFree, update_of_ne notNew, update_of_ne notNew]
  · have fresh : i ∉ free := lists.apart i inside
    have still : Hung cut .freeList (free.map .blk) := by
      rw [cutIs]
      apply lists.freeList.congr
      intro m member
      have notNew : m ≠ .blk i := by
        rintro rfl
        exact fresh_free fresh member
      have notLast : m ≠ lastNode SNode.blkList (xs.map SNode.blk) := by
        intro own
        rw [← own] at last
        rcases mem_cons.mp member with rfl | member
        · simp at last
        · obtain ⟨j, held, rfl⟩ := List.mem_map.mp member
          rcases mem_cons.mp last with other | last
          · cases other
          · exact lists.apart j (List.mem_append_left _ (mem_map_blk.mp last)) held
      rw [update_of_ne notNew, update_of_ne notLast]
    rw [next₂, linksAre]
    exact still.push (fresh_free fresh)
  · intro j member
    rw [mem_cons, not_or]
    refine ⟨fun own => once (own ▸ member), lists.apart j ?_⟩
    simp only [mem_append, mem_cons] at member ⊢
    tauto
  · intro j member
    rw [same₂.blkMaxNum]
    simp only [mem_append, mem_cons] at member
    rcases member with (old | old) | rfl | old
    · exact lists.below j (Or.inl (by simp [old]))
    · exact lists.below j (Or.inl (by simp [old]))
    · exact below
    · exact lists.below j (Or.inr old)
  · rw [tail₂, tail₁, lists.tail, map_append, map_append, lastNode_append, lastNode_append, map_cons]
    cases ys with
    | nil => exact if_pos rfl
    | cons j ys =>
      apply if_neg
      intro own
      have member := lastNode_mem (SNode.blk j) (ys.map SNode.blk)
      have same : lastNode (.blk j) (ys.map .blk) = SNode.blk i := own
      rw [same, ← map_cons, mem_map_blk] at member
      exact once (List.mem_append_right _ member)
  · intro j less
    rw [same₂.blkMaxNum] at less
    rw [blkSet₂]
    by_cases own : j = i
    · subst own
      simp only [update_self, ne_eq, not_true_eq_false, false_iff]
      exact once
    · rw [update_of_ne own]
      have old := lists.status j less
      simp only [mem_append, mem_cons, own, false_or] at old ⊢
      exact old

end Lists

/-! ## The fresh buffer -/

/-- Blocks below `count` are initialised, and `free` are on the free list. -/
structure Fresh (rbb : Rbb) (count : Nat) (free : List Nat) : Prop where
  usedList : Hung rbb.next .blkList []
  freeList : Hung rbb.next .freeList (free.map .blk)
  whole : ∀ i, i ∈ free ↔ i < count
  tail : rbb.tail = .blkList
  status : ∀ i < count, (rbb.blkSet i).status = .unused

theorem Fresh.initBlocks (fresh : Fresh rbb i free) (count : Nat) :
    (∃ free', Fresh (initBlocks rbb count i) (i + count) free') ∧ SameBuffer rbb (initBlocks rbb count i) := by
  induction count generalizing rbb i free with
  | zero => exact ⟨⟨free, fresh⟩, SameBuffer.refl rbb⟩
  | succ count ih =>
    obtain ⟨rbb', made⟩ : ∃ rbb', rbb' =
      ((rbb.setStatus i .unused).setNext (.blk i) none).slistInsert .freeList (.blk i) := ⟨_, rfl⟩
    have next : Fresh rbb' (i + 1) (i :: free) := by
      have out : i ∉ free := fun inside => Nat.lt_irrefl i ((fresh.whole i).mp inside)
      have still : Hung (update rbb.next (.blk i) none) .freeList (free.map .blk) := by
        apply fresh.freeList.congr
        intro m member
        have other : m ≠ .blk i := by
          rintro rfl
          exact Lists.fresh_free out member
        exact update_of_ne other _ _
      subst made
      constructor
      · refine ⟨?_, by simp⟩
        have none : rbb.next .blkList = none := fresh.usedList.links
        exact none
      · exact still.push (Lists.fresh_free out)
      · intro j
        rw [mem_cons, fresh.whole]
        omega
      · exact fresh.tail
      · intro j less
        have read : ∀ j, (((rbb.setStatus i .unused).setNext (.blk i) none).slistInsert .freeList (.blk i)).blkSet j =
          update rbb.blkSet i { rbb.blkSet i with status := .unused } j := fun _ => rfl
        rw [read]
        by_cases own : j = i
        · subst own
          simp
        · rw [update_of_ne own]
          exact fresh.status j (by omega)
    obtain ⟨⟨free', done⟩, same⟩ := ih next
    have code : Drivers.initBlocks rbb (count + 1) i = Drivers.initBlocks rbb' count (i + 1) := by
      rw [made]
      rfl
    rw [code]
    refine ⟨⟨free', ?_⟩, SameBuffer.trans ?_ same⟩
    · rwa [Nat.add_right_comm] at done
    · rw [made]
      exact ⟨rfl, rfl, rfl⟩

theorem Lists.init (buf bufSize : UInt32) (blkSet : Nat → RbbBlk) (next : SNode → Option SNode) (blkMaxNum : Nat) :
    ∃ rbb free, rbb = rtRbbInit buf bufSize blkSet next blkMaxNum ∧ Lists rbb [] free ∧ rbb.buf = buf ∧
      rbb.bufSize = bufSize ∧ rbb.blkMaxNum = blkMaxNum ∧ ∀ i < blkMaxNum, i ∈ free := by
  obtain ⟨rbb₀, made⟩ : ∃ rbb₀ : Rbb, rbb₀ = Rbb.setNext (Rbb.setNext
    { buf, bufSize, blkMaxNum, blkSet, next, tail := .blkList } .blkList none) .freeList none := ⟨_, rfl⟩
  have empty : Fresh rbb₀ 0 [] := by
    subst made
    refine ⟨⟨?_, by simp⟩, ⟨?_, by simp⟩, by simp, rfl, by simp⟩
    · simp [Rbb.setNext, Segment]
    · simp [Rbb.setNext, Segment]
  obtain ⟨⟨free, fresh⟩, same⟩ := empty.initBlocks blkMaxNum
  have number : rbb₀.blkMaxNum = blkMaxNum := by rw [made]; rfl
  have code : rtRbbInit buf bufSize blkSet next blkMaxNum = initBlocks rbb₀ blkMaxNum 0 := by rw [made]; rfl
  rw [Nat.zero_add] at fresh
  refine ⟨_, free, code.symm, ?_, ?_, ?_, same.blkMaxNum.trans number, fun i less => (fresh.whole i).mpr less⟩
  · constructor
    · exact fresh.usedList
    · exact fresh.freeList
    · simp
    · intro i member
      rw [same.blkMaxNum, number]
      exact (fresh.whole i).mp (member.resolve_left (by simp))
    · exact fresh.tail
    · intro i less
      rw [same.blkMaxNum, number] at less
      simp [fresh.status i less]
  · rw [same.buf, made]
    rfl
  · rw [same.bufSize, made]
    rfl

/-! ## Reading the list -/

theorem findPut_returns {start : Option SNode} (links : Segment rbb.next start (used.map .blk) none) (fuel : Nat)
    (enough : used.length ≤ fuel) :
    ∃ found, findPut rbb fuel start = some found ∧ ∀ i ∈ found, i ∈ used := by
  induction used generalizing start fuel with
  | nil =>
    have empty : start = none := links
    refine ⟨none, ?_, by simp⟩
    rw [empty]
    cases fuel <;> rfl
  | cons j rest ih =>
    obtain ⟨rfl, after⟩ := links
    obtain ⟨fuel, rfl⟩ : ∃ k, fuel = k + 1 := ⟨fuel - 1, by simp at enough; omega⟩
    rw [length_cons] at enough
    rw [findPut]
    simp only [SNode.entry]
    by_cases put : (rbb.blkSet j).status = .put
    · rw [if_pos put]
      exact ⟨some j, rfl, by simp⟩
    · rw [if_neg put]
      obtain ⟨found, code, member⟩ := ih after fuel (by omega)
      exact ⟨found, code, fun i inside => List.mem_cons_of_mem j (member i inside)⟩

def Rbb.blocksFrom (rbb : Rbb) (start : Option SNode) : List Nat :=
  (follow rbb.next start rbb.loopFuel).filterMap SNode.entry

/-- The blocks of `blk_list` -/
def Rbb.blocks (rbb : Rbb) : List Nat := rbb.blocksFrom (rbb.next .blkList)

/-- The blocks behind `i` in `blk_list` -/
def Rbb.behind (rbb : Rbb) (i : Nat) : List Nat := rbb.blocksFrom (rbb.next (.blk i))

theorem blocksFrom_eq {start : Option SNode} (links : Segment rbb.next start (used.map .blk) none)
    (enough : used.length ≤ rbb.blkMaxNum) : rbb.blocksFrom start = used := by
  have fuel : (used.map SNode.blk).length ≤ rbb.loopFuel := by
    rw [List.length_map, Rbb.loopFuel]
    omega
  rw [Rbb.blocksFrom, links.follow _ fuel, List.filterMap_map]
  exact List.filterMap_some

theorem Lists.setStatus (lists : Lists rbb used free) (inside : i ∈ used) {status : RbbStatus} (busy : status ≠ .unused) :
    Lists (rbb.setStatus i status) used free := lists.setBlk inside busy

theorem Lists.blocks_eq (lists : Lists rbb used free) : rbb.blocks = used :=
  blocksFrom_eq lists.usedList.links lists.length_used

theorem Lists.behind_eq (lists : Lists rbb (xs ++ i :: ys) free) : rbb.behind i = ys := by
  have short := lists.length_used
  rw [List.length_append, length_cons] at short
  have links := lists.usedList.links
  rw [map_append, map_cons] at links
  obtain ⟨mid, _, _, after⟩ := links.split
  exact blocksFrom_eq after (by omega)

theorem findPut_eq {start : Option SNode} (links : Segment rbb.next start (used.map .blk) none) (fuel : Nat)
    (enough : used.length ≤ fuel) :
    findPut rbb fuel start = some (used.find? fun i => (rbb.blkSet i).status = .put) := by
  induction used generalizing start fuel with
  | nil =>
    have empty : start = none := links
    rw [empty]
    cases fuel <;> rfl
  | cons j rest ih =>
    obtain ⟨rfl, after⟩ := links
    obtain ⟨fuel, rfl⟩ : ∃ k, fuel = k + 1 := ⟨fuel - 1, by simp at enough; omega⟩
    rw [length_cons] at enough
    rw [findPut]
    simp only [SNode.entry]
    by_cases put : (rbb.blkSet j).status = .put
    · rw [if_pos put, List.find?_cons_of_pos (by simpa using put)]
    · rw [if_neg put, List.find?_cons_of_neg (by simpa using put)]
      exact ih after fuel (by omega)

/-- What an allocation does to the lists: nothing, but for a free block that may be lost, or one more block in use. -/
theorem Lists.alloc {blkSize : UInt32} {got : Option Nat} (lists : Lists rbb used free)
    (done : rtRbbBlkAlloc rbb blkSize = some (rbb', got)) :
    got = none ∧ rbb'.blkSet = rbb.blkSet ∧ (∃ free', Lists rbb' used free') ∨
      ∃ i block, got = some i ∧ i ∉ used ∧ block.status = .inited ∧ rbb'.blkSet = update rbb.blkSet i block ∧
        ∃ free', Lists rbb' (used ++ [i]) free' := by
  unfold rtRbbBlkAlloc at done
  split at done
  case isFalse => cases done
  case isTrue =>
    rcases lists.findEmpty with ⟨_, empty⟩ | ⟨i, rest, mid, _, found, midLists, same, blkSet, out, fresh, below⟩
    · rw [empty] at done
      cases done
      exact Or.inl ⟨rfl, rfl, free, lists⟩
    · have below' : i < mid.blkMaxNum := by
        rw [same.blkMaxNum]
        exact below
      have placed (buf : UInt32) := midLists.place out fresh below' buf blkSize
      have new (buf : UInt32) : ∃ free', Lists (Drivers.place mid i buf blkSize) (used ++ [i]) free' := ⟨_, (placed buf).1⟩
      rw [found] at done
      dsimp only at done
      split at done
      case h_1 =>
        cases done
        exact Or.inr ⟨i, _, rfl, out, rfl, by rw [(placed mid.buf).2.2, blkSet], new _⟩
      case h_2 =>
        split at done
        case h_2 => cases done
        case h_1 =>
          split at done
          case h_1 buf _ =>
            cases done
            exact Or.inr ⟨i, _, rfl, out, rfl, by rw [(placed buf).2.2, blkSet], new _⟩
          case h_2 =>
            cases done
            exact Or.inl ⟨rfl, blkSet, _, midLists⟩

end RtThread.Drivers
