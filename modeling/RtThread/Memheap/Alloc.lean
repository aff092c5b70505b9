import Mathlib.Data.List.Perm.Subperm
import RtThread.Memheap.Repr

/-! Allocation from a memheap: the first free block on the list that is large enough, as a whole or cut. -/

set_option autoImplicit false
namespace RtThread.Memheap
open Lib
open Mem (Block Coalesced Config coalesced_free coalesced_used)

variable {h h' : Heap} {blocks blocks' first rest : List Block} {free xs ys : List Nat}
  {c d p q n start size : Nat} {u v : Bool}

/-! ## Sizes -/

theorem requestSize_dvd (size : Nat) : 8 ∣ requestSize size := by
  have align : 8 ∣ Config.board.rtAlign size := Config.board.rtAlign_dvd size
  unfold requestSize
  split
  · decide
  · exact align

theorem requestSize_ge (size : Nat) : 16 ≤ requestSize size := by
  unfold requestSize
  split
  · decide
  · rename_i large
    rw [rtMemheapMinialloc_eq] at large
    omega

theorem requestSize_lt (size : Nat) : requestSize size < 2 ^ 32 := by
  have align : Config.board.rtAlign size < 2 ^ 32 := Config.board.rtAlign_lt size
  unfold requestSize
  split
  · decide
  · exact align

theorem requestSize_idem (size : Nat) : requestSize (requestSize size) = requestSize size := by
  have same : Config.board.rtAlign (requestSize size) = requestSize size :=
    Config.board.rtAlign_of_dvd (requestSize_dvd size) (requestSize_lt size)
  have ge := requestSize_ge size
  rw [requestSize, same, if_neg]
  rw [rtMemheapMinialloc_eq]
  omega

/-! ## The search -/

theorem Repr.entry (repr : Repr h blocks free) (inside : p ∈ free) :
    ∃ first c rest, blocks = first ++ ⟨c, false⟩ :: rest ∧ p = h.startAddr + span itemSpan first :=
  ((repr.listed p).mp inside).split

theorem Held.length_lt_fuel (held : Held h blocks free) : free.length + 2 ≤ h.loopFuel := by
  have nodup : free.Nodup := (List.nodup_cons.mp held.frees.nodup).2
  have fewer : free.length ≤ (h.places blocks).length := (nodup.subperm fun _ inside => held.within _ inside).length_le
  have count : (h.places blocks).length = blocks.length := by simp [Heap.places, starts_length]
  have below := length_le_span itemSpan itemSpan_pos blocks
  have size := held.size
  unfold Heap.loopFuel
  omega

theorem Repr.search_eq (repr : Repr h blocks free) {freeSize fuel : Nat} (list : free = xs ++ ys)
    (less : freeSize < size) (enough : ys.length + 2 ≤ fuel) :
    (∃ p c, p ∈ free ∧ (∃ first rest, blocks = first ++ ⟨c, false⟩ :: rest ∧
        p = h.startAddr + span itemSpan first) ∧ size ≤ c ∧
        search h size fuel (firstOr h.freeList ys) freeSize = some (p, c)) ∨
      ∃ freeSize', freeSize' < size ∧ (∀ q ∈ ys, h.memitemSize q < size) ∧
        search h size fuel (firstOr h.freeList ys) freeSize = some (h.freeList, freeSize') := by
  induction ys generalizing xs freeSize fuel with
  | nil =>
    obtain ⟨fuel, rfl⟩ : ∃ k, fuel = k + 1 := ⟨fuel - 1, by omega⟩
    right
    refine ⟨freeSize, less, by simp, ?_⟩
    simp [search, firstOr]
  | cons p ys ih =>
    obtain ⟨fuel, rfl⟩ : ∃ k, fuel = k + 2 := ⟨fuel - 2, by omega⟩
    have inside : p ∈ free := list ▸ by simp
    obtain ⟨first, c, rest, split, place⟩ := repr.entry inside
    have held : Held h (first ++ ⟨c, false⟩ :: rest) free := split ▸ repr.toHeld
    have own := held.memitemSize_eq place
    have apart := (repr.toGround.apart_list (repr.within p inside)).1
    have code : search h size (fuel + 2) (firstOr h.freeList (p :: ys)) freeSize =
        if c < size then search h size (fuel + 1) (h.get p .nextFree) c
        else search h size (fuel + 1) p c := by
      have head : firstOr h.freeList (p :: ys) = p := rfl
      rw [head, search, if_pos ⟨apart, less⟩, own]
    rw [code]
    by_cases small : c < size
    · have frees := repr.frees
      rw [list] at frees
      have next := frees.around.2.2.1
      rw [if_pos small, next]
      rw [List.length_cons] at enough
      refine (ih (by rw [list, List.append_cons]) small (by omega)).imp_right ?_
      rintro ⟨freeSize', less', others, ended⟩
      exact ⟨freeSize', less', List.forall_mem_cons.mpr ⟨own ▸ small, others⟩, ended⟩
    · left
      refine ⟨p, c, inside, ⟨first, rest, split, place⟩, by omega, ?_⟩
      rw [if_neg small, search, if_neg (fun more => small more.2)]

/-! ## Taking a block -/

theorem Ground.part_fresh (ground : Ground h (first ++ ⟨c, u⟩ :: ⟨d, v⟩ :: rest)) :
    h.startAddr + span itemSpan first + 24 + c ∉ h.places (first ++ ⟨c + 24 + d, u⟩ :: rest) := by
  have nodup := (List.nodup_cons.mp ground.nodup).2
  rw [places_parts] at nodup
  rw [places_whole]
  exact (List.nodup_cons.mp (List.perm_middle.nodup_iff.mp nodup)).1

theorem Held.takeFront (held : Held h (first ++ ⟨size + 24 + d, false⟩ :: rest) (xs ++ p :: ys))
    (place : p = h.startAddr + span itemSpan first) (new : n = p + 24 + size) (aligned : 8 ∣ size) :
    ∃ k, k = ((((h.splitBlock p n).removeFree p).set p .nextFree 0).set p .prevFree 0).insertFree n ∧
      SameObject h k ∧ Held k (first ++ ⟨size, false⟩ :: ⟨d, false⟩ :: rest) (n :: (xs ++ ys)) := by
  have cut : Held (h.splitBlock p n) (first ++ ⟨size, false⟩ :: ⟨d, false⟩ :: rest) (xs ++ p :: ys) :=
    held.splitBlock place new aligned
  have inside : p ∈ h.places (first ++ ⟨size, false⟩ :: ⟨d, false⟩ :: rest) := place ▸ places_mid h first _ _
  have part : n ∈ h.places (first ++ ⟨size, false⟩ :: ⟨d, false⟩ :: rest) := by
    rw [places_parts, ← place, ← new]
    simp
  have fresh : n ∉ xs ++ ys := by
    intro member
    have apart := (held.toGround.split aligned false).part_fresh
    rw [← place, ← new] at apart
    apply apart
    apply held.within n
    simp only [List.mem_append, List.mem_cons] at member ⊢
    tauto
  have out : p ∉ xs ++ ys := fun member => held.frees.once (List.mem_cons_of_mem _ member)
  have sameCut : SameObject h (h.splitBlock p n) := sameObject_splitBlock
  have sameRemoved : SameObject h ((h.splitBlock p n).removeFree p) := sameCut.trans sameObject_removeFree
  have removed := cut.removeFree
  generalize (h.splitBlock p n).removeFree p = k at sameRemoved removed ⊢
  have sameNext : SameObject h (k.set p .nextFree 0) := sameRemoved.trans (sameObject_set _ _ _ _)
  have next := removed.setFree (sameRemoved.place inside) out .nextFree (Or.inl rfl) 0
  have samePrev : SameObject h ((k.set p .nextFree 0).set p .prevFree 0) := sameNext.trans (sameObject_set _ _ _ _)
  have prev := next.setFree (sameNext.place inside) out .prevFree (Or.inr rfl) 0
  exact ⟨_, rfl, samePrev.trans sameObject_insertFree, prev.insertFree (samePrev.place part) fresh⟩

theorem Repr.allocTake_split (repr : Repr h (first ++ ⟨size + 24 + d, false⟩ :: rest) (xs ++ p :: ys))
    (place : p = h.startAddr + span itemSpan first) (aligned : 8 ∣ size) (room : 16 ≤ d) :
    Repr (allocTake h p (size + 24 + d) size).release (first ++ ⟨size, true⟩ :: ⟨d, false⟩ :: rest)
      ((p + 24 + size) :: (xs ++ ys)) ∧ SameRegion h (allocTake h p (size + 24 + d) size).release := by
  have bounds := repr.size
  have top := repr.top
  have word := repr.word
  have available := repr.available
  have fits := repr.toGround.freeSpace_le
  simp only [span_append, span_cons, itemSpan] at bounds
  simp only [freeSpace_append, freeSpace, Bool.false_eq_true, if_false] at available fits
  obtain ⟨k, made, same, taken⟩ := repr.toHeld.takeFront place rfl aligned
  have code : allocTake h p (size + 24 + d) size =
      (k.consume (h.availableSize - (size + 24))).set p .magic (magicOf true) := by
    have new : add32 (add32 p size) 24 = p + 24 + size := by
      simp only [add32]
      omega
    have less : sub32 (sub32 h.availableSize size) 24 = h.availableSize - (size + 24) := by
      simp only [sub32]
      omega
    have split : size + 24 + d ≥ add32 (add32 size 24) 16 := by
      simp only [add32]
      omega
    rw [made]
    simp only [allocTake, rtMemheapSize_eq, rtMemheapMinialloc_eq, if_pos split, insertFree_availableSize,
      set_availableSize, removeFree_availableSize, splitBlock_availableSize, new, less, magicOf_true]
  have left : h.availableSize - (size + 24) = freeSpace (first ++ ⟨size, true⟩ :: ⟨d, false⟩ :: rest) := by
    simp only [freeSpace_append, freeSpace, Bool.false_eq_true, if_false, if_true]
    omega
  rw [code]
  refine ⟨?_, ((same.region.trans (sameRegion_consume k _)).trans (sameObject_set _ _ _ _).region).trans
    (sameRegion_release _)⟩
  constructor
  · have spent : Held (k.consume (h.availableSize - (size + 24))) _ _ := taken.adjust _ _ _
    have marked := spent.setMagic (place.trans (by rw [← same.startAddr]; rfl)) true
    exact marked.adjust _ _ _
  · apply repr.toCounted.consume_release word _ left same (sameObject_set _ _ _ _)
    omega
  · intro q
    have region : ((k.consume (h.availableSize - (size + 24))).set p .magic (magicOf true)).release.startAddr =
        h.startAddr := same.startAddr
    rw [List.mem_cons, repr.others place q, region, at_mid, at_cons, ← place]
    have further : p + 24 + size + 24 + d = p + 24 + (size + 24 + d) := by omega
    rw [further]
    simp only [Bool.true_eq_false, and_false, and_true, false_or]
    tauto
  · obtain ⟨before, after, last, head⟩ := coalesced_free.mp repr.coalesced
    exact coalesced_used.mpr ⟨before, coalesced_free.mpr ⟨List.IsChain.nil, after, by simp, head⟩⟩

theorem Repr.allocTake_whole (repr : Repr h (first ++ ⟨c, false⟩ :: rest) (xs ++ p :: ys))
    (place : p = h.startAddr + span itemSpan first) (tight : c < size + 40) (fit : size ≤ c) :
    Repr (allocTake h p c size).release (first ++ ⟨c, true⟩ :: rest) (xs ++ ys) ∧
      SameRegion h (allocTake h p c size).release := by
  have bounds := repr.size
  have top := repr.top
  have word := repr.word
  have available := repr.available
  have fits := repr.toGround.freeSpace_le
  simp only [span_append, span_cons, itemSpan] at bounds
  simp only [freeSpace_append, freeSpace, Bool.false_eq_true, if_false] at available fits
  have inside : p ∈ h.places (first ++ ⟨c, false⟩ :: rest) := place ▸ places_mid h first _ _
  have out : p ∉ xs ++ ys := fun member => repr.frees.once (List.mem_cons_of_mem _ member)
  have code : allocTake h p c size =
      (((((h.consume (h.availableSize - c)).removeFree p).set p .nextFree 0).set p .prevFree 0).set p .magic
        (magicOf true)) := by
    have less : sub32 h.availableSize c = h.availableSize - c := by
      simp only [sub32]
      omega
    have whole : ¬c ≥ add32 (add32 size 24) 16 := by
      simp only [add32]
      omega
    simp only [allocTake, rtMemheapSize_eq, rtMemheapMinialloc_eq, if_neg whole, less, magicOf_true]
  have left : h.availableSize - c = freeSpace (first ++ ⟨c, true⟩ :: rest) := by
    simp only [freeSpace_append, freeSpace, if_true]
    omega
  have spent : Held (h.consume (h.availableSize - c)) (first ++ ⟨c, false⟩ :: rest) (xs ++ p :: ys) :=
    repr.toHeld.adjust _ _ _
  have removed := spent.removeFree
  have sameRemoved : SameObject (h.consume (h.availableSize - c))
      ((h.consume (h.availableSize - c)).removeFree p) := sameObject_removeFree
  rw [code]
  generalize (h.consume (h.availableSize - c)).removeFree p = k at removed sameRemoved ⊢
  have region : k.startAddr = h.startAddr := sameRemoved.startAddr
  have sameNext := sameRemoved.trans (sameObject_set k p .nextFree 0)
  have next := removed.setFree (sameRemoved.place inside) out .nextFree (Or.inl rfl) 0
  have samePrev := sameNext.trans (sameObject_set _ p .prevFree 0)
  have prev := next.setFree (sameNext.place inside) out .prevFree (Or.inr rfl) 0
  have marked := prev.setMagic (place.trans (by rw [← region]; rfl)) true
  have same := samePrev.trans (sameObject_set _ p .magic (magicOf true))
  generalize ((k.set p .nextFree 0).set p .prevFree 0).set p .magic (magicOf true) = k' at marked same ⊢
  refine ⟨?_, ((sameRegion_consume h _).trans same.region).trans (sameRegion_release k')⟩
  constructor
  · exact marked.adjust _ _ _
  · apply repr.toCounted.consume_release word _ left (.refl h) same
    rw [← left]
    omega
  · intro q
    have start : k'.release.startAddr = h.startAddr := same.startAddr
    rw [repr.others place q, start, at_mid, ← place]
    simp only [Bool.true_eq_false, and_false, false_or]
  · obtain ⟨before, after, -, -⟩ := coalesced_free.mp repr.coalesced
    exact coalesced_used.mpr ⟨before, after⟩

/-! ## A request -/

/-- What an allocation of `size` bytes makes of the blocks: a used block of at least that size more. -/
def Gains (start size : Nat) (blocks blocks' : List Block) : Option Nat → Prop
  | none => blocks' = blocks
  | some ptr => ∃ p c, ptr = p + 24 ∧ size ≤ c ∧ (p, ⟨c, true⟩) ∈ layout itemSpan start blocks' ∧
      ¬At true start blocks p ∧ ∀ q, At true start blocks' q ↔ At true start blocks q ∨ q = p

theorem gains_split (place : p = start + span itemSpan first) : Gains start size
    (first ++ ⟨size + 24 + d, false⟩ :: rest) (first ++ ⟨size, true⟩ :: ⟨d, false⟩ :: rest) (some (p + 24)) := by
  refine ⟨p, size, rfl, Nat.le_refl _, ?_, ?_, ?_⟩
  · rw [place]
    exact (mem_layout_iff itemSpan).mpr ⟨first, _, rfl, rfl⟩
  · rw [at_mid]
    rintro (low | ⟨-, free⟩ | high)
    · have below := low.below
      omega
    · cases free
    · have below := high.below
      omega
  · intro q
    have further : start + span itemSpan first + 24 + size + 24 + d =
        start + span itemSpan first + 24 + (size + 24 + d) := by omega
    rw [at_mid, at_mid, at_cons, further, place]
    simp only [Bool.false_eq_true, and_false, and_true, false_or]
    tauto

theorem gains_whole (place : p = start + span itemSpan first) (fit : size ≤ c) : Gains start size
    (first ++ ⟨c, false⟩ :: rest) (first ++ ⟨c, true⟩ :: rest) (some (p + 24)) := by
  refine ⟨p, c, rfl, fit, ?_, ?_, ?_⟩
  · rw [place]
    exact (mem_layout_iff itemSpan).mpr ⟨first, _, rfl, rfl⟩
  · rw [at_mid]
    rintro (low | ⟨-, free⟩ | high)
    · have below := low.below
      omega
    · cases free
    · have below := high.below
      omega
  · intro q
    rw [at_mid, at_mid, place]
    simp only [Bool.false_eq_true, and_false, and_true, false_or]
    tauto

theorem Repr.alloc (repr : Repr h blocks free) (size : Nat) : ∃ h' result blocks' free',
    rtMemheapAlloc h size = some (h', result) ∧ Repr h' blocks' free' ∧ SameRegion h h' ∧
      Gains h.startAddr (requestSize size) blocks blocks' result := by
  have aligned := requestSize_dvd size
  have least := requestSize_ge size
  rw [rtMemheapAlloc]
  generalize requestSize size = request at aligned least ⊢
  by_cases some : request < h.availableSize
  · have start : h.get h.freeList .nextFree = firstOr h.freeList free := repr.frees.meet_hub.1
    have list : free = [] ++ free := rfl
    simp only [if_pos some, start]
    rcases repr.search_eq list (by omega : 0 < request) repr.toHeld.length_lt_fuel with
      ⟨p, c, inside, ⟨first, rest, rfl, place⟩, fit, found⟩ | ⟨freeSize, small, -, ended⟩
    · obtain ⟨xs, ys, rfl⟩ := List.append_of_mem inside
      have bounds := repr.size
      have top := repr.top
      simp only [span_append, span_cons, itemSpan] at bounds
      have header : add32 p 24 = p + 24 := add32_eq (by omega)
      simp only [found, if_pos fit, rtMemheapSize_eq, header]
      by_cases room : request + 40 ≤ c
      · obtain ⟨d, rfl⟩ : ∃ d, c = request + 24 + d := ⟨c - (request + 24), by omega⟩
        obtain ⟨repr', region⟩ := repr.allocTake_split place aligned (by omega)
        exact ⟨_, _, _, _, rfl, repr', region, gains_split place⟩
      · obtain ⟨repr', region⟩ := repr.allocTake_whole place (by omega) fit
        exact ⟨_, _, _, _, rfl, repr', region, gains_whole place fit⟩
    · simp only [ended, if_neg (Nat.not_le.mpr small)]
      exact ⟨_, _, _, _, rfl, repr.release, sameRegion_release h, rfl⟩
  · simp only [if_neg some]
    exact ⟨_, _, _, _, rfl, repr, ⟨rfl, rfl, rfl, rfl⟩, rfl⟩

end RtThread.Memheap
