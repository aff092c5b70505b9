import RtThread.Mem.SmallMemBlocks

/-! What `mem.c` does to the list of blocks: mark, split, combine, and the
two loops of an allocation. -/

set_option autoImplicit false

namespace RtThread.Mem

open RtThread.Lib
open Function (update_of_ne update_self)

variable (cfg : Config)

/-- A free block of `capacity` takes over a free block that follows it. -/
def mergeNext (capacity : Nat) : List Block → Nat × List Block
  | ⟨other, false⟩ :: rest => (capacity + cfg.sizeofStructMem + other, rest)
  | rest => (capacity, rest)

/-- A free block of `capacity` is taken over by a free block before it. -/
def mergePrev (first : List Block) (capacity : Nat) (rest : List Block) : List Block :=
  match first.getLast? with
  | some ⟨other, false⟩ => first.dropLast ++ ⟨other + cfg.sizeofStructMem + capacity, false⟩ :: rest
  | _ => first ++ ⟨capacity, false⟩ :: rest

/-- The block list once the block between `first` and `rest` is free and its holes are plugged. -/
def release (first : List Block) (capacity : Nat) (rest : List Block) : List Block :=
  mergePrev cfg first (mergeNext cfg capacity rest).1 (mergeNext cfg capacity rest).2

/-- The heap holds exactly `blocks`, coalesced, and `lfree` is their first free one. -/
structure Repr (h : SmallMem) (blocks : List Block) : Prop extends Listed cfg h blocks where
  coalesced : Coalesced blocks
  lfree_eq : h.lfree = firstFree cfg 0 blocks

structure SameObject (h h' : SmallMem) : Prop where
  heapPtr : h'.heapPtr = h.heapPtr
  heapEnd : h'.heapEnd = h.heapEnd
  memSizeAligned : h'.memSizeAligned = h.memSizeAligned

theorem SameObject.refl (h : SmallMem) : SameObject h h := ⟨rfl, rfl, rfl⟩

theorem SameObject.trans {h₁ h₂ h₃ : SmallMem} (first : SameObject h₁ h₂) (rest : SameObject h₂ h₃) :
    SameObject h₁ h₃ :=
  ⟨rest.heapPtr.trans first.heapPtr, rest.heapEnd.trans first.heapEnd,
    rest.memSizeAligned.trans first.memSizeAligned⟩

theorem Listed.of_same {h h' : SmallMem} {blocks : List Block} (listed : Listed cfg h blocks)
    (item : h'.item = h.item) (same : SameObject h h') : Listed cfg h' blocks where
  linked := by rw [item]; exact listed.linked
  total := by rw [same.heapEnd]; exact listed.total
  end_eq := by rw [same.heapEnd, same.memSizeAligned]; exact listed.end_eq
  end_pool := by rw [item, same.heapEnd]; exact listed.end_pool
  end_used := by rw [item, same.heapEnd]; exact listed.end_used
  aligned := listed.aligned

/-! ## Marking, splitting, combining -/

theorem Listed.span_lt {h : SmallMem} {first rest : List Block} {b : Block}
    (listed : Listed cfg h (first ++ b :: rest)) : span (blockSize cfg) first < h.heapEnd := by
  have total := listed.total
  have positive := blockSize_pos cfg b
  simp only [span_append, span_cons] at total
  omega

theorem Listed.mark {h : SmallMem} {first rest : List Block} {capacity : Nat} {used : Bool}
    (listed : Listed cfg h (first ++ ⟨capacity, used⟩ :: rest)) (value : Bool) :
    Listed cfg
      (h.setItem cfg (span (blockSize cfg) first)
        ((h.item (span (blockSize cfg) first)).withPool true value))
      (first ++ ⟨capacity, value⟩ :: rest) where
  linked := by
    obtain ⟨before, here, after⟩ := (linked_append cfg).mp listed.linked
    rw [Nat.zero_add] at here after
    have positive := blockSize_pos cfg ⟨capacity, used⟩
    refine (linked_append cfg).mpr ⟨before.update cfg _ _ (.inr (by omega)), ?_, ?_⟩
    · simp [here, blockSize, SmallMemItem.withPool]
    · rw [Nat.zero_add]
      exact after.update cfg _ _ (.inl (by omega))
  total := by simpa [blockSize, SmallMem.setItem] using listed.total
  end_eq := listed.end_eq
  end_pool := by
    have below := listed.span_lt
    show (Function.update h.item _ _ h.heapEnd).pool = true
    rw [update_of_ne (by omega)]
    exact listed.end_pool
  end_used := by
    have below := listed.span_lt
    show (Function.update h.item _ _ h.heapEnd).used = true
    rw [update_of_ne (by omega)]
    exact listed.end_used
  aligned := by
    intro b member
    rcases List.mem_append.mp member with member | member
    · exact listed.aligned b (by simp [member])
    · rcases List.mem_cons.mp member with rfl | member
      · exact listed.aligned ⟨capacity, used⟩ (by simp)
      · exact listed.aligned b (by simp [member])

theorem Linked.split {item : Nat → SmallMemItem} {first rest : List Block} {capacity size : Nat}
    {used : Bool} (linked : Linked cfg item 0 0 (first ++ ⟨capacity, used⟩ :: rest))
    (fits : size + cfg.sizeofStructMem ≤ capacity) {ptr ptr2 next : Nat}
    (hptr : ptr = span (blockSize cfg) first) (hptr2 : ptr2 = ptr + cfg.sizeofStructMem + size)
    (hnext : next = ptr + (cfg.sizeofStructMem + capacity)) :
    let item' := Function.update (Function.update item ptr2 ⟨true, false, next, ptr⟩) ptr
      ((item ptr).withNext ptr2)
    Linked cfg item' 0 0 (first ++ [⟨size, used⟩, ⟨capacity - size - cfg.sizeofStructMem, false⟩]) ∧
      Linked cfg item' ptr next rest := by
  intro item'
  have structPos := cfg.sizeofStructMem_pos
  obtain ⟨before, here, after⟩ := (linked_append cfg).mp linked
  rw [Nat.zero_add, ← hptr] at here after
  have nextEq : ptr + blockSize cfg ⟨capacity, used⟩ = next := by simp [blockSize, hnext]
  rw [nextEq] at after
  constructor
  · refine (linked_append cfg).mpr ⟨?_, ?_⟩
    · exact (before.update cfg _ _ (.inr (by omega))).update cfg _ _ (.inr (by omega))
    · rw [Nat.zero_add, ← hptr]
      refine ⟨?_, ?_, trivial⟩
      · simp [item', here, blockSize, hptr2, Nat.add_assoc, SmallMemItem.withNext]
      · have place : ptr + blockSize cfg ⟨size, used⟩ = ptr2 := by simp only [blockSize]; omega
        have finish : ptr2 + blockSize cfg ⟨capacity - size - cfg.sizeofStructMem, false⟩ = next := by
          simp only [blockSize]; omega
        rw [place, finish]
        simp [item', update_of_ne (by omega : ptr2 ≠ ptr)]
  · exact (after.update cfg _ _ (.inl (by omega))).update cfg _ _ (.inl (by omega))

theorem span_eq_zero {blocks : List Block} (zero : span (blockSize cfg) blocks = 0) : blocks = [] :=
  List.length_eq_zero_iff.mp (Nat.le_zero.mp (zero ▸ length_le_span (blockSize cfg) (blockSize_pos cfg) blocks))

theorem splitBlock_item (h : SmallMem) (ptr size : Nat) :
    let ptr2 := ptr + cfg.sizeofStructMem + size
    let next := (h.item ptr).next
    let base := Function.update (Function.update h.item ptr2 ⟨true, false, next, ptr⟩) ptr
      ((h.item ptr).withNext ptr2)
    (splitBlock cfg h ptr size).item =
      if next ≠ h.memSizeAligned + cfg.sizeofStructMem then
        Function.update base next ((base next).withPrev ptr2) else base := by
  intro ptr2 next base
  have structPos := cfg.sizeofStructMem_pos
  have same : Function.update h.item ptr2 ⟨true, false, next, ptr⟩ ptr = h.item ptr :=
    update_of_ne (by omega) _ _
  have two : ((h.setItem cfg ptr2 ⟨true, false, next, ptr⟩).setNext cfg ptr ptr2).item = base := by
    simp only [SmallMem.setNext_item, SmallMem.setItem_item, same, base]
  change (if next ≠ h.memSizeAligned + cfg.sizeofStructMem then
      (((h.setItem cfg ptr2 ⟨true, false, next, ptr⟩).setNext cfg ptr ptr2).setPrev cfg next ptr2)
    else (h.setItem cfg ptr2 ⟨true, false, next, ptr⟩).setNext cfg ptr ptr2).item = _
  rw [apply_ite SmallMem.item, SmallMem.setPrev_item, two]

theorem splitBlock_fields (h : SmallMem) (ptr size : Nat) :
    SameObject h (splitBlock cfg h ptr size) ∧ (splitBlock cfg h ptr size).lfree = h.lfree ∧
      (splitBlock cfg h ptr size).used = h.used ∧ (splitBlock cfg h ptr size).max = h.max := by
  unfold splitBlock
  dsimp only
  split <;> exact ⟨⟨rfl, rfl, rfl⟩, rfl, rfl, rfl⟩

theorem Listed.split {h : SmallMem} {first rest : List Block} {capacity size : Nat} {used : Bool}
    (listed : Listed cfg h (first ++ ⟨capacity, used⟩ :: rest))
    (fits : size + cfg.sizeofStructMem ≤ capacity) (aligned : cfg.alignSize ∣ size) :
    Listed cfg (splitBlock cfg h (span (blockSize cfg) first) size)
      (first ++ ⟨size, used⟩ :: ⟨capacity - size - cfg.sizeofStructMem, false⟩ :: rest) := by
  have total := listed.total
  have endEq := listed.end_eq
  simp only [span_append, span_cons, blockSize] at total
  obtain ⟨left, right⟩ := listed.linked.split cfg fits rfl rfl rfl
  have itemNext : (h.item (span (blockSize cfg) first)).next =
      span (blockSize cfg) first + (cfg.sizeofStructMem + capacity) := by rw [listed.item_at]; rfl
  have itemEq := splitBlock_item cfg h (span (blockSize cfg) first) size
  obtain ⟨same, -⟩ := splitBlock_fields cfg h (span (blockSize cfg) first) size
  dsimp only at itemEq
  rw [itemNext, ← endEq] at itemEq
  have halves : first ++ ⟨size, used⟩ :: ⟨capacity - size - cfg.sizeofStructMem, false⟩ :: rest =
      (first ++ [⟨size, used⟩, ⟨capacity - size - cfg.sizeofStructMem, false⟩]) ++ rest := by simp
  have halvesSpan :
      span (blockSize cfg) (first ++ [⟨size, used⟩, ⟨capacity - size - cfg.sizeofStructMem, false⟩]) =
        span (blockSize cfg) first + (cfg.sizeofStructMem + capacity) := by
    simp only [span_append, span_cons, span_nil, blockSize]; omega
  have halvesLast :
      lastOffset cfg 0 0 (first ++ [⟨size, used⟩, ⟨capacity - size - cfg.sizeofStructMem, false⟩]) =
        span (blockSize cfg) first + cfg.sizeofStructMem + size := by
    rw [List.append_cons, lastOffset_concat]
    simp only [span_append, span_cons, span_nil, blockSize]; omega
  have alignedAll : ∀ b ∈ first ++ ⟨size, used⟩ :: ⟨capacity - size - cfg.sizeofStructMem, false⟩ :: rest,
      cfg.alignSize ∣ b.capacity := by
    have whole := listed.aligned ⟨capacity, used⟩ (by simp)
    intro b member
    simp only [List.mem_append, List.mem_cons] at member
    rcases member with member | rfl | rfl | member
    · exact listed.aligned b (by simp [member])
    · exact aligned
    · exact Nat.dvd_sub (Nat.dvd_sub whole aligned) cfg.sizeofStructMem_dvd
    · exact listed.aligned b (by simp [member])
  have structPos := cfg.sizeofStructMem_pos
  have endItem : (splitBlock cfg h (span (blockSize cfg) first) size).item h.heapEnd = h.item h.heapEnd := by
    rw [itemEq]
    split
    · rw [update_of_ne (by omega), update_of_ne (by omega), update_of_ne (by omega)]
    · rw [update_of_ne (by omega), update_of_ne (by omega)]
  refine ⟨?_, ?_, ?_, ?_, ?_, alignedAll⟩
  · rw [halves, linked_append, Nat.zero_add, halvesSpan, halvesLast, itemEq]
    by_cases inner : span (blockSize cfg) first + (cfg.sizeofStructMem + capacity) ≠ h.heapEnd
    · rw [if_pos inner]
      exact ⟨left.update cfg _ _ (.inr (by omega)), right.update_prev cfg _⟩
    · rw [if_neg inner]
      have none : rest = [] := span_eq_zero cfg (by omega)
      exact ⟨left, none ▸ trivial⟩
  · rw [same.heapEnd, halves, span_append, halvesSpan, ← total]; omega
  · rw [same.heapEnd, same.memSizeAligned]; exact endEq
  · rw [same.heapEnd, endItem]; exact listed.end_pool
  · rw [same.heapEnd, endItem]; exact listed.end_used

theorem combine_item (h : SmallMem) (low high : Nat) (apart : low ≠ high) :
    (combine cfg h low high).item =
      let next := (h.item high).next
      let base := Function.update (Function.update h.item high ((h.item high).withPool false false)) low
        ((h.item low).withNext next)
      Function.update base next ((base next).withPrev low) := by
  unfold combine SmallMem.clearPool
  simp only [SmallMem.setPrev_item, SmallMem.setNext_item, SmallMem.setItem_item, update_self,
    update_of_ne apart, SmallMemItem.withPool]

theorem Listed.combined {h : SmallMem} {first rest : List Block} {c₁ c₂ : Nat} {u₁ u₂ : Bool}
    (listed : Listed cfg h (first ++ ⟨c₁, u₁⟩ :: ⟨c₂, u₂⟩ :: rest)) {low high : Nat}
    (hlow : low = span (blockSize cfg) first) (hhigh : high = low + (cfg.sizeofStructMem + c₁)) :
    Listed cfg (combine cfg h low high) (first ++ ⟨c₁ + cfg.sizeofStructMem + c₂, u₁⟩ :: rest) := by
  have total := listed.total
  have structPos := cfg.sizeofStructMem_pos
  simp only [span_append, span_cons, blockSize] at total
  obtain ⟨before, lowItem, highItem, after⟩ := (linked_append cfg).mp listed.linked
  rw [Nat.zero_add, ← hlow] at lowItem highItem after
  have highEq : low + blockSize cfg ⟨c₁, u₁⟩ = high := by simp only [blockSize]; omega
  rw [highEq] at highItem after
  have itemEq := combine_item cfg h low high (by omega)
  have highNext : (h.item high).next = high + blockSize cfg ⟨c₂, u₂⟩ := by rw [highItem]
  dsimp only at itemEq
  rw [highNext] at itemEq
  have nextEq : high + blockSize cfg ⟨c₂, u₂⟩ =
      low + blockSize cfg ⟨c₁ + cfg.sizeofStructMem + c₂, u₁⟩ := by simp only [blockSize]; omega
  have nextLe : high + blockSize cfg ⟨c₂, u₂⟩ ≤ h.heapEnd := by simp only [blockSize]; omega
  have endItem : ((combine cfg h low high).item h.heapEnd).pool = true ∧
      ((combine cfg h low high).item h.heapEnd).used = true := by
    have base : ∀ v w : SmallMemItem, Function.update (Function.update h.item high v) low w h.heapEnd =
        h.item h.heapEnd := by
      intro v w
      have := blockSize_pos cfg ⟨c₂, u₂⟩
      rw [update_of_ne (by omega), update_of_ne (by omega)]
    rw [itemEq]
    by_cases last : h.heapEnd = high + blockSize cfg ⟨c₂, u₂⟩
    · rw [← last, update_self, base]
      exact ⟨listed.end_pool, listed.end_used⟩
    · rw [update_of_ne last, base]
      exact ⟨listed.end_pool, listed.end_used⟩
  refine ⟨?_, ?_, listed.end_eq, endItem.1, endItem.2, ?_⟩
  · rw [linked_append, Nat.zero_add, ← hlow, itemEq]
    have positive := blockSize_pos cfg ⟨c₂, u₂⟩
    refine ⟨?_, ?_, ?_⟩
    · exact ((before.update cfg _ _ (.inr (by omega))).update cfg _ _ (.inr (by omega))).update cfg _ _
        (.inr (by omega))
    · rw [update_of_ne (by omega), update_self, lowItem]
      simp only [SmallMemItem.withNext, nextEq]
    · rw [← nextEq]
      exact ((after.update cfg _ _ (.inl (by omega))).update cfg _ _ (.inl (by omega))).update_prev cfg _
  · simp only [span_append, span_cons, blockSize]
    show _ = h.heapEnd
    omega
  · intro b member
    rcases List.mem_append.mp member with member | member
    · exact listed.aligned b (by simp [member])
    · rcases List.mem_cons.mp member with rfl | member
      · exact Nat.dvd_add (Nat.dvd_add (listed.aligned ⟨c₁, u₁⟩ (by simp)) cfg.sizeofStructMem_dvd)
          (listed.aligned ⟨c₂, u₂⟩ (by simp))
      · exact listed.aligned b (by simp [member])

/-! ## Plugging holes -/

theorem plugForward_listed {h : SmallMem} {first rest : List Block} {capacity : Nat}
    (listed : Listed cfg h (first ++ ⟨capacity, false⟩ :: rest))
    (low : h.lfree ≤ span (blockSize cfg) first) :
    let h' := plugForward cfg h (span (blockSize cfg) first)
    Listed cfg h' (first ++ ⟨(mergeNext cfg capacity rest).1, false⟩ :: (mergeNext cfg capacity rest).2) ∧
      SameObject h h' ∧ h'.lfree = h.lfree ∧ h'.used = h.used ∧ h'.max = h.max := by
  intro h'
  have structPos := cfg.sizeofStructMem_pos
  have itemEq := listed.item_at
  have total := listed.total
  simp only [span_append, span_cons, blockSize] at total
  have kept : (h.item (span (blockSize cfg) first)).next =
      span (blockSize cfg) first + (cfg.sizeofStructMem + capacity) := by rw [itemEq]; rfl
  have notLow : h.lfree ≠ span (blockSize cfg) first + (cfg.sizeofStructMem + capacity) := by omega
  cases rest with
  | nil =>
    have last : span (blockSize cfg) first + (cfg.sizeofStructMem + capacity) = h.heapEnd := by
      simpa using total
    have unchanged : h' = h := by
      simp only [h', plugForward, kept, last]
      rw [if_neg (by simp)]
    rw [unchanged]
    exact ⟨listed, .refl h, rfl, rfl, rfl⟩
  | cons b rest =>
    obtain ⟨other, status⟩ := b
    have nextItem := ((linked_append cfg).mp listed.linked).2.2.1
    rw [Nat.zero_add] at nextItem
    simp only [blockSize] at nextItem
    cases status with
    | true =>
      have unchanged : h' = h := by
        simp only [h', plugForward, kept, nextItem]
        rw [if_neg (by simp)]
      rw [unchanged]
      exact ⟨listed, .refl h, rfl, rfl, rfl⟩
    | false =>
      have merged : h' = combine cfg h (span (blockSize cfg) first)
          (span (blockSize cfg) first + (cfg.sizeofStructMem + capacity)) := by
        simp only [h', plugForward, kept, nextItem]
        simp only [span_cons, blockSize] at total
        rw [if_pos ⟨by omega, trivial, by omega⟩, if_neg notLow]
      rw [merged]
      exact ⟨listed.combined cfg rfl rfl, ⟨rfl, rfl, rfl⟩, rfl, rfl, rfl⟩

theorem plugBackward_listed {h : SmallMem} {first rest : List Block} {capacity : Nat}
    (listed : Listed cfg h (first ++ ⟨capacity, false⟩ :: rest))
    (low : h.lfree = firstFree cfg 0 (first ++ ⟨capacity, false⟩ :: rest)) :
    let h' := plugBackward cfg h (span (blockSize cfg) first)
    Listed cfg h' (mergePrev cfg first capacity rest) ∧
      SameObject h h' ∧ h'.lfree = h.lfree ∧ h'.used = h.used ∧ h'.max = h.max := by
  intro h'
  have itemEq := listed.item_at
  rcases List.eq_nil_or_concat' first with rfl | ⟨before, ⟨other, status⟩, rfl⟩
  · have unchanged : h' = h := by
      simp only [h', plugBackward, itemEq]
      rw [if_neg (by simp [lastOffset])]
    rw [unchanged]
    exact ⟨listed, .refl h, rfl, rfl, rfl⟩
  · have prevEq : (h.item (span (blockSize cfg) (before ++ [⟨other, status⟩]))).prev =
        span (blockSize cfg) before := by
      rw [itemEq]
      simp only [lastOffset_concat, Nat.zero_add]
    have whole : before ++ [⟨other, status⟩] ++ ⟨capacity, false⟩ :: rest =
        before ++ ⟨other, status⟩ :: ⟨capacity, false⟩ :: rest := by simp
    have prevItem := Listed.item_at cfg (whole ▸ listed)
    have positive := blockSize_pos cfg ⟨other, status⟩
    have gap : span (blockSize cfg) (before ++ [⟨other, status⟩]) =
        span (blockSize cfg) before + (cfg.sizeofStructMem + other) := by simp [blockSize]
    have ne : span (blockSize cfg) before ≠ span (blockSize cfg) (before ++ [⟨other, status⟩]) := by
      simp only [blockSize] at positive; omega
    cases status with
    | true =>
      have unchanged : h' = h := by
        simp only [h', plugBackward, prevEq, prevItem]
        rw [if_neg (by simp)]
      rw [unchanged]
      refine ⟨?_, .refl h, rfl, rfl, rfl⟩
      simpa [mergePrev] using listed
    | false =>
      have below := firstFree_le cfg 0 before (⟨capacity, false⟩ :: rest) other
      rw [whole] at low
      have merged : h' = combine cfg h (span (blockSize cfg) before)
          (span (blockSize cfg) (before ++ [⟨other, false⟩])) := by
        simp only [h', plugBackward, prevEq, prevItem]
        rw [if_pos ⟨ne, trivial⟩, if_neg (by omega)]
      rw [merged]
      refine ⟨?_, ⟨rfl, rfl, rfl⟩, rfl, rfl, rfl⟩
      have result := (whole ▸ listed).combined cfg rfl gap
      simpa [mergePrev] using result

theorem firstFree_mergeNext (first rest : List Block) (capacity : Nat) :
    firstFree cfg 0 (first ++ ⟨(mergeNext cfg capacity rest).1, false⟩ :: (mergeNext cfg capacity rest).2) =
      firstFree cfg 0 (first ++ ⟨capacity, false⟩ :: rest) := by
  by_cases free : ∃ b ∈ first, b.used = false
  · exact (firstFree_append_free cfg _ _ _ free).1
  · have used : ∀ b ∈ first, b.used = true := by simpa using free
    rw [firstFree_append_used cfg _ used, firstFree_append_used cfg _ used]
    simp [firstFree]

theorem firstFree_mergePrev (first rest : List Block) (capacity : Nat) :
    firstFree cfg 0 (mergePrev cfg first capacity rest) =
      firstFree cfg 0 (first ++ ⟨capacity, false⟩ :: rest) := by
  rcases List.eq_nil_or_concat' first with rfl | ⟨before, ⟨other, status⟩, rfl⟩
  · rfl
  · cases status with
    | true => simp [mergePrev]
    | false =>
      have both : ∀ tail : List Block, firstFree cfg 0 (before ++ ⟨other, false⟩ :: tail) =
          firstFree cfg 0 (before ++ [⟨other, false⟩]) := fun tail => by
        have free : ∃ b ∈ before ++ [⟨other, false⟩], b.used = false := ⟨⟨other, false⟩, by simp, rfl⟩
        have := (firstFree_append_free cfg 0 tail [] free).1
        simpa using this
      have swap : firstFree cfg 0 (before ++ ⟨other + cfg.sizeofStructMem + capacity, false⟩ :: rest) =
          firstFree cfg 0 (before ++ [⟨other, false⟩]) := by
        by_cases free : ∃ b ∈ before, b.used = false
        · exact (firstFree_append_free cfg _ _ _ free).1
        · have used : ∀ b ∈ before, b.used = true := by simpa using free
          rw [firstFree_append_used cfg _ used, firstFree_append_used cfg _ used]
          simp [firstFree]
      simp only [mergePrev, List.getLast?_append, List.getLast?_singleton, Option.some_or,
        List.dropLast_concat, List.append_assoc, List.cons_append, List.nil_append, swap, both]

theorem coalesced_mergeNext {rest : List Block} (capacity : Nat) (coalesced : Coalesced rest) :
    Coalesced (mergeNext cfg capacity rest).2 ∧ ∀ b ∈ (mergeNext cfg capacity rest).2.head?, b.used = true := by
  rcases rest with _ | ⟨⟨other, status⟩, rest⟩
  · exact ⟨coalesced, by simp [mergeNext]⟩
  · cases status with
    | true => exact ⟨coalesced, by simp [mergeNext]⟩
    | false =>
      have tail := (@coalesced_free [] _ _).mp coalesced
      exact ⟨tail.2.1, tail.2.2.2⟩

theorem coalesced_release {first rest : List Block} {capacity : Nat} (before : Coalesced first)
    (after : Coalesced rest) : Coalesced (release cfg first capacity rest) := by
  obtain ⟨tail, head⟩ := coalesced_mergeNext cfg capacity after
  unfold release
  rcases List.eq_nil_or_concat' first with rfl | ⟨init, ⟨other, status⟩, rfl⟩
  · exact coalesced_free.mpr ⟨before, tail, by simp, head⟩
  · cases status with
    | true =>
      simp only [mergePrev, List.getLast?_append, List.getLast?_singleton, Option.some_or]
      exact coalesced_free.mpr ⟨before, tail, by simp, head⟩
    | false =>
      obtain ⟨initOk, -, last, -⟩ := coalesced_free.mp before
      simp only [mergePrev, List.getLast?_append, List.getLast?_singleton, Option.some_or, List.dropLast_concat]
      exact coalesced_free.mpr ⟨initOk, tail, last, head⟩

theorem plugHoles_repr {h : SmallMem} {first rest : List Block} {capacity : Nat}
    (listed : Listed cfg h (first ++ ⟨capacity, false⟩ :: rest))
    (low : h.lfree = firstFree cfg 0 (first ++ ⟨capacity, false⟩ :: rest))
    (before : Coalesced first) (after : Coalesced rest) :
    let h' := plugHoles cfg h (span (blockSize cfg) first)
    Repr cfg h' (release cfg first capacity rest) ∧ SameObject h h' ∧ h'.used = h.used ∧ h'.max = h.max := by
  intro h'
  have below := firstFree_le cfg 0 first rest capacity
  obtain ⟨listed₁, same₁, lfree₁, used₁, max₁⟩ := plugForward_listed cfg listed (by omega)
  have low₁ := lfree₁.trans (low.trans (firstFree_mergeNext cfg first rest capacity).symm)
  obtain ⟨listed₂, same₂, lfree₂, used₂, max₂⟩ := plugBackward_listed cfg listed₁ low₁
  refine ⟨⟨listed₂, coalesced_release cfg before after, ?_⟩, same₁.trans same₂, used₂.trans used₁,
    max₂.trans max₁⟩
  rw [release, firstFree_mergePrev]
  exact lfree₂.trans low₁

end RtThread.Mem
