import RtThread.Memheap.Alloc

/-! Giving a block back: it joins its free neighbours on both sides, and goes to the free list unless its
left neighbour is there already. -/

set_option autoImplicit false
namespace RtThread.Memheap
open Lib
open Mem (Block Coalesced coalesced_free coalesced_used)

variable {h h' : Heap} {blocks blocks' first init rest : List Block} {free xs ys : List Nat}
  {c d e p q n start size : Nat} {u v : Bool}

def OnlyAvailable (h h' : Heap) : Prop := h' = { h with mem := h'.mem, availableSize := h'.availableSize }

theorem OnlyAvailable.trans {h'' : Heap} (one : OnlyAvailable h h') (two : OnlyAvailable h' h'') :
    OnlyAvailable h h'' := by
  unfold OnlyAvailable at *
  rw [two, one]

theorem SameObject.onlyAvailable (same : SameObject h h') : OnlyAvailable h h' := by
  unfold OnlyAvailable
  rw [same]

theorem onlyAvailable_refund (h : Heap) (amount : Nat) : OnlyAvailable h (h.refund amount) := rfl

theorem OnlyAvailable.region (only : OnlyAvailable h h') : SameRegion h h' := by
  rw [only]
  exact ⟨rfl, rfl, rfl, rfl⟩

/-- The block at `p` between `first` and `rest` is free, but its neighbours may be free as well, and it need
not be in the free list. -/
structure Pending (h : Heap) (first : List Block) (c : Nat) (rest : List Block) (free : List Nat) (p : Nat) :
    Prop where
  held : Held h (first ++ ⟨c, false⟩ :: rest) free
  place : p = h.startAddr + span itemSpan first
  available : h.availableSize = freeSpace (first ++ ⟨c, false⟩ :: rest)
  sides : Coalesced first ∧ Coalesced rest
  others : ∀ q, q ≠ p → (q ∈ free ↔ At false h.startAddr first q ∨ At false (p + 24 + c) rest q)

/-! ## The neighbours -/

section
variable (held : Held h (first ++ ⟨c, u⟩ :: rest) free) (place : p = h.startAddr + span itemSpan first)
include held place

theorem Held.prev_used (used : ∀ b ∈ first.getLast?, b.used = true) :
    h.isUsed (h.get p .prev) = true := by
  rw [(held.around place).2]
  rcases List.eq_nil_or_concat' first with rfl | ⟨init, ⟨e, v⟩, rfl⟩
  · exact held.tail_used
  · have last : lastOr h.tail (h.places (init ++ [⟨e, v⟩])) = h.startAddr + span itemSpan init := by
      rw [places_split, starts_nil, lastOr, List.getLast?_concat]
      rfl
    have shape : init ++ [⟨e, v⟩] ++ ⟨c, u⟩ :: rest = init ++ ⟨e, v⟩ :: ⟨c, u⟩ :: rest := by simp
    rw [shape] at held
    rw [last, held.isUsed_eq rfl]
    exact used ⟨e, v⟩ (by simp)

theorem Held.next_used (used : ∀ b ∈ rest.head?, b.used = true) :
    h.isUsed (h.get p .next) = true := by
  rw [(held.around place).1]
  cases rest with
  | nil =>
    have ends := held.toGround.tail_eq
    simp only [span_append, span_cons, span_nil, itemSpan] at ends
    have stop : p + 24 + c = h.tail := by omega
    rw [stop]
    exact held.tail_used
  | cons b rest =>
    obtain ⟨e, v⟩ := b
    have shape : first ++ ⟨c, u⟩ :: ⟨e, v⟩ :: rest = (first ++ [⟨c, u⟩]) ++ ⟨e, v⟩ :: rest := by simp
    rw [shape] at held
    rw [held.isUsed_eq (p := p + 24 + c)]
    · exact used ⟨e, v⟩ (by simp)
    · simp only [span_append, span_cons, span_nil, itemSpan]
      omega

end

/-! ## The steps -/

theorem at_true_parts : At true start (first ++ ⟨c, false⟩ :: ⟨d, false⟩ :: rest) q ↔
    At true start (first ++ ⟨c + 24 + d, false⟩ :: rest) q := by
  have further : start + span itemSpan first + 24 + c + 24 + d =
      start + span itemSpan first + 24 + (c + 24 + d) := by omega
  rw [at_mid, at_cons, at_mid, further]
  simp only [Bool.false_eq_true, and_false, false_or]

theorem freeSpace_parts : freeSpace (first ++ ⟨c, false⟩ :: ⟨d, false⟩ :: rest) + 24 =
    freeSpace (first ++ ⟨c + 24 + d, false⟩ :: rest) := by
  simp only [freeSpace_append, freeSpace, Bool.false_eq_true, if_false]
  omega

theorem Pending.left (pending : Pending h (init ++ [⟨e, false⟩]) c rest free p) (out : p ∉ free) :
    mergeLeft h p = (unlinkBlock (h.refund rtMemheapSize) p,
      h.startAddr + span itemSpan init, false) ∧
    OnlyAvailable h (mergeLeft h p).1 ∧
    Pending (mergeLeft h p).1 init (e + 24 + c) rest free (h.startAddr + span itemSpan init) ∧
    h.startAddr + span itemSpan init ∈ free := by
  have held := pending.held
  have shape : init ++ [⟨e, false⟩] ++ ⟨c, false⟩ :: rest = init ++ ⟨e, false⟩ :: ⟨c, false⟩ :: rest := by simp
  have available := pending.available
  have place := pending.place
  rw [shape] at held available
  simp only [span_append, span_cons, span_nil, itemSpan] at place
  have next : p = h.startAddr + span itemSpan init + 24 + e := by omega
  have before : h.get p .prev = h.startAddr + span itemSpan init := (held.part_links rfl next).2.1
  have unused : h.isUsed (h.get p .prev) = false := by rw [before, held.isUsed_eq rfl]
  have fits := held.toGround.join.freeSpace_le
  have word := held.word
  rw [← freeSpace_parts] at fits
  have more : add32 h.availableSize 24 = freeSpace (init ++ ⟨e + 24 + c, false⟩ :: rest) := by
    rw [available, ← freeSpace_parts]
    exact add32_eq (by omega)
  have adjusted : Held (h.refund rtMemheapSize) _ _ :=
    held.adjust _ h.maxUsedSize h.levels
  obtain ⟨joined, header⟩ := adjusted.unlinkBlock rfl next out
  have code : mergeLeft h p = (unlinkBlock (h.refund rtMemheapSize) p,
      h.startAddr + span itemSpan init, false) := by
    simp only [mergeLeft, if_pos unused, header]
    rfl
  have same : SameObject (h.refund rtMemheapSize)
      (unlinkBlock (h.refund rtMemheapSize) p) :=
    (sameObject_set _ _ _ _).trans (sameObject_set _ _ _ _)
  refine ⟨code, ?_, ?_, ?_⟩
  · rw [code]
    exact (onlyAvailable_refund h _).trans same.onlyAvailable
  · rw [code]
    generalize unlinkBlock (h.refund rtMemheapSize) p = k at joined same
    have start : k.startAddr = h.startAddr := same.startAddr
    constructor
    · exact joined
    · rw [start]
    · rw [← more, ← rtMemheapSize_eq]
      exact same.availableSize
    · exact ⟨(coalesced_free.mp pending.sides.1).1, pending.sides.2⟩
    · intro q other
      rw [start]
      have low : ∀ q, At false h.startAddr (init ++ [⟨e, false⟩]) q ↔
          At false h.startAddr init q ∨ q = h.startAddr + span itemSpan init := by
        intro q
        rw [at_mid]
        simp [At]
      have further : h.startAddr + span itemSpan init + 24 + (e + 24 + c) = p + 24 + c := by omega
      rw [further]
      by_cases own : q = p
      · subst own
        constructor
        · exact fun inside => absurd inside out
        · rintro (here | here)
          · have below := here.below
            omega
          · have below := here.below
            omega
      · rw [pending.others q own, low]
        tauto
  · apply (pending.others _ (by omega)).mpr
    left
    rw [at_mid]
    exact Or.inr (Or.inl ⟨rfl, rfl⟩)

theorem Pending.right (pending : Pending h first c (⟨d, false⟩ :: rest) free p) :
    mergeRight h p = (h.refund rtMemheapSize).absorbNext p ∧ OnlyAvailable h (mergeRight h p) ∧
      ∃ free', Pending (mergeRight h p) first (c + 24 + d) rest free' p ∧ (p ∈ free' ↔ p ∈ free) := by
  have held := pending.held
  have place := pending.place
  have available := pending.available
  have inside : p + 24 + c ∈ free := by
    apply (pending.others _ (by omega)).mpr
    right
    rw [at_cons]
    exact Or.inl ⟨rfl, rfl⟩
  obtain ⟨xs, ys, rfl⟩ := List.append_of_mem inside
  have follows := (held.part_links place rfl).1
  have shape : first ++ ⟨c, false⟩ :: ⟨d, false⟩ :: rest = (first ++ [⟨c, false⟩]) ++ ⟨d, false⟩ :: rest := by simp
  have unused : h.isUsed (h.get p .next) = false := by
    have other : Held h ((first ++ [⟨c, false⟩]) ++ ⟨d, false⟩ :: rest) _ := shape ▸ held
    rw [follows, other.isUsed_eq]
    simp only [span_append, span_cons, span_nil, itemSpan]
    omega
  have fits := held.toGround.join.freeSpace_le
  have word := held.word
  rw [← freeSpace_parts] at fits
  have more : add32 h.availableSize 24 = freeSpace (first ++ ⟨c + 24 + d, false⟩ :: rest) := by
    rw [available, ← freeSpace_parts]
    exact add32_eq (by omega)
  have code : mergeRight h p = (h.refund rtMemheapSize).absorbNext p := by rw [mergeRight, if_pos unused]
  have adjusted : Held (h.refund rtMemheapSize) _ _ := held.adjust _ h.maxUsedSize h.levels
  have joined := adjusted.absorbNext place rfl
  have same : SameObject (h.refund rtMemheapSize) ((h.refund rtMemheapSize).absorbNext p) :=
    ((sameObject_set _ _ _ _).trans (sameObject_set _ _ _ _)).trans sameObject_removeFree
  have once := held.frees.once
  refine ⟨code, ?_, xs ++ ys, ?_, ?_⟩
  · rw [code]
    exact (onlyAvailable_refund h _).trans same.onlyAvailable
  · rw [code]
    generalize (h.refund rtMemheapSize).absorbNext p = k at joined same
    have start : k.startAddr = h.startAddr := same.startAddr
    constructor
    · exact joined
    · rw [start, place]
    · rw [← more, ← rtMemheapSize_eq]
      exact same.availableSize
    · exact ⟨pending.sides.1, (@coalesced_free [] _ _).mp pending.sides.2 |>.2.1⟩
    · intro q other
      have here := pending.others q other
      have further : p + 24 + (c + 24 + d) = p + 24 + c + 24 + d := by omega
      rw [at_cons] at here
      rw [start, further]
      simp only [List.mem_append, List.mem_cons, and_true, not_or] at here once ⊢
      by_cases own : q = p + 24 + c
      · subst own
        constructor
        · rintro (member | member)
          · exact absurd member once.2.1
          · exact absurd member once.2.2
        · rintro (low | high)
          · have below := low.below
            omega
          · have below := high.below
            omega
      · tauto
  · have apart : p ≠ p + 24 + c := by omega
    simp only [List.mem_append, List.mem_cons, apart, false_or]

theorem Held.freePlace (held : Held h blocks free) (bestMode : Bool) (header : Nat) :
    ∃ xs ys, free = xs ++ ys ∧ freePlace bestMode h header = some (firstOr h.freeList ys) := by
  have start : h.get h.freeList .nextFree = firstOr h.freeList free := held.frees.meet_hub.1
  have scan : ∀ (blkSize fuel : Nat) (xs ys : List Nat), free = xs ++ ys → ys.length + 1 ≤ fuel →
      ∃ xs' ys', free = xs' ++ ys' ∧ bestPlace h blkSize fuel (firstOr h.freeList ys) =
        some (firstOr h.freeList ys') := by
    intro blkSize fuel xs ys list enough
    induction ys generalizing xs fuel with
    | nil =>
      obtain ⟨fuel, rfl⟩ : ∃ k, fuel = k + 1 := ⟨fuel - 1, by omega⟩
      exact ⟨xs, [], list, by simp [bestPlace, firstOr]⟩
    | cons q ys ih =>
      obtain ⟨fuel, rfl⟩ : ∃ k, fuel = k + 1 := ⟨fuel - 1, by omega⟩
      have inside : q ∈ free := list ▸ by simp
      have apart := (held.toGround.apart_list (held.within q inside)).1
      have head : firstOr h.freeList (q :: ys) = q := rfl
      rw [head, bestPlace, if_pos apart]
      by_cases fit : blkSize ≤ h.memitemSize q
      · exact ⟨xs, q :: ys, list, by rw [if_pos fit, head]⟩
      · have frees := held.frees
        rw [list] at frees
        rw [if_neg fit, frees.around.2.2.1]
        apply ih fuel (xs ++ [q])
        · rw [list, List.append_cons]
        · rw [List.length_cons] at enough
          omega
  rw [Memheap.freePlace, start]
  cases bestMode with
  | false => exact ⟨[], free, rfl, if_neg Bool.false_ne_true⟩
  | true =>
    have enough := held.length_lt_fuel
    rw [if_pos rfl]
    exact scan _ _ [] free rfl (by omega)

theorem Pending.settled (pending : Pending h first c rest free p) (inside : p ∈ free)
    (before : ∀ b ∈ first.getLast?, b.used = true) (after : ∀ b ∈ rest.head?, b.used = true) :
    (∀ q, q ∈ free ↔ At false h.startAddr (first ++ ⟨c, false⟩ :: rest) q) ∧
      Coalesced (first ++ ⟨c, false⟩ :: rest) := by
  refine ⟨fun q => ?_, coalesced_free.mpr ⟨pending.sides.1, pending.sides.2, before, after⟩⟩
  rw [at_mid, ← pending.place]
  by_cases own : q = p
  · subst own
    simp [inside]
  · rw [pending.others q own]
    simp [own]

/-! ## The whole call -/

theorem Pending.mergeLeft (pending : Pending h first c rest free p) (out : p ∉ free) :
    ∃ k first' c' p' insert, mergeLeft h p = (k, p', insert) ∧ OnlyAvailable h k ∧
      Pending k first' c' rest free p' ∧ (insert = true ↔ p' ∉ free) ∧
      (∀ b ∈ first'.getLast?, b.used = true) ∧
      (∀ q, At true h.startAddr (first' ++ ⟨c', false⟩ :: rest) q ↔
        At true h.startAddr (first ++ ⟨c, false⟩ :: rest) q) ∧
      freeSpace (first ++ ⟨c, false⟩ :: rest) ≤ freeSpace (first' ++ ⟨c', false⟩ :: rest) := by
  by_cases used : ∀ b ∈ first.getLast?, b.used = true
  · refine ⟨h, first, c, p, true, ?_, rfl, pending, by simp [out], used, fun _ => Iff.rfl, Nat.le_refl _⟩
    rw [Memheap.mergeLeft, if_neg]
    rw [pending.held.prev_used pending.place used]
    decide
  · rcases List.eq_nil_or_concat' first with rfl | ⟨init, ⟨e, v⟩, rfl⟩
    · exact absurd (by simp) used
    · cases v with
      | true => exact absurd (by simp) used
      | false =>
        obtain ⟨code, only, merged, inside⟩ := pending.left out
        have shape : init ++ [⟨e, false⟩] ++ ⟨c, false⟩ :: rest = init ++ ⟨e, false⟩ :: ⟨c, false⟩ :: rest := by simp
        have last := (coalesced_free.mp pending.sides.1).2.2.1
        rw [code] at only merged
        refine ⟨_, init, _, _, false, code, only, merged, by simp [inside], last, fun q => ?_, ?_⟩
        · rw [shape, at_true_parts]
        · rw [shape, ← freeSpace_parts]
          exact Nat.le_add_right _ _

theorem Pending.mergeRight (pending : Pending h first c rest free p) :
    ∃ c' rest' free', OnlyAvailable h (mergeRight h p) ∧ Pending (mergeRight h p) first c' rest' free' p ∧
      (p ∈ free' ↔ p ∈ free) ∧ (∀ b ∈ rest'.head?, b.used = true) ∧
      (∀ q, At true h.startAddr (first ++ ⟨c', false⟩ :: rest') q ↔
        At true h.startAddr (first ++ ⟨c, false⟩ :: rest) q) ∧
      freeSpace (first ++ ⟨c, false⟩ :: rest) ≤ freeSpace (first ++ ⟨c', false⟩ :: rest') := by
  by_cases used : ∀ b ∈ rest.head?, b.used = true
  · have same : Memheap.mergeRight h p = h := by
      rw [Memheap.mergeRight, if_neg]
      rw [pending.held.next_used pending.place used]
      decide
    rw [same]
    exact ⟨c, rest, free, rfl, pending, Iff.rfl, used, fun _ => Iff.rfl, Nat.le_refl _⟩
  · match rest with
    | [] | ⟨d, true⟩ :: rest => exact absurd (by simp) used
    | ⟨d, false⟩ :: rest =>
      obtain ⟨code, only, free', merged, same⟩ := pending.right
      have head := ((@coalesced_free [] _ _).mp pending.sides.2).2.2.2
      refine ⟨c + 24 + d, rest, free', only, merged, same, head, fun q => at_true_parts.symm, ?_⟩
      rw [← freeSpace_parts]
      exact Nat.le_add_right _ _

theorem magicOf_masked (u : Bool) : magicOf u &&& rtMemheapMask = rtMemheapMagic := by
  cases u <;> decide

theorem Held.next_magic (held : Held h (first ++ ⟨c, u⟩ :: rest) free)
    (place : p = h.startAddr + span itemSpan first) :
    h.get (h.get p .next) .magic &&& rtMemheapMask = rtMemheapMagic := by
  rw [(held.around place).1]
  cases rest with
  | nil =>
    have ends := held.toGround.tail_eq
    simp only [span_append, span_cons, span_nil, itemSpan] at ends
    have stop : p + 24 + c = h.tail := by omega
    rw [stop, held.tailMark]
    exact magicOf_masked true
  | cons b rest =>
    obtain ⟨e, v⟩ := b
    have shape : first ++ ⟨c, u⟩ :: ⟨e, v⟩ :: rest = (first ++ [⟨c, u⟩]) ++ ⟨e, v⟩ :: rest := by simp
    rw [shape] at held
    rw [(held.mark (p := p + 24 + c) _).1]
    · exact magicOf_masked v
    · simp only [span_append, span_cons, span_nil, itemSpan]
      omega

theorem Repr.pend (repr : Repr h (first ++ ⟨c, true⟩ :: rest) free)
    (place : p = h.startAddr + span itemSpan first) :
    ∃ k, k = (h.set p .magic (rtMemheapMagic ||| rtMemheapFreed)).refund
        ((h.set p .magic (rtMemheapMagic ||| rtMemheapFreed)).memitemSize p) ∧
      OnlyAvailable h k ∧ Pending k first c rest free p ∧ p ∉ free := by
  have held := repr.toHeld.setMagic place false
  have fits := held.toGround.freeSpace_le
  have pool : (h.set p .magic (magicOf false)).poolSize = h.poolSize := rfl
  have word := repr.word
  have own : (h.set p .magic (magicOf false)).memitemSize p = c := held.memitemSize_eq place
  have available := repr.available
  rw [pool] at fits
  rw [magicOf_false, own]
  refine ⟨_, rfl, ?_, ⟨held.adjust _ h.maxUsedSize h.levels, place, ?_, coalesced_used.mp repr.coalesced, ?_⟩, ?_⟩
  · exact (sameObject_set h _ _ _).onlyAvailable.trans (onlyAvailable_refund _ c)
  · simp only [freeSpace_append, freeSpace, if_true, Bool.false_eq_true, if_false] at available fits ⊢
    have sum : ((h.set p .magic (magicOf false)).refund c).availableSize = add32 h.availableSize c := rfl
    rw [sum, available, add32_eq (by omega)]
    omega
  · intro q other
    have start : ((h.set p .magic (magicOf false)).refund c).startAddr = h.startAddr := rfl
    rw [repr.listed q, start, at_mid, place]
    simp only [Bool.true_eq_false, and_false, false_or]
  · intro inside
    have free := (repr.listed p).mp inside
    apply at_unique _ free
    rw [at_mid]
    exact Or.inr (Or.inl ⟨place, rfl⟩)

theorem Pending.hang (pending : Pending h first c rest free p) (bestMode : Bool) (out : p ∉ free) :
    ∃ n free', freePlace bestMode h p = some n ∧ OnlyAvailable h (insertBefore h p n) ∧
      Pending (insertBefore h p n) first c rest free' p ∧ p ∈ free' := by
  obtain ⟨xs, ys, rfl, found⟩ := pending.held.freePlace bestMode p
  have inside : p ∈ h.places (first ++ ⟨c, false⟩ :: rest) := pending.place ▸ places_mid h first rest _
  have hung := pending.held.insertBefore inside out
  have same : SameObject h (insertBefore h p (firstOr h.freeList ys)) :=
    (((sameObject_set h _ _ _).trans (sameObject_set _ _ _ _)).trans (sameObject_set _ _ _ _)).trans
      (sameObject_set _ _ _ _)
  refine ⟨_, xs ++ p :: ys, found, same.onlyAvailable, ?_, by simp⟩
  generalize insertBefore h p (firstOr h.freeList ys) = k at hung same
  constructor
  · exact hung
  · rw [same.startAddr]
    exact pending.place
  · rw [same.availableSize]
    exact pending.available
  · exact pending.sides
  · intro q other
    rw [same.startAddr, ← pending.others q other]
    simp [other]

theorem Pending.repr {k : Heap} (pending : Pending k first c rest free p) (counted : Counted h blocks)
    (only : OnlyAvailable h k) (more : freeSpace blocks ≤ freeSpace (first ++ ⟨c, false⟩ :: rest))
    (inside : p ∈ free) (before : ∀ b ∈ first.getLast?, b.used = true)
    (after : ∀ b ∈ rest.head?, b.used = true) : Repr k.release (first ++ ⟨c, false⟩ :: rest) free := by
  obtain ⟨listed, coalesced⟩ := pending.settled inside before after
  have fits := pending.held.toGround.freeSpace_le
  have word := pending.held.word
  have pool := only.region.poolSize
  have levels : k.release.levels = h.levels ++ [sub32 h.poolSize k.availableSize] := by
    rw [← pool]
    have same : k.levels = h.levels := by rw [only]
    rw [← same]
    rfl
  have most : k.release.maxUsedSize = h.maxUsedSize := by
    have same : k.maxUsedSize = h.maxUsedSize := by rw [only]
    exact same
  rw [pool] at fits word
  constructor
  · exact pending.held.adjust _ _ _
  · exact counted.refund word (by omega) pool more pending.available most levels
  · exact listed
  · exact coalesced

theorem freeBlock_eq (bestMode : Bool) (h : Heap) (p : Nat) :
    freeBlock bestMode h p =
      let k := mergeLeft ((h.set p .magic (rtMemheapMagic ||| rtMemheapFreed)).refund
        ((h.set p .magic (rtMemheapMagic ||| rtMemheapFreed)).memitemSize p)) p
      if k.2.2 then (freePlace bestMode (mergeRight k.1 k.2.1) k.2.1).map fun n =>
        (insertBefore (mergeRight k.1 k.2.1) k.2.1 n).release
      else some (mergeRight k.1 k.2.1).release := rfl

theorem rtMemheapFree_used {ptr : Nat} (bestMode : Bool) (header : sub32 ptr rtMemheapSize = p)
    (mark : h.get p .magic = magicOf true ∧ h.get p .poolPtr = h.addr)
    (next : h.get (h.get p .next) .magic &&& rtMemheapMask = rtMemheapMagic) :
    rtMemheapFree bestMode h (some ptr) = freeBlock bestMode h p := by
  have intact : ¬(h.get p .magic ≠ rtMemheapMagic ||| rtMemheapUsed ∨
      h.get (h.get p .next) .magic &&& rtMemheapMask ≠ rtMemheapMagic) := by
    rw [not_or, not_not, not_not]
    exact ⟨mark.1, next⟩
  rw [rtMemheapFree, header, if_neg intact, if_neg (not_not.mpr mark.2)]

theorem Repr.freed (bestMode : Bool) (repr : Repr h (first ++ ⟨c, true⟩ :: rest) free)
    (place : p = h.startAddr + span itemSpan first) : ∃ h' blocks' free',
      rtMemheapFree bestMode h (some (p + 24)) = some h' ∧ Repr h' blocks' free' ∧ SameRegion h h' ∧
        ∀ q, At true h.startAddr blocks' q ↔ At true h.startAddr (first ++ ⟨c, true⟩ :: rest) q ∧ q ≠ p := by
  have bounds := repr.size
  have top := repr.top
  simp only [span_append, span_cons, itemSpan] at bounds
  have header : sub32 (p + 24) rtMemheapSize = p := by
    rw [rtMemheapSize_eq, sub32]
    omega
  obtain ⟨k, made, only, pending, out⟩ := repr.pend place
  obtain ⟨k₁, first', c', p', insert, left, only₁, pending₁, flag, before, used₁, more₁⟩ := pending.mergeLeft out
  obtain ⟨c'', rest', free', only₂, pending₂, same, after, used₂, more₂⟩ := pending₁.mergeRight
  have region : OnlyAvailable h (mergeRight k₁ p') := (only.trans only₁).trans only₂
  have start : k.startAddr = h.startAddr := only.region.startAddr
  have start₁ : k₁.startAddr = h.startAddr := (only.trans only₁).region.startAddr
  have code : rtMemheapFree bestMode h (some (p + 24)) =
      if insert then (freePlace bestMode (mergeRight k₁ p') p').map fun n =>
        (insertBefore (mergeRight k₁ p') p' n).release
      else some (mergeRight k₁ p').release := by
    rw [rtMemheapFree_used bestMode header (repr.toHeld.mark place) (repr.toHeld.next_magic place), freeBlock_eq,
      ← made, left]
  have shorter : ∀ q, At true h.startAddr (first' ++ ⟨c'', false⟩ :: rest') q ↔
      At true h.startAddr (first ++ ⟨c, true⟩ :: rest) q ∧ q ≠ p := by
    intro q
    rw [start] at used₁
    rw [start₁] at used₂
    rw [used₂, used₁, at_mid, at_mid, ← place]
    simp only [Bool.false_eq_true, and_false, and_true, false_or]
    constructor
    · rintro (low | high)
      · have below := low.below
        exact ⟨Or.inl low, by omega⟩
      · have below := high.below
        exact ⟨Or.inr (Or.inr high), by omega⟩
    · rintro ⟨low | own | high, other⟩
      · exact Or.inl low
      · exact absurd own other
      · exact Or.inr high
  have more : freeSpace (first ++ ⟨c, true⟩ :: rest) ≤ freeSpace (first' ++ ⟨c'', false⟩ :: rest') := by
    have freed : freeSpace (first ++ ⟨c, true⟩ :: rest) ≤ freeSpace (first ++ ⟨c, false⟩ :: rest) := by
      simp only [freeSpace_append, freeSpace, if_true, Bool.false_eq_true, if_false]
      omega
    exact (freed.trans more₁).trans more₂
  rw [code]
  generalize mergeRight k₁ p' = k₂ at region pending₂
  cases insert with
  | true =>
    have outside : p' ∉ free' := fun inside => flag.mp rfl (same.mp inside)
    obtain ⟨n, free'', found, only₃, pending₃, inside⟩ := pending₂.hang bestMode outside
    have whole := region.trans only₃
    rw [if_pos rfl, found]
    exact ⟨_, _, _, rfl, pending₃.repr repr.toCounted whole more inside before after,
      whole.region.trans (sameRegion_release _), shorter⟩
  | false =>
    have inside : p' ∈ free' := by
      apply same.mpr
      by_contra outside
      cases flag.mpr outside
    rw [if_neg Bool.false_ne_true]
    exact ⟨_, _, _, rfl, pending₂.repr repr.toCounted region more inside before after,
      region.region.trans (sameRegion_release _), shorter⟩

end RtThread.Memheap
