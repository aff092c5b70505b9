import RtThread.Memheap.Free

/-! A block that changes its size: it grows into the free block behind it, gives its end back, or moves. -/

set_option autoImplicit false
namespace RtThread.Memheap
open Lib
open Mem (Block Coalesced Config coalesced_free coalesced_used)

variable {h h' : Heap} {blocks blocks' first rest : List Block} {free xs ys : List Nat}
  {c d e p q n start size : Nat} {u v : Bool}

/-! ## Growth in place -/

theorem sameObject_removeNextPtr : SameObject h (removeNextPtr h n) :=
  (sameObject_removeFree.trans (sameObject_set _ _ _ _)).trans (sameObject_set _ _ _ _)

theorem Held.growFront (held : Held h (first ++ ⟨c, u⟩ :: ⟨d, false⟩ :: rest) (xs ++ n :: ys))
    (place : p = h.startAddr + span itemSpan first) (next : n = p + 24 + c) (aligned : 8 ∣ size)
    (room : c + d = size + e) : ∃ k,
      k = ((Memheap.removeNextPtr h n).splitBlock p (p + 24 + size)).insertFree (p + 24 + size) ∧ SameObject h k ∧
        Held k (first ++ ⟨size, u⟩ :: ⟨e, false⟩ :: rest) ((p + 24 + size) :: (xs ++ ys)) := by
  have joined := held.removeNextPtr place next
  have same : SameObject h (Memheap.removeNextPtr h n) := sameObject_removeNextPtr
  have whole : c + 24 + d = size + 24 + e := by omega
  rw [whole] at joined
  generalize Memheap.removeNextPtr h n = k at joined same ⊢
  have place' : p = k.startAddr + span itemSpan first := by rw [same.startAddr, place]
  have cut := joined.splitBlock place' rfl aligned
  have sameCut : SameObject k (k.splitBlock p (p + 24 + size)) := sameObject_splitBlock
  have part : p + 24 + size ∈ k.places (first ++ ⟨size, u⟩ :: ⟨e, false⟩ :: rest) := by
    rw [places_parts, ← place']
    simp
  have fresh : p + 24 + size ∉ xs ++ ys := by
    intro member
    have apart := (joined.toGround.split aligned false).part_fresh
    rw [← place'] at apart
    exact apart (joined.within _ member)
  exact ⟨_, rfl, (same.trans sameCut).trans sameObject_insertFree, cut.insertFree (sameCut.place part) fresh⟩

theorem Repr.grow (repr : Repr h (first ++ ⟨c, true⟩ :: ⟨d, false⟩ :: rest) free)
    (place : p = h.startAddr + span itemSpan first) (aligned : 8 ∣ size) (more : c < size)
    (room : c + d = size + e) :
    Repr (growInPlace h p (p + 24) c size).release (first ++ ⟨size, true⟩ :: ⟨e, false⟩ :: rest)
      ((p + 24 + size) :: free.erase (p + 24 + c)) ∧
    SameRegion h (growInPlace h p (p + 24) c size).release := by
  have bounds := repr.size
  have top := repr.top
  have word := repr.word
  have available := repr.available
  have fits := repr.toGround.freeSpace_le
  simp only [span_append, span_cons, itemSpan] at bounds
  simp only [freeSpace_append, freeSpace, Bool.false_eq_true, if_false, if_true] at available fits
  have shape : first ++ ⟨c, true⟩ :: ⟨d, false⟩ :: rest = (first ++ [⟨c, true⟩]) ++ ⟨d, false⟩ :: rest := by simp
  have place' : p + 24 + c = h.startAddr + span itemSpan (first ++ [⟨c, true⟩]) := by
    simp only [span_append, span_cons, span_nil, itemSpan]
    omega
  have inside : p + 24 + c ∈ free := by
    rw [repr.listed, shape, at_mid]
    exact Or.inr (Or.inl ⟨place', rfl⟩)
  obtain ⟨xs, ys, rfl⟩ := List.append_of_mem inside
  have once := repr.frees.once
  have removed : (xs ++ (p + 24 + c) :: ys).erase (p + 24 + c) = xs ++ ys := by
    simp only [List.mem_cons, List.mem_append, not_or] at once
    rw [List.erase_append_right _ once.2.1, List.erase_cons_head]
  have spent : Held (h.consume (h.availableSize - (size - c))) _ _ := repr.toHeld.adjust _ _ _
  obtain ⟨k, made, same, taken⟩ := spent.growFront place rfl aligned room
  have code : growInPlace h p (p + 24) c size = k := by
    have next : (h.consume (h.availableSize - (size - c))).get p .next = p + 24 + c :=
      (repr.toHeld.part_links place rfl).1
    have new : add32 (p + 24) size = p + 24 + size := add32_eq (by omega)
    have less : sub32 h.availableSize (sub32 size c) = h.availableSize - (size - c) := by
      simp only [sub32]
      omega
    rw [made, growInPlace, less, new]
    simp only [next]
  have left : h.availableSize - (size - c) = freeSpace (first ++ ⟨size, true⟩ :: ⟨e, false⟩ :: rest) := by
    simp only [freeSpace_append, freeSpace, Bool.false_eq_true, if_false, if_true]
    omega
  rw [code, removed]
  refine ⟨?_, ((sameRegion_consume h _).trans same.region).trans (sameRegion_release k)⟩
  constructor
  · exact taken.adjust _ _ _
  · apply repr.toCounted.consume_release word _ left (.refl h) same
    omega
  · intro q
    have region : k.release.startAddr = h.startAddr := same.startAddr
    have whole : Repr h ((first ++ [⟨c, true⟩]) ++ ⟨d, false⟩ :: rest) _ := shape ▸ repr
    rw [List.mem_cons, whole.others place' q, region, at_mid, at_mid, at_cons, ← place]
    have further : p + 24 + size + 24 + e = p + 24 + c + 24 + d := by omega
    have none : ¬At false (p + 24 + c) [] q := by simp [At]
    rw [further]
    simp only [Bool.true_eq_false, and_false, and_true, false_or, none, or_false]
    tauto
  · obtain ⟨before, tail⟩ := coalesced_used.mp repr.coalesced
    obtain ⟨-, after, -, head⟩ := (@coalesced_free [] _ _).mp tail
    exact coalesced_used.mpr ⟨before, coalesced_free.mpr ⟨List.IsChain.nil, after, by simp, head⟩⟩

/-! ## The end of a block is given back -/

theorem Held.giveBack (held : Held h (first ++ ⟨c, false⟩ :: rest) free)
    (place : p = h.startAddr + span itemSpan first) (out : p ∉ free)
    (short : h.availableSize + c = freeSpace (first ++ ⟨c, false⟩ :: rest))
    (sides : Coalesced first ∧ Coalesced rest)
    (others : ∀ q, q ∈ free ↔ At false h.startAddr first q ∨ At false (p + 24 + c) rest q) :
    OnlyAvailable h ((h.insertFree p).refund ((h.insertFree p).memitemSize p)) ∧
      Pending ((h.insertFree p).refund ((h.insertFree p).memitemSize p)) first c rest (p :: free) p := by
  have fits := held.toGround.freeSpace_le
  have word := held.word
  have inside : p ∈ h.places (first ++ ⟨c, false⟩ :: rest) := place ▸ places_mid h first rest _
  have hung := held.insertFree inside out
  have same : SameObject h (h.insertFree p) := sameObject_insertFree
  generalize h.insertFree p = k at hung same
  have place' : p = k.startAddr + span itemSpan first := by rw [same.startAddr, place]
  rw [hung.memitemSize_eq place']
  refine ⟨same.onlyAvailable.trans (onlyAvailable_refund k c), hung.adjust _ _ _, place', ?_, sides, ?_⟩
  · have sum : (k.refund c).availableSize = add32 h.availableSize c := by
      rw [← same.availableSize]
      rfl
    rw [sum, ← short]
    exact add32_eq (by omega)
  · intro q other
    have region : (k.refund c).startAddr = h.startAddr := same.startAddr
    rw [region, ← others q]
    simp [other]

theorem Repr.cutOff {k : Heap} (repr : Repr h blocks free) (only : OnlyAvailable h k)
    (held : Held k (first ++ ⟨size, true⟩ :: ⟨c, false⟩ :: rest) xs)
    (place : n = h.startAddr + span itemSpan first + 24 + size) (out : n ∉ xs)
    (short : k.availableSize + c = freeSpace (first ++ ⟨size, true⟩ :: ⟨c, false⟩ :: rest))
    (more : freeSpace blocks ≤ k.availableSize + c) (sides : Coalesced first ∧ Coalesced rest)
    (after : ∀ b ∈ rest.head?, b.used = true)
    (others : ∀ q, q ∈ xs ↔ At false h.startAddr first q ∨ At false (n + 24 + c) rest q) :
    Repr ((k.insertFree n).refund ((k.insertFree n).memitemSize n)).release
      (first ++ ⟨size, true⟩ :: ⟨c, false⟩ :: rest) (n :: xs) ∧
    OnlyAvailable h ((k.insertFree n).refund ((k.insertFree n).memitemSize n)) := by
  have shape : first ++ ⟨size, true⟩ :: ⟨c, false⟩ :: rest = (first ++ [⟨size, true⟩]) ++ ⟨c, false⟩ :: rest := by
    simp
  have start : k.startAddr = h.startAddr := only.region.startAddr
  have place' : n = k.startAddr + span itemSpan (first ++ [⟨size, true⟩]) := by
    simp only [start, span_append, span_cons, span_nil, itemSpan]
    omega
  rw [shape] at held short ⊢
  obtain ⟨last, pending⟩ := held.giveBack place' out short
    ⟨coalesced_used.mpr ⟨sides.1, List.IsChain.nil⟩, sides.2⟩
    (by
      intro q
      rw [others q, start, at_mid]
      simp [At])
  have whole := only.trans last
  refine ⟨?_, whole⟩
  apply pending.repr repr.toCounted whole _ List.mem_cons_self _ after
  · rwa [← short]
  · simp

theorem Repr.cutBlock (repr : Repr h (first ++ ⟨size + 24 + d, true⟩ :: rest) free)
    (place : p = h.startAddr + span itemSpan first) (aligned : 8 ∣ size) :
    add32 (add32 p size) rtMemheapSize = p + 24 + size ∧ p + 24 + size ∉ free ∧
      ∃ k, k = h.splitBlock p (p + 24 + size) ∧ SameObject h k ∧
        Held k (first ++ ⟨size, true⟩ :: ⟨d, false⟩ :: rest) free := by
  have bounds := repr.size
  have top := repr.top
  simp only [span_append, span_cons, itemSpan] at bounds
  refine ⟨?_, ?_, _, rfl, sameObject_splitBlock, repr.toHeld.splitBlock place rfl aligned⟩
  · rw [rtMemheapSize_eq]
    simp only [add32]
    omega
  · intro member
    have apart := (repr.toGround.split aligned false).part_fresh
    rw [← place] at apart
    exact apart (repr.within _ member)

theorem at_true_cut : At true start (first ++ ⟨size, true⟩ :: ⟨d, false⟩ :: rest) q ↔
    At true start (first ++ ⟨size + 24 + d, true⟩ :: rest) q := by
  have further : start + span itemSpan first + 24 + size + 24 + d =
      start + span itemSpan first + 24 + (size + 24 + d) := by omega
  rw [at_mid, at_cons, at_mid, further]
  simp only [Bool.false_eq_true, and_false, false_or]

theorem Repr.shrink_alone (repr : Repr h (first ++ ⟨size + 24 + d, true⟩ :: rest) free)
    (place : p = h.startAddr + span itemSpan first) (aligned : 8 ∣ size)
    (used : ∀ b ∈ rest.head?, b.used = true) :
    Repr (shrinkInPlace h p size).release (first ++ ⟨size, true⟩ :: ⟨d, false⟩ :: rest)
      ((p + 24 + size) :: free) ∧ OnlyAvailable h (shrinkInPlace h p size) := by
  obtain ⟨new, fresh, k, made, same, cut⟩ := repr.cutBlock place aligned
  have start : k.startAddr = h.startAddr := same.startAddr
  have behind : ¬k.isUsed (k.get (p + 24 + size) .next) = false := by
    have shape : first ++ ⟨size, true⟩ :: ⟨d, false⟩ :: rest =
        (first ++ [⟨size, true⟩]) ++ ⟨d, false⟩ :: rest := by simp
    have whole : Held k ((first ++ [⟨size, true⟩]) ++ ⟨d, false⟩ :: rest) free := shape ▸ cut
    rw [whole.next_used _ used]
    · decide
    · simp only [start, span_append, span_cons, span_nil, itemSpan]
      omega
  rw [shrinkInPlace, new, ← made]
  simp only [if_neg behind]
  obtain ⟨before, tail⟩ := coalesced_used.mp repr.coalesced
  have available : k.availableSize = freeSpace (first ++ ⟨size + 24 + d, true⟩ :: rest) :=
    same.availableSize.trans repr.available
  apply repr.cutOff same.onlyAvailable cut (by rw [place]) fresh _ _ ⟨before, tail⟩ used
  · intro q
    have further : p + 24 + size + 24 + d = p + 24 + (size + 24 + d) := by omega
    rw [repr.listed q, at_mid, ← place, further]
    simp
  · rw [available]
    simp only [freeSpace_append, freeSpace, Bool.false_eq_true, if_false, if_true]
    omega
  · rw [available]
    exact Nat.le_add_right _ _

theorem Repr.shrink_joined (repr : Repr h (first ++ ⟨size + 24 + d, true⟩ :: ⟨e, false⟩ :: rest) free)
    (place : p = h.startAddr + span itemSpan first) (aligned : 8 ∣ size) : ∃ free',
    Repr (shrinkInPlace h p size).release (first ++ ⟨size, true⟩ :: ⟨d + 24 + e, false⟩ :: rest) free' ∧
      OnlyAvailable h (shrinkInPlace h p size) := by
  obtain ⟨new, fresh, k, made, same, cut⟩ := repr.cutBlock place aligned
  have start : k.startAddr = h.startAddr := same.startAddr
  have shape : first ++ ⟨size, true⟩ :: ⟨d, false⟩ :: ⟨e, false⟩ :: rest =
      (first ++ [⟨size, true⟩]) ++ ⟨d, false⟩ :: ⟨e, false⟩ :: rest := by simp
  have behind : first ++ ⟨size + 24 + d, true⟩ :: ⟨e, false⟩ :: rest =
      (first ++ [⟨size + 24 + d, true⟩]) ++ ⟨e, false⟩ :: rest := by simp
  have place' : p + 24 + size = k.startAddr + span itemSpan (first ++ [⟨size, true⟩]) := by
    simp only [start, span_append, span_cons, span_nil, itemSpan]
    omega
  have further : p + 24 + size + 24 + d = h.startAddr + span itemSpan (first ++ [⟨size + 24 + d, true⟩]) := by
    simp only [span_append, span_cons, span_nil, itemSpan]
    omega
  have inside : p + 24 + size + 24 + d ∈ free := by
    rw [repr.listed, behind, at_mid]
    exact Or.inr (Or.inl ⟨further, rfl⟩)
  obtain ⟨xs, ys, rfl⟩ := List.append_of_mem inside
  have whole : Repr h ((first ++ [⟨size + 24 + d, true⟩]) ++ ⟨e, false⟩ :: rest) _ := behind ▸ repr
  rw [shape] at cut
  have next : k.get (p + 24 + size) .next = p + 24 + size + 24 + d := (cut.part_links place' rfl).1
  obtain ⟨unused, capacity⟩ : k.isUsed (p + 24 + size + 24 + d) = false ∧
      k.memitemSize (p + 24 + size + 24 + d) = e := by
    have last : (first ++ [⟨size, true⟩]) ++ ⟨d, false⟩ :: ⟨e, false⟩ :: rest =
        (first ++ [⟨size, true⟩, ⟨d, false⟩]) ++ ⟨e, false⟩ :: rest := by simp
    have here : p + 24 + size + 24 + d = k.startAddr + span itemSpan (first ++ [⟨size, true⟩, ⟨d, false⟩]) := by
      simp only [start, span_append, span_cons, span_nil, itemSpan]
      omega
    rw [last] at cut
    exact ⟨cut.isUsed_eq here, cut.memitemSize_eq here⟩
  have available := repr.available
  have fits := repr.toGround.freeSpace_le
  have word := repr.word
  simp only [freeSpace_append, freeSpace, Bool.false_eq_true, if_false, if_true] at available fits
  have less : sub32 k.availableSize e = h.availableSize - e := by
    rw [same.availableSize]
    exact sub32_eq (by omega) (by omega)
  rw [shrinkInPlace, new, ← made]
  simp only [next, if_pos unused, capacity, less]
  have adjusted : Held { k with availableSize := h.availableSize - e } _ _ := cut.adjust _ k.maxUsedSize k.levels
  have joined := adjusted.absorbNext place' rfl
  have same' : SameObject { k with availableSize := h.availableSize - e }
      (({ k with availableSize := h.availableSize - e } : Heap).absorbNext (p + 24 + size)) :=
    ((sameObject_set _ _ _ _).trans (sameObject_set _ _ _ _)).trans sameObject_removeFree
  have only : OnlyAvailable h { k with availableSize := h.availableSize - e } := by
    unfold OnlyAvailable
    rw [same]
  generalize ({ k with availableSize := h.availableSize - e } : Heap).absorbNext (p + 24 + size) = m
    at joined same'
  have shape' : (first ++ [⟨size, true⟩]) ++ ⟨d + 24 + e, false⟩ :: rest =
      first ++ ⟨size, true⟩ :: ⟨d + 24 + e, false⟩ :: rest := by simp
  rw [shape'] at joined
  have left : m.availableSize = h.availableSize - e := same'.availableSize
  obtain ⟨before, tail⟩ := coalesced_used.mp repr.coalesced
  obtain ⟨-, after, -, head⟩ := (@coalesced_free [] _ _).mp tail
  have out : p + 24 + size ∉ xs ++ ys := by
    simp only [List.mem_append, List.mem_cons, not_or] at fresh ⊢
    exact ⟨fresh.1, fresh.2.2⟩
  refine ⟨_, repr.cutOff (only.trans same'.onlyAvailable) joined (by rw [place]) out ?_ ?_ ⟨before, after⟩ head ?_⟩
  · rw [left]
    simp only [freeSpace_append, freeSpace, Bool.false_eq_true, if_false, if_true]
    omega
  · rw [left]
    simp only [freeSpace_append, freeSpace, Bool.false_eq_true, if_false, if_true]
    omega
  · intro q
    have stop : p + 24 + size + 24 + (d + 24 + e) = p + 24 + size + 24 + d + 24 + e := by omega
    rw [whole.others further q, at_mid, stop]
    simp [At]

theorem Repr.shrink (repr : Repr h (first ++ ⟨size + 24 + d, true⟩ :: rest) free)
    (place : p = h.startAddr + span itemSpan first) (aligned : 8 ∣ size) : ∃ blocks' free',
    Repr (shrinkInPlace h p size).release blocks' free' ∧
      SameRegion h (shrinkInPlace h p size).release ∧
      ∀ q, At true h.startAddr blocks' q ↔ At true h.startAddr (first ++ ⟨size + 24 + d, true⟩ :: rest) q := by
  by_cases used : ∀ b ∈ rest.head?, b.used = true
  · obtain ⟨repr', only⟩ := repr.shrink_alone place aligned used
    exact ⟨_, _, repr', only.region.trans (sameRegion_release _), fun q => at_true_cut⟩
  · match rest with
    | [] | ⟨e, true⟩ :: rest => exact absurd (by simp) used
    | ⟨e, false⟩ :: rest =>
      obtain ⟨free', repr', only⟩ := repr.shrink_joined place aligned
      refine ⟨_, free', repr', only.region.trans (sameRegion_release _), fun q => ?_⟩
      have shape : first ++ ⟨size, true⟩ :: ⟨d, false⟩ :: ⟨e, false⟩ :: rest =
          (first ++ [⟨size, true⟩]) ++ ⟨d, false⟩ :: ⟨e, false⟩ :: rest := by simp
      have shape' : (first ++ [⟨size, true⟩]) ++ ⟨d + 24 + e, false⟩ :: rest =
          first ++ ⟨size, true⟩ :: ⟨d + 24 + e, false⟩ :: rest := by simp
      rw [← at_true_cut, shape, at_true_parts, shape']

/-! ## Writes into a block -/

theorem offset_lt (f : Field) : f.offset < 24 := by
  cases f <;> decide

theorem Ground.data_apart (ground : Ground h blocks)
    (entry : (p, ⟨c, u⟩) ∈ layout itemSpan h.startAddr blocks) (inside : q ∈ h.headers blocks) :
    q + 24 ≤ p + 24 ∨ p + 24 + c ≤ q := by
  have bounds := layout_bounds itemSpan entry
  have size := ground.size
  have apart := ground.apart
  simp only [itemSpan] at bounds size
  simp only [Heap.headers, List.mem_cons] at inside
  rcases inside with rfl | rfl | place
  · omega
  · unfold Heap.tail
    omega
  · obtain ⟨b, other⟩ := (mem_starts itemSpan).mp place
    rcases layout_separate itemSpan entry other with same | low | high
    · cases same
      exact Or.inl (Nat.le_refl _)
    · simp only [itemSpan] at low
      omega
    · simp only [itemSpan] at high
      omega

theorem Repr.write (repr : Repr h blocks free) (entry : (p, ⟨c, u⟩) ∈ layout itemSpan h.startAddr blocks)
    (same : SameObject h h') (rest : ∀ a, ¬(p + 24 ≤ a ∧ a < p + 24 + c) → h'.mem a = h.mem a) :
    Repr h' blocks free := by
  have held : Held h' blocks free := by
    apply repr.toHeld.congr same
    intro q inside f
    have apart := repr.toGround.data_apart entry inside
    have short := offset_lt f
    apply rest
    omega
  refine ⟨held, ?_, ?_, repr.coalesced⟩
  · have counted := repr.toCounted
    rw [same]
    exact ⟨counted.available, counted.reached, counted.highest, counted.current⟩
  · rw [same.startAddr]
    exact repr.listed

theorem rtMemcpy_other {dst src count a : Nat} (out : ¬(dst ≤ a ∧ a < dst + count)) :
    (rtMemcpy h dst src count).mem a = h.mem a := if_neg out

/-! ## The whole call -/

/-- What a call on the block at `p` makes of the used blocks. -/
def Rehomes (start p newsize : Nat) (blocks blocks' : List Block) : Option Nat → Prop
  | none => ∀ q, At true start blocks' q ↔ At true start blocks q ∧ ¬(newsize = 0 ∧ q = p)
  | some ptr => ∃ n, ptr = n + 24 ∧
      ∀ q, At true start blocks' q ↔ At true start blocks q ∧ q ≠ p ∨ q = n

theorem rehomes_same {newsize : Nat} (here : At true start blocks p)
    (same : ∀ q, At true start blocks' q ↔ At true start blocks q) :
    Rehomes start p newsize blocks blocks' (some (p + 24)) := by
  refine ⟨p, rfl, fun q => ?_⟩
  rw [same]
  by_cases own : q = p
  · subst own
    simp [here]
  · simp [own]

theorem Held.next_free (held : Held h (first ++ ⟨c, u⟩ :: rest) free) (place : p = h.startAddr + span itemSpan first)
    (unused : h.isUsed (h.get p .next) = false) : ∃ d rest', rest = ⟨d, false⟩ :: rest' := by
  match rest with
  | [] | ⟨d, true⟩ :: rest =>
    rw [held.next_used place (by simp)] at unused
    cases unused
  | ⟨d, false⟩ :: rest => exact ⟨d, rest, rfl⟩

theorem Held.next_size (held : Held h (first ++ ⟨c, u⟩ :: ⟨d, v⟩ :: rest) free)
    (place : p = h.startAddr + span itemSpan first) : h.memitemSize (p + 24 + c) = d := by
  have shape : first ++ ⟨c, u⟩ :: ⟨d, v⟩ :: rest = (first ++ [⟨c, u⟩]) ++ ⟨d, v⟩ :: rest := by simp
  rw [shape] at held
  apply held.memitemSize_eq
  simp only [span_append, span_cons, span_nil, itemSpan]
  omega

section
variable (bestMode : Bool)

theorem rtMemheapRealloc_live {ptr newsize : Nat} (header : sub32 ptr rtMemheapSize = p) (some' : newsize ≠ 0) :
    rtMemheapRealloc bestMode h (some ptr) newsize =
      if requestSize newsize > h.memitemSize p then
        if h.get p .next > p then
          if h.isUsed (h.get p .next) = false ∧
              add32 (h.memitemSize (h.get p .next)) (h.memitemSize p) > add32 (requestSize newsize) rtMemheapMinialloc then
            some ((growInPlace h p ptr (h.memitemSize p) (requestSize newsize)).release, some ptr)
          else moveBlock bestMode h.release ptr (h.memitemSize p) (requestSize newsize)
        else none
      else if add32 (add32 (requestSize newsize) rtMemheapSize) rtMemheapMinialloc ≥ h.memitemSize p then
        some (h, some ptr)
      else some ((shrinkInPlace h p (requestSize newsize)).release, some ptr) := by
  rw [rtMemheapRealloc, if_neg some']
  simp only [header]

theorem Repr.move (repr : Repr h blocks free) (here : At true h.startAddr blocks p) {oldsize newsize : Nat}
    (some' : newsize ≠ 0) : ∃ h' result blocks' free',
    moveBlock bestMode h (p + 24) oldsize (requestSize newsize) = some (h', result) ∧ Repr h' blocks' free' ∧
      SameRegion h h' ∧ Rehomes h.startAddr p newsize blocks blocks' result := by
  obtain ⟨h₁, result, blocks₁, free₁, code, repr₁, region₁, gains⟩ := repr.alloc (requestSize newsize)
  rw [requestSize_idem] at gains
  rw [moveBlock, code]
  cases result with
  | none =>
    have same : blocks₁ = blocks := gains
    rw [same] at repr₁
    exact ⟨h₁, none, blocks, free₁, rfl, repr₁, region₁, fun q => by simp [some']⟩
  | some new =>
    obtain ⟨n, c, rfl, fit, entry, fresh, gained⟩ := gains
    have count : (if oldsize < requestSize newsize then oldsize else requestSize newsize) ≤ c := by
      split <;> omega
    rw [← region₁.startAddr] at entry
    obtain ⟨h₂, made⟩ : ∃ h₂, h₂ = rtMemcpy h₁ (n + 24) (p + 24)
      (if oldsize < requestSize newsize then oldsize else requestSize newsize) := ⟨_, rfl⟩
    have same : SameObject h₁ h₂ := made ▸ rfl
    have copied : Repr h₂ blocks₁ free₁ := by
      apply repr₁.write entry same
      intro a out
      rw [made]
      apply rtMemcpy_other
      omega
    have start : h₂.startAddr = h.startAddr := same.startAddr.trans region₁.startAddr
    have still : At true h₂.startAddr blocks₁ p := by
      rw [start, gained]
      exact Or.inl here
    obtain ⟨first, d, rest, rfl, place⟩ := still.split
    obtain ⟨h₃, blocks₃, free₃, freed, repr₃, region₃, shrinks⟩ := copied.freed bestMode place
    have other : n ≠ p := by
      rintro rfl
      exact fresh here
    refine ⟨h₃, some (n + 24), blocks₃, free₃, ?_, repr₃,
      (region₁.trans same.region).trans region₃, n, rfl, fun q => ?_⟩
    · simp only [← made, freed]
      rfl
    rw [start] at shrinks
    rw [shrinks, gained]
    constructor
    · rintro ⟨old | new, apart⟩
      · exact Or.inl ⟨old, apart⟩
      · exact Or.inr new
    · rintro (⟨old, apart⟩ | rfl)
      · exact ⟨Or.inl old, apart⟩
      · exact ⟨Or.inr rfl, other⟩

/-- The aligned size of a request leaves `RT_MEMHEAP_MINIALLOC` below the end of the address space. -/
def SmallRequest (newsize : Nat) : Prop := Config.board.rtAlign newsize + rtMemheapMinialloc < 2 ^ 32

instance (newsize : Nat) : Decidable (SmallRequest newsize) := inferInstanceAs (Decidable (_ < _))

theorem SmallRequest.request {newsize : Nat} (small : SmallRequest newsize) : requestSize newsize + 16 < 2 ^ 32 := by
  rw [SmallRequest, rtMemheapMinialloc_eq] at small
  rw [requestSize, rtMemheapMinialloc_eq]
  split <;> omega

theorem Repr.realloc (repr : Repr h blocks free) (here : At true h.startAddr blocks p) {newsize : Nat}
    (fits : h.isUsed (h.get p .next) = true ∨ SmallRequest newsize) : ∃ h' result blocks' free',
    rtMemheapRealloc bestMode h (some (p + 24)) newsize = some (h', result) ∧ Repr h' blocks' free' ∧
      SameRegion h h' ∧ Rehomes h.startAddr p newsize blocks blocks' result := by
  obtain ⟨first, c, rest, rfl, place⟩ := here.split
  have bounds := repr.size
  have top := repr.top
  simp only [span_append, span_cons, itemSpan] at bounds
  have header : sub32 (p + 24) rtMemheapSize = p := by
    rw [rtMemheapSize_eq, sub32]
    omega
  by_cases some' : newsize = 0
  · subst some'
    obtain ⟨h', blocks', free', freed, repr', region, shrinks⟩ := repr.freed bestMode place
    rw [rtMemheapRealloc, if_pos rfl, freed]
    refine ⟨h', none, blocks', free', rfl, repr', region, fun q => ?_⟩
    rw [shrinks]
    simp
  · have aligned := requestSize_dvd newsize
    have word := requestSize_lt newsize
    rw [rtMemheapRealloc_live bestMode header some', repr.toHeld.memitemSize_eq place,
      (repr.toHeld.around place).1]
    by_cases larger : requestSize newsize > c
    · have behind : p + 24 + c > p := by omega
      rw [if_pos larger, if_pos behind]
      by_cases grows : h.isUsed (p + 24 + c) = false ∧
          add32 (h.memitemSize (p + 24 + c)) c > add32 (requestSize newsize) rtMemheapMinialloc
      · obtain ⟨unused, room⟩ := grows
        rw [if_pos ⟨unused, room⟩]
        have next := (repr.toHeld.around place).1
        have small : requestSize newsize + 16 < 2 ^ 32 := by
          rcases fits with used | small
          · rw [next, unused] at used
            cases used
          · exact small.request
        obtain ⟨d, rest, rfl⟩ := repr.toHeld.next_free place (next ▸ unused)
        have own : h.memitemSize (p + 24 + c) = d := repr.toHeld.next_size place
        simp only [span_cons, itemSpan] at bounds
        rw [own, rtMemheapMinialloc_eq, add32_eq small, add32_eq (by omega)] at room
        obtain ⟨e, total⟩ : ∃ e, c + d = requestSize newsize + e := ⟨c + d - requestSize newsize, by omega⟩
        obtain ⟨repr', region⟩ := repr.grow place aligned larger total
        refine ⟨_, _, _, _, rfl, repr', region, rehomes_same here fun q => ?_⟩
        have further : h.startAddr + span itemSpan first + 24 + requestSize newsize + 24 + e =
            h.startAddr + span itemSpan first + 24 + c + 24 + d := by omega
        rw [at_mid, at_cons, at_mid, at_cons, further]
        simp only [Bool.false_eq_true, and_false, false_or]
      · rw [if_neg grows]
        obtain ⟨h', result, blocks', free', code, repr', region, moves⟩ := repr.release.move bestMode here some'
        exact ⟨h', result, blocks', free', code, repr', (sameRegion_release h).trans region, moves⟩
    · rw [if_neg larger]
      by_cases tight : add32 (add32 (requestSize newsize) rtMemheapSize) rtMemheapMinialloc ≥ c
      · rw [if_pos tight]
        exact ⟨h, _, _, free, rfl, repr, ⟨rfl, rfl, rfl, rfl⟩, rehomes_same here fun q => Iff.rfl⟩
      · rw [if_neg tight]
        have left : requestSize newsize + 40 < c := by
          rw [rtMemheapSize_eq, rtMemheapMinialloc_eq, add32, add32] at tight
          omega
        obtain ⟨d, rfl⟩ : ∃ d, c = requestSize newsize + 24 + d := ⟨c - (requestSize newsize + 24), by omega⟩
        obtain ⟨blocks', free', repr', region, same⟩ := repr.shrink place aligned
        exact ⟨_, _, blocks', free', rfl, repr', region, rehomes_same here same⟩

end

end RtThread.Memheap
