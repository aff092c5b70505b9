import RtThread.Memheap.Blocks

/-! What each sequence of writes of `memheap.c` does to the list of blocks and to the free list. -/

set_option autoImplicit false
namespace RtThread.Memheap
open Lib
open List (mem_cons_of_mem mem_cons mem_append nodup_cons)
open Mem (Block)

variable {h h' : Heap} {blocks blocks' first rest : List Block} {free free' xs ys : List Nat}
  {c d p n : Nat} {u v : Bool}

theorem headers_list : h.freeList ∈ h.headers blocks := List.mem_cons_self

theorem headers_tail : h.tail ∈ h.headers blocks := mem_cons_of_mem _ List.mem_cons_self

theorem headers_place (inside : p ∈ h.places blocks) : p ∈ h.headers blocks :=
  mem_cons_of_mem _ (mem_cons_of_mem _ inside)

theorem places_marked : h.places (first ++ ⟨c, u⟩ :: rest) = h.places (first ++ ⟨c, v⟩ :: rest) := by
  rw [places_split, places_split]
  rfl

namespace Held

theorem adjust (held : Held h blocks free) (available maxUsed : Nat) (levels : List Nat) :
    Held { h with availableSize := available, maxUsedSize := maxUsed, levels := levels } blocks free where
  size := held.size
  top := held.top
  word := held.word
  apart := held.apart
  first := held.first
  aligned := held.aligned
  chain := held.chain
  frees := held.frees
  within := held.within
  marks := held.marks
  tailMark := held.tailMark

theorem known (held : Held h blocks free) : ∀ q ∈ h.freeList :: free, q ∈ h.headers blocks := by
  intro q inside
  rcases mem_cons.mp inside with rfl | inside
  · exact headers_list
  · exact headers_place (held.within q inside)

theorem known_chain : ∀ q ∈ h.tail :: h.places blocks, q ∈ h.headers blocks :=
  fun _ inside => mem_cons_of_mem _ inside

theorem relinkFree (held : Held h blocks free) (same : SameObject h h')
    (circle : Circle (h'.get · .nextFree) (h'.get · .prevFree) h.freeList free')
    (within : ∀ q ∈ free', q ∈ h.places blocks)
    (rest : ∀ q ∈ h.headers blocks, ∀ g, g ≠ .nextFree → g ≠ .prevFree → h'.get q g = h.get q g) :
    Held h' blocks free' where
  toGround := same.ground held.toGround
  chain := by
    rw [same.tail, same.places]
    apply circle_of_rest held.chain known_chain
    exact fun q inside => ⟨rest q inside .next (by decide) (by decide), rest q inside .prev (by decide) (by decide)⟩
  frees := by rwa [same.freeList]
  within := by rwa [same.places]
  marks := by
    rw [same.startAddr]
    apply held.marks.congr same.addr
    intro q inside
    have header : q ∈ h.headers blocks := headers_place inside
    exact ⟨rest q header .magic (by decide) (by decide), rest q header .poolPtr (by decide) (by decide)⟩
  tailMark := by
    rw [same.tail, rest _ headers_tail .magic (by decide) (by decide)]
    exact held.tailMark

theorem relinkBlocks (held : Held h blocks free) (same : SameObject h h') (ground : Ground h blocks')
    (circle : Circle (h'.get · .next) (h'.get · .prev) h.tail (h.places blocks'))
    (within : ∀ q ∈ free, q ∈ h.places blocks') (marks : Marked h h.startAddr blocks')
    (rest : ∀ q ∈ h.headers blocks', ∀ g, g ≠ .next → g ≠ .prev → h'.get q g = h.get q g) :
    Held h' blocks' free where
  toGround := same.ground ground
  chain := by rwa [same.tail, same.places]
  frees := by
    rw [same.freeList]
    apply held.frees.congr
    intro q inside
    have header : q ∈ h.headers blocks' := by
      rcases mem_cons.mp inside with rfl | inside
      · exact headers_list
      · exact headers_place (within q inside)
    exact ⟨rest q header .nextFree (by decide) (by decide), rest q header .prevFree (by decide) (by decide)⟩
  within := by rwa [same.places]
  marks := by
    rw [same.startAddr]
    apply marks.congr same.addr
    intro q inside
    have header : q ∈ h.headers blocks' := headers_place inside
    exact ⟨rest q header .magic (by decide) (by decide), rest q header .poolPtr (by decide) (by decide)⟩
  tailMark := by
    rw [same.tail, rest _ headers_tail .magic (by decide) (by decide)]
    exact held.tailMark

theorem setMagic (held : Held h (first ++ ⟨c, u⟩ :: rest) free) (place : p = h.startAddr + span itemSpan first)
    (v : Bool) : Held (h.set p .magic (magicOf v)) (first ++ ⟨c, v⟩ :: rest) free := by
  have spaced := held.toGround.spaced
  have inside : p ∈ h.places (first ++ ⟨c, u⟩ :: rest) := place ▸ places_mid h first rest _
  have pS := headers_place inside
  have same := sameObject_set h p .magic (magicOf v)
  have link : ∀ q ∈ h.headers (first ++ ⟨c, u⟩ :: rest), ∀ g, g ≠ .magic →
      (h.set p .magic (magicOf v)).get q g = h.get q g :=
    fun q qS g other => spaced.get_set_field pS qS other
  constructor
  · constructor
    · have size := held.size
      simpa [itemSpan, Heap.set, Heap.store] using size
    · exact held.top
    · exact held.word
    · exact held.apart
    · exact held.first
    · intro b member
      have aligned := held.aligned
      simp only [mem_append, mem_cons] at member aligned
      rcases member with member | rfl | member
      · exact aligned b (Or.inl member)
      · exact aligned ⟨c, u⟩ (Or.inr (Or.inl rfl))
      · exact aligned b (Or.inr (Or.inr member))
  · rw [same.tail, same.places, places_marked]
    apply circle_of_rest held.chain known_chain
    exact fun q qS => ⟨link q qS .next (by decide), link q qS .prev (by decide)⟩
  · apply circle_of_rest held.frees held.known
    exact fun q qS => ⟨link q qS .nextFree (by decide), link q qS .prevFree (by decide)⟩
  · rw [same.places, places_marked]
    exact held.within
  · have others : ∀ q ∈ h.places (first ++ ⟨c, u⟩ :: rest), q ≠ p →
        (h.set p .magic (magicOf v)).get q .magic = h.get q .magic ∧
          (h.set p .magic (magicOf v)).get q .poolPtr = h.get q .poolPtr := by
      intro q qP other
      exact ⟨spaced.get_set_other pS (headers_place qP) other, link q (headers_place qP) .poolPtr (by decide)⟩
    have nodup := held.chain.nodup
    rw [places_split, ← place] at nodup others
    obtain ⟨before, own, after⟩ := by simpa only [marked_append, marked_cons] using held.marks
    apply marked_append.mpr
    refine ⟨before.congr same.addr ?_, marked_cons.mpr ⟨?_, after.congr same.addr ?_⟩⟩
    · intro q qP
      apply others q (List.mem_append_left _ qP)
      rintro rfl
      have apart := (List.nodup_append.mp (nodup_cons.mp nodup).2).2.2
      exact apart q qP q List.mem_cons_self rfl
    · rw [← place] at own
      rw [same.startAddr, ← place]
      exact ⟨spaced.get_set_self pS, (link p pS .poolPtr (by decide)).trans own.2⟩
    · intro q qP
      have back : q ∈ starts itemSpan (p + itemSpan ⟨c, u⟩) rest := by
        rw [place]
        exact qP
      apply others q (List.mem_append_right _ (mem_cons_of_mem _ back))
      rintro rfl
      have unique := (List.nodup_append.mp (nodup_cons.mp nodup).2).2.1
      exact (nodup_cons.mp unique).1 back
  · rw [same.tail, spaced.get_set_other pS headers_tail (held.toGround.apart_list inside).2.symm]
    exact held.tailMark

/-! ## The free list -/

theorem setFree (held : Held h blocks free) (inside : p ∈ h.places blocks) (out : p ∉ free) (f : Field)
    (link : f = .nextFree ∨ f = .prevFree) (value : Nat) : Held (h.set p f value) blocks free := by
  have spaced := held.toGround.spaced
  have pS := headers_place inside
  apply held.relinkFree (sameObject_set h p f value)
  · apply held.frees.congr
    intro q member
    have other : q ≠ p := by
      rintro rfl
      rcases mem_cons.mp member with own | own
      · exact (held.toGround.apart_list inside).1 own
      · exact out own
    have qS := held.known q member
    exact ⟨spaced.get_set_other pS qS other, spaced.get_set_other pS qS other⟩
  · exact held.within
  · intro q qS g notNext notPrev
    apply spaced.get_set_field pS qS
    rintro rfl
    rcases link with rfl | rfl
    · exact notNext rfl
    · exact notPrev rfl

theorem neighbours (held : Held h blocks (xs ++ ys)) :
    lastOr h.freeList xs ∈ h.headers blocks ∧ firstOr h.freeList ys ∈ h.headers blocks :=
  ⟨held.known _ lastOr_mem_append, held.known _ firstOr_mem_append⟩

theorem removeFree (held : Held h blocks (xs ++ p :: ys)) : Held (h.removeFree p) blocks (xs ++ ys) := by
  have spaced := held.toGround.spaced
  have inside : p ∈ h.places blocks := held.within p (by simp)
  obtain ⟨prev, -, next, -⟩ := held.frees.around
  have known : ∀ q ∈ h.freeList :: (xs ++ ys), q ∈ h.headers blocks := by
    intro q member
    apply held.known q
    simp only [mem_cons, mem_append] at member ⊢
    tauto
  have fresh : p ≠ firstOr h.freeList ys := by
    have once := held.frees.once
    simp only [mem_cons, mem_append, not_or] at once
    exact ne_firstOr (by simp [once])
  have unhangs : Unhangs (h.headers blocks) .nextFree .prevFree h (h.removeFree p)
      (lastOr h.freeList xs) (firstOr h.freeList ys) :=
    unhangs_removeFree spaced (headers_place inside) (known _ lastOr_mem_append)
      (known _ firstOr_mem_append) ⟨prev, next⟩ fresh
  apply held.relinkFree unhangs.object (unhangs.circle held.frees known)
  · intro q member
    apply held.within q
    simp only [mem_append, mem_cons] at member ⊢
    tauto
  · exact unhangs.rest

theorem hangFree (held : Held h blocks (xs ++ ys)) (inside : p ∈ h.places blocks) (out : p ∉ xs ++ ys)
    (hangs : Hangs (h.headers blocks) .nextFree .prevFree h h' (lastOr h.freeList xs) p
      (firstOr h.freeList ys)) : Held h' blocks (xs ++ p :: ys) := by
  have fresh : p ∉ h.freeList :: (xs ++ ys) := by
    rw [mem_cons, not_or]
    exact ⟨(held.toGround.apart_list inside).1, out⟩
  apply held.relinkFree hangs.object (hangs.circle held.frees held.known fresh)
  · intro q member
    rcases mem_append.mp member with member | member
    · exact held.within q (List.mem_append_left _ member)
    · rcases mem_cons.mp member with rfl | member
      · exact inside
      · exact held.within q (List.mem_append_right _ member)
  · exact hangs.rest

theorem insertBefore (held : Held h blocks (xs ++ ys)) (inside : p ∈ h.places blocks) (out : p ∉ xs ++ ys) :
    Held (insertBefore h p (firstOr h.freeList ys)) blocks (xs ++ p :: ys) := by
  obtain ⟨beforeS, afterS⟩ := held.neighbours
  apply held.hangFree inside out
  apply hangs_insertBefore held.toGround.spaced (headers_place inside) beforeS afterS held.frees.meet.2
  have list := (held.toGround.apart_list inside).1
  rw [mem_append, not_or] at out
  exact ⟨ne_lastOr (by simp [list, out]), ne_firstOr (by simp [list, out])⟩

theorem insertFree (held : Held h blocks free) (inside : p ∈ h.places blocks) (out : p ∉ free) :
    Held (h.insertFree p) blocks (p :: free) := by
  have whole : Held h blocks ([] ++ free) := held
  obtain ⟨-, afterS⟩ := whole.neighbours
  have list := (held.toGround.apart_list inside).1
  apply whole.hangFree inside out
  apply hangs_insertFree held.toGround.spaced (headers_place inside) headers_list afterS held.frees.meet_hub.1
  exact ⟨list, ne_firstOr (by simp [list, out])⟩

end Held

/-! ## One block and its two parts -/

section
variable (h first rest c d u v)

theorem span_parts : span itemSpan (first ++ ⟨c, u⟩ :: ⟨d, v⟩ :: rest) =
    span itemSpan (first ++ ⟨c + 24 + d, u⟩ :: rest) := by
  simp only [span_append, span_cons, itemSpan]
  omega

theorem places_parts : h.places (first ++ ⟨c, u⟩ :: ⟨d, v⟩ :: rest) =
    (h.places first ++ [h.startAddr + span itemSpan first]) ++
      (h.startAddr + span itemSpan first + 24 + c) ::
        starts itemSpan (h.startAddr + span itemSpan first + 24 + c + 24 + d) rest := by
  rw [places_split, starts_cons, List.append_assoc, itemSpan, itemSpan, ← Nat.add_assoc, ← Nat.add_assoc]
  rfl

theorem places_whole : h.places (first ++ ⟨c + 24 + d, u⟩ :: rest) =
    (h.places first ++ [h.startAddr + span itemSpan first]) ++
      starts itemSpan (h.startAddr + span itemSpan first + 24 + c + 24 + d) rest := by
  rw [places_split, List.append_assoc, itemSpan, ← Nat.add_assoc, ← Nat.add_assoc, ← Nat.add_assoc]
  rfl

theorem marked_parts : Marked h h.startAddr (first ++ ⟨c, u⟩ :: ⟨d, v⟩ :: rest) ↔
    Marked h h.startAddr (first ++ ⟨c + 24 + d, u⟩ :: rest) ∧
      h.get (h.startAddr + span itemSpan first + 24 + c) .magic = magicOf v ∧
        h.get (h.startAddr + span itemSpan first + 24 + c) .poolPtr = h.addr := by
  have one : h.startAddr + span itemSpan first + itemSpan ⟨c, u⟩ =
      h.startAddr + span itemSpan first + 24 + c := by simp only [itemSpan, Nat.add_assoc]
  have two : h.startAddr + span itemSpan first + 24 + c + itemSpan ⟨d, v⟩ =
      h.startAddr + span itemSpan first + itemSpan ⟨c + 24 + d, u⟩ := by
    simp only [itemSpan]
    omega
  rw [marked_append, marked_append, marked_cons, marked_cons, marked_cons, one, two]
  tauto

end

theorem Ground.join (ground : Ground h (first ++ ⟨c, u⟩ :: ⟨d, v⟩ :: rest)) :
    Ground h (first ++ ⟨c + 24 + d, u⟩ :: rest) where
  size := by
    rw [← span_parts first rest c d u v]
    exact ground.size
  top := ground.top
  word := ground.word
  apart := ground.apart
  first := ground.first
  aligned := by
    have aligned := ground.aligned
    simp only [mem_append, mem_cons] at aligned ⊢
    rintro b (member | rfl | member)
    · exact aligned b (Or.inl member)
    · have one := aligned ⟨c, u⟩ (Or.inr (Or.inl rfl))
      have two := aligned ⟨d, v⟩ (Or.inr (Or.inr (Or.inl rfl)))
      simp only at one two ⊢
      omega
    · exact aligned b (Or.inr (Or.inr (Or.inr member)))

theorem Ground.split (ground : Ground h (first ++ ⟨c + 24 + d, u⟩ :: rest)) (fits : 8 ∣ c) (v : Bool) :
    Ground h (first ++ ⟨c, u⟩ :: ⟨d, v⟩ :: rest) where
  size := by
    rw [span_parts first rest c d u v]
    exact ground.size
  top := ground.top
  word := ground.word
  apart := ground.apart
  first := ground.first
  aligned := by
    have aligned := ground.aligned
    have whole := aligned ⟨c + 24 + d, u⟩ (by simp)
    simp only [mem_append, mem_cons] at aligned whole ⊢
    rintro b (member | rfl | rfl | member)
    · exact aligned b (Or.inl member)
    · exact fits
    · simp only
      omega
    · exact aligned b (Or.inr (Or.inr member))

theorem Ground.nodup (ground : Ground h blocks) : (h.tail :: h.places blocks).Nodup := by
  have increasing := starts_increasing itemSpan itemSpan_pos h.startAddr blocks
  rw [ground.tail_eq] at increasing
  have nodup : (h.places blocks ++ [h.tail]).Nodup := increasing.imp fun below => Nat.ne_of_lt below
  exact (List.perm_append_singleton h.tail (h.places blocks)).nodup_iff.mp nodup

/-! ## The block list -/

namespace Held

theorem congr (held : Held h blocks free) (same : SameObject h h')
    (all : ∀ q ∈ h.headers blocks, ∀ g, h'.get q g = h.get q g) : Held h' blocks free := by
  apply held.relinkFree same _ held.within fun q inside g _ _ => all q inside g
  apply circle_of_rest held.frees held.known
  exact fun q inside => ⟨all q inside .nextFree, all q inside .prevFree⟩

theorem splitBlock (held : Held h (first ++ ⟨c + 24 + d, u⟩ :: rest) free)
    (place : p = h.startAddr + span itemSpan first) (new : n = p + 24 + c) (aligned : 8 ∣ c) :
    Held (h.splitBlock p n) (first ++ ⟨c, u⟩ :: ⟨d, false⟩ :: rest) free := by
  have ground := held.toGround.split aligned false
  have spaced := ground.spaced
  have parts := places_parts h first rest c d u false
  have whole := places_whole h first rest c d u
  rw [← place, ← new] at parts whole
  have more : ∀ q ∈ h.headers (first ++ ⟨c + 24 + d, u⟩ :: rest),
      q ∈ h.headers (first ++ ⟨c, u⟩ :: ⟨d, false⟩ :: rest) := by
    intro q
    simp only [Heap.headers, parts, whole, mem_cons, mem_append]
    tauto
  have nS : n ∈ h.headers (first ++ ⟨c, u⟩ :: ⟨d, false⟩ :: rest) := headers_place (by simp [parts])
  have pS : p ∈ h.headers (first ++ ⟨c, u⟩ :: ⟨d, false⟩ :: rest) := headers_place (by simp [parts])
  have fresh : n ∉ h.tail :: ((h.places first ++ [p]) ++ starts itemSpan (n + 24 + d) rest) := by
    have nodup := ground.nodup
    rw [parts] at nodup
    have perm := (List.perm_middle.cons h.tail).trans (List.Perm.swap n h.tail
      ((h.places first ++ [p]) ++ starts itemSpan (n + 24 + d) rest))
    exact (nodup_cons.mp (perm.nodup_iff.mp nodup)).1
  have freshList : n ≠ h.freeList := (ground.apart_list (by simp [parts])).1
  -- the mark and the pool pointer of the new block
  have marked : ∀ q ∈ h.headers (first ++ ⟨c, u⟩ :: ⟨d, false⟩ :: rest), ∀ g,
      (q ≠ n ∨ g ≠ .magic ∧ g ≠ .poolPtr) → (h.markFreed n).get q g = h.get q g := by
    intro q qS g apart
    rw [Heap.markFreed, spaced.get_set nS qS, spaced.get_set nS qS]
    rcases apart with other | ⟨notMagic, notPool⟩
    · simp [other]
    · simp [notMagic, notPool]
  have own : (h.markFreed n).get n .magic = magicOf false ∧ (h.markFreed n).get n .poolPtr = h.addr := by
    constructor
    · rw [Heap.markFreed, spaced.get_set_field nS nS (by decide), spaced.get_set_self nS]
      rfl
    · rw [Heap.markFreed, spaced.get_set_self nS]
      rfl
  have same : SameObject h (h.markFreed n) := rfl
  have mid : Held (h.markFreed n) (first ++ ⟨c + 24 + d, u⟩ :: rest) free := by
    apply held.congr same
    intro q qS g
    apply marked q (more q qS) g
    left
    rintro rfl
    rw [Heap.headers, whole] at qS
    rcases mem_cons.mp qS with list | member
    · exact freshList list
    · exact fresh member
  have chain : Circle ((h.markFreed n).get · .next) ((h.markFreed n).get · .prev) h.tail
      ((h.places first ++ [p]) ++ starts itemSpan (n + 24 + d) rest) := by
    rw [← whole]
    exact mid.chain
  have last : lastOr h.tail (h.places first ++ [p]) = p := by simp [lastOr]
  have known : ∀ q ∈ h.tail :: ((h.places first ++ [p]) ++ starts itemSpan (n + 24 + d) rest),
      q ∈ h.headers (first ++ ⟨c, u⟩ :: ⟨d, false⟩ :: rest) := by
    intro q inside
    rw [← whole] at inside
    exact more q (known_chain q inside)
  have hangs : Hangs (h.headers (first ++ ⟨c, u⟩ :: ⟨d, false⟩ :: rest)) .next .prev (h.markFreed n)
      (h.splitBlock p n) (lastOr h.tail (h.places first ++ [p])) n
      (firstOr h.tail (starts itemSpan (n + 24 + d) rest)) := by
    have follows := chain.meet.1
    have differ := fresh
    simp only [mem_cons, mem_append, not_or] at differ
    rw [last] at follows ⊢
    apply hangs_insertBlock spaced nS pS (known _ firstOr_mem_append) follows
    exact ⟨differ.2.1.2.1, ne_firstOr (by simp [differ])⟩
  have marks := (marked_parts (h.markFreed n) first rest c d u false).mpr
  apply mid.relinkBlocks hangs.object (same.ground ground)
  · rw [same.tail, same.places, parts]
    exact hangs.circle chain known fresh
  · intro q inside
    have old := mid.within q inside
    rw [same.places, whole] at old
    rw [same.places, parts]
    simp only [mem_append, mem_cons] at old ⊢
    tauto
  · apply marks
    rw [same.startAddr, ← place, ← new]
    exact ⟨mid.marks, own⟩
  · exact hangs.rest

section
variable (held : Held h (first ++ ⟨c, u⟩ :: ⟨d, v⟩ :: rest) free)
include held

theorem rejoin (same : SameObject h h')
    (next : n = h.startAddr + span itemSpan first + 24 + c)
    (chain : Circle (h'.get · .next) (h'.get · .prev) h.tail (h.places (first ++ ⟨c + 24 + d, u⟩ :: rest)))
    (frees : Circle (h'.get · .nextFree) (h'.get · .prevFree) h.freeList free')
    (fewer : ∀ q ∈ free', q ∈ free ∧ q ≠ n)
    (marks : ∀ q ∈ h.headers (first ++ ⟨c, u⟩ :: ⟨d, v⟩ :: rest),
      h'.get q .magic = h.get q .magic ∧ h'.get q .poolPtr = h.get q .poolPtr) :
    Held h' (first ++ ⟨c + 24 + d, u⟩ :: rest) free' where
  toGround := same.ground held.toGround.join
  chain := by rwa [same.tail, same.places]
  frees := by rwa [same.freeList]
  within := by
    intro q inside
    obtain ⟨old, other⟩ := fewer q inside
    have place := held.within q old
    rw [places_parts, ← next] at place
    rw [same.places, places_whole, ← next]
    simp only [mem_append, mem_cons] at place ⊢
    tauto
  marks := by
    have whole := ((marked_parts h first rest c d u v).mp held.marks).1
    rw [same.startAddr]
    apply whole.congr same.addr
    intro q inside
    apply marks q (headers_place _)
    have place : q ∈ h.places (first ++ ⟨c + 24 + d, u⟩ :: rest) := inside
    rw [places_whole] at place
    rw [places_parts]
    simp only [mem_append, mem_cons] at place ⊢
    tauto
  tailMark := by
    rw [same.tail, (marks _ headers_tail).1]
    exact held.tailMark

theorem chain_parts (place : p = h.startAddr + span itemSpan first) (next : n = p + 24 + c) :
    Circle (h.get · .next) (h.get · .prev) h.tail
      ((h.places first ++ [p]) ++ n :: starts itemSpan (n + 24 + d) rest) ∧
    lastOr h.tail (h.places first ++ [p]) = p ∧
    firstOr h.tail (starts itemSpan (n + 24 + d) rest) = n + 24 + d ∧
    (∀ q ∈ h.tail :: ((h.places first ++ [p]) ++ n :: starts itemSpan (n + 24 + d) rest),
      q ∈ h.headers (first ++ ⟨c, u⟩ :: ⟨d, v⟩ :: rest)) := by
  have parts := places_parts h first rest c d u v
  rw [← place, ← next] at parts
  refine ⟨by rw [← parts]; exact held.chain, by simp [lastOr], ?_, ?_⟩
  · have ends := held.toGround.tail_eq
    simp only [span_append, span_cons, itemSpan] at ends
    exact firstOr_starts (by omega)
  · rw [← parts]
    exact known_chain

theorem unhang_chain (place : p = h.startAddr + span itemSpan first) (next : n = p + 24 + c)
    (unhangs : Unhangs (h.headers (first ++ ⟨c, u⟩ :: ⟨d, v⟩ :: rest)) .next .prev h h' p (n + 24 + d)) :
    Circle (h'.get · .next) (h'.get · .prev) h.tail (h.places (first ++ ⟨c + 24 + d, u⟩ :: rest)) := by
  obtain ⟨chain, last, after, known⟩ := held.chain_parts place next
  rw [places_whole, ← place, ← next]
  apply Unhangs.circle (S := h.headers (first ++ ⟨c, u⟩ :: ⟨d, v⟩ :: rest)) _ chain
  · intro q inside
    apply known q
    simp only [mem_cons, mem_append] at inside ⊢
    tauto
  · rw [last, after]
    exact unhangs

end

section
variable (held : Held h (first ++ ⟨c, u⟩ :: ⟨d, v⟩ :: rest) free) (place : p = h.startAddr + span itemSpan first) (next : n = p + 24 + c)
include held place next

/-- A block that is not in the free list is taken out of the block list, and its bytes go to the block
in front of it. -/
theorem unhangBlock (out : n ∉ free)
    (unhangs : Unhangs (h.headers (first ++ ⟨c, u⟩ :: ⟨d, v⟩ :: rest)) .next .prev h h' p (n + 24 + d)) :
    Held h' (first ++ ⟨c + 24 + d, u⟩ :: rest) free := by
  apply held.rejoin unhangs.object (place ▸ next) (held.unhang_chain place next unhangs)
  · apply circle_of_rest held.frees held.known
    exact fun q qS => ⟨unhangs.rest q qS .nextFree (by decide) (by decide),
      unhangs.rest q qS .prevFree (by decide) (by decide)⟩
  · exact fun q inside => ⟨inside, fun own => out (own ▸ inside)⟩
  · exact fun q qS => ⟨unhangs.rest q qS .magic (by decide) (by decide),
      unhangs.rest q qS .poolPtr (by decide) (by decide)⟩

theorem part_links :
    h.get p .next = n ∧ h.get n .prev = p ∧ h.get n .next = n + 24 + d := by
  obtain ⟨chain, last, after, -⟩ := held.chain_parts place next
  obtain ⟨prev, follows, further, -⟩ := chain.around
  rw [last] at prev follows
  rw [after] at further
  exact ⟨follows, prev, further⟩

theorem part_headers :
    p ∈ h.headers (first ++ ⟨c, u⟩ :: ⟨d, v⟩ :: rest) ∧ n ∈ h.headers (first ++ ⟨c, u⟩ :: ⟨d, v⟩ :: rest) ∧
      n + 24 + d ∈ h.headers (first ++ ⟨c, u⟩ :: ⟨d, v⟩ :: rest) := by
  obtain ⟨-, -, after, known⟩ := held.chain_parts place next
  refine ⟨known p (by simp), known n (by simp), ?_⟩
  rw [← after]
  apply known
  have member : firstOr h.tail (starts itemSpan (n + 24 + d) rest) ∈
      h.tail :: starts itemSpan (n + 24 + d) rest := firstOr_mem
  simp only [mem_cons, mem_append] at member ⊢
  tauto

end

theorem absorbNext (held : Held h (first ++ ⟨c, u⟩ :: ⟨d, v⟩ :: rest) (xs ++ n :: ys))
    (place : p = h.startAddr + span itemSpan first) (next : n = p + 24 + c) :
    Held (h.absorbNext p) (first ++ ⟨c + 24 + d, u⟩ :: rest) (xs ++ ys) := by
  have spaced := held.toGround.spaced
  obtain ⟨follows, -, further⟩ := held.part_links place next
  obtain ⟨pS, nS, afterS⟩ := held.part_headers place next
  have merge : Unhangs (h.headers (first ++ ⟨c, u⟩ :: ⟨d, v⟩ :: rest)) .next .prev h (h.mergeBlock p n) p
      (n + 24 + d) := unhangs_mergeBlock spaced nS pS afterS further
  have mid : Circle ((h.mergeBlock p n).get · .nextFree) ((h.mergeBlock p n).get · .prevFree) h.freeList
      (xs ++ n :: ys) := by
    apply circle_of_rest held.frees held.known
    exact fun q qS => ⟨merge.rest q qS .nextFree (by decide) (by decide),
      merge.rest q qS .prevFree (by decide) (by decide)⟩
  obtain ⟨prev, -, after, -⟩ := mid.around
  have once := mid.once
  have known : ∀ q ∈ h.freeList :: (xs ++ ys), q ∈ h.headers (first ++ ⟨c, u⟩ :: ⟨d, v⟩ :: rest) := by
    intro q member
    apply held.known q
    simp only [mem_cons, mem_append] at member ⊢
    tauto
  have remove : Unhangs (h.headers (first ++ ⟨c, u⟩ :: ⟨d, v⟩ :: rest)) .nextFree .prevFree (h.mergeBlock p n)
      (h.absorbNext p) (lastOr h.freeList xs) (firstOr h.freeList ys) := by
    have code : h.absorbNext p = (h.mergeBlock p n).removeFree n := by rw [Heap.absorbNext, follows]
    rw [code]
    apply unhangs_removeFree spaced nS (known _ lastOr_mem_append) (known _ firstOr_mem_append) ⟨prev, after⟩
    simp only [mem_cons, mem_append, not_or] at once
    exact ne_firstOr (by simp [once])
  apply held.rejoin (merge.object.trans remove.object) (place ▸ next)
  · apply circle_of_rest (held.unhang_chain place next merge)
    · intro q inside
      have whole := places_whole h first rest c d u
      have parts := places_parts h first rest c d u v
      rw [whole] at inside
      apply known_chain q
      rw [parts]
      simp only [mem_cons, mem_append] at inside ⊢
      tauto
    · exact fun q qS => ⟨remove.rest q qS .next (by decide) (by decide), remove.rest q qS .prev (by decide) (by decide)⟩
  · exact remove.circle mid known
  · intro q inside
    refine ⟨?_, fun own => once (mem_cons_of_mem _ (own ▸ inside))⟩
    simp only [mem_cons, mem_append] at inside ⊢
    tauto
  · intro q qS
    exact ⟨(remove.rest q qS .magic (by decide) (by decide)).trans (merge.rest q qS .magic (by decide) (by decide)),
      (remove.rest q qS .poolPtr (by decide) (by decide)).trans (merge.rest q qS .poolPtr (by decide) (by decide))⟩

theorem unlinkBlock (held : Held h (first ++ ⟨c, u⟩ :: ⟨d, v⟩ :: rest) free)
    (place : p = h.startAddr + span itemSpan first) (next : n = p + 24 + c) (out : n ∉ free) :
    Held (unlinkBlock h n) (first ++ ⟨c + 24 + d, u⟩ :: rest) free ∧ (unlinkBlock h n).get n .prev = p := by
  have spaced := held.toGround.spaced
  obtain ⟨-, before, further⟩ := held.part_links place next
  obtain ⟨pS, nS, afterS⟩ := held.part_headers place next
  have unhangs : Unhangs (h.headers (first ++ ⟨c, u⟩ :: ⟨d, v⟩ :: rest)) .next .prev h
      (Memheap.unlinkBlock h n) p (n + 24 + d) :=
    unhangs_unlinkBlock spaced nS pS afterS ⟨before, further⟩ (by omega)
  refine ⟨held.unhangBlock place next out unhangs, ?_⟩
  rw [unhangs.backward n nS (by omega), before]

theorem removeNextPtr (held : Held h (first ++ ⟨c, u⟩ :: ⟨d, v⟩ :: rest) (xs ++ n :: ys))
    (place : p = h.startAddr + span itemSpan first) (next : n = p + 24 + c) :
    Held (removeNextPtr h n) (first ++ ⟨c + 24 + d, u⟩ :: rest) (xs ++ ys) := by
  have spaced := held.toGround.spaced
  have removed := held.removeFree
  obtain ⟨-, before, further⟩ := removed.part_links place next
  obtain ⟨pS, nS, afterS⟩ := held.part_headers place next
  have unhangs : Unhangs (h.headers (first ++ ⟨c, u⟩ :: ⟨d, v⟩ :: rest)) .next .prev (h.removeFree n)
      (Memheap.removeNextPtr h n) p (n + 24 + d) :=
    unhangs_removeNextPtr spaced nS pS afterS ⟨before, further⟩ (by omega)
  exact removed.unhangBlock place next (fun inside => held.frees.once (mem_cons_of_mem _ inside)) unhangs

end Held

end RtThread.Memheap
