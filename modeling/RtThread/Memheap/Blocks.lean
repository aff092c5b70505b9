import RtThread.Lib.Circle
import RtThread.Memheap.Heap
import RtThread.Mem.SmallMemBlocks

/-! Headers that do not overlap: a write to one leaves the others alone, so the writes of `memheap.c` to two lists of
headers hang blocks in and unhang them. Then a heap as a list of blocks and the order of its free list: the sequences of
writes become edits of the two lists. -/

set_option autoImplicit false
namespace RtThread.Memheap
open Lib
open Mem (Block)

variable {h h' : Heap} {p q n value : Nat} {f g : Field} {S : List Nat}

/-! ## Words -/

theorem Field.offset_lt (f : Field) : f.offset + 4 ≤ 24 := by
  cases f <;> decide

theorem Field.offset_inj (same : f.offset = g.offset) : f = g := by
  cases f <;> cases g <;> first | rfl | cases same

/-- The headers in `S` are the same or do not overlap. -/
def Spaced (S : List Nat) : Prop := ∀ a ∈ S, ∀ b ∈ S, a = b ∨ a + 24 ≤ b ∨ b + 24 ≤ a

def SameObject (h h' : Heap) : Prop := h' = { h with mem := h'.mem }

theorem SameObject.refl (h : Heap) : SameObject h h := rfl

theorem SameObject.trans {h'' : Heap} (first : SameObject h h') (second : SameObject h' h'') :
    SameObject h h'' := by
  unfold SameObject at *
  rw [second, first]

theorem sameObject_set (h : Heap) (p : Nat) (f : Field) (value : Nat) : SameObject h (h.set p f value) := rfl

@[simp] theorem set_freeList : (h.set p f value).freeList = h.freeList := rfl

@[simp] theorem set_addr : (h.set p f value).addr = h.addr := rfl

@[simp] theorem set_availableSize : (h.set p f value).availableSize = h.availableSize := rfl

@[simp] theorem insertFree_availableSize : (h.insertFree p).availableSize = h.availableSize := by
  simp only [Heap.insertFree, set_availableSize]

@[simp] theorem removeFree_availableSize : (h.removeFree p).availableSize = h.availableSize := by
  simp only [Heap.removeFree, set_availableSize]

@[simp] theorem splitBlock_availableSize : (h.splitBlock p n).availableSize = h.availableSize := by
  simp only [Heap.splitBlock, Heap.insertBlock, Heap.markFreed, set_availableSize]

theorem sameObject_removeFree : SameObject h (h.removeFree p) :=
  (sameObject_set h _ _ _).trans (sameObject_set _ _ _ _)

theorem sameObject_insertFree : SameObject h (h.insertFree p) :=
  (((sameObject_set h _ _ _).trans (sameObject_set _ _ _ _)).trans (sameObject_set _ _ _ _)).trans
    (sameObject_set _ _ _ _)

theorem sameObject_splitBlock : SameObject h (h.splitBlock p n) :=
  (((((sameObject_set h _ _ _).trans (sameObject_set _ _ _ _)).trans (sameObject_set _ _ _ _)).trans
    (sameObject_set _ _ _ _)).trans (sameObject_set _ _ _ _)).trans (sameObject_set _ _ _ _)

section
variable (spaced : Spaced S) (pS : p ∈ S)
include spaced pS

theorem Spaced.get_set (qS : q ∈ S) :
    (h.set p f value).get q g = if q = p ∧ g = f then value else h.get q g := by
  have low := f.offset_lt
  have low' := g.offset_lt
  simp only [Heap.get, Heap.set, Heap.store]
  by_cases own : q = p ∧ g = f
  · rw [if_pos own, own.1, own.2, if_pos rfl]
  · rw [if_neg own, if_neg]
    intro same
    rcases spaced q qS p pS with equal | apart
    · exact own ⟨equal, Field.offset_inj (by omega)⟩
    · omega

theorem Spaced.get_set_self : (h.set p f value).get p f = value := by
  rw [spaced.get_set pS pS, if_pos ⟨rfl, rfl⟩]

theorem Spaced.get_set_field (qS : q ∈ S) (other : g ≠ f) :
    (h.set p f value).get q g = h.get q g := by
  rw [spaced.get_set pS qS, if_neg fun own => other own.2]

theorem Spaced.get_set_other (qS : q ∈ S) (other : q ≠ p) :
    (h.set p f value).get q g = h.get q g := by
  rw [spaced.get_set pS qS, if_neg fun own => other own.1]

end

/-! ## Hanging in and unhanging -/

/-- The links of the list that `fwd` and `bwd` thread once `n` hangs between `before` and `after`. -/
structure Hangs (S : List Nat) (fwd bwd : Field) (h h' : Heap) (before n after : Nat) : Prop where
  object : SameObject h h'
  front : h'.get before fwd = n ∧ h'.get n bwd = before
  back : h'.get n fwd = after ∧ h'.get after bwd = n
  forward : ∀ q ∈ S, q ≠ before → q ≠ n → h'.get q fwd = h.get q fwd
  backward : ∀ q ∈ S, q ≠ after → q ≠ n → h'.get q bwd = h.get q bwd
  rest : ∀ q ∈ S, ∀ g, g ≠ fwd → g ≠ bwd → h'.get q g = h.get q g

/-- The links once a node between `before` and `after` is out of the list. -/
structure Unhangs (S : List Nat) (fwd bwd : Field) (h h' : Heap) (before after : Nat) : Prop where
  object : SameObject h h'
  across : h'.get before fwd = after ∧ h'.get after bwd = before
  forward : ∀ q ∈ S, q ≠ before → h'.get q fwd = h.get q fwd
  backward : ∀ q ∈ S, q ≠ after → h'.get q bwd = h.get q bwd
  rest : ∀ q ∈ S, ∀ g, g ≠ fwd → g ≠ bwd → h'.get q g = h.get q g

section
variable {fwd bwd : Field} {hub before after : Nat} {xs ys nodes : List Nat}

theorem Hangs.circle (hangs : Hangs S fwd bwd h h' (lastOr hub xs) n (firstOr hub ys))
    (circle : Circle (h.get · fwd) (h.get · bwd) hub (xs ++ ys)) (known : ∀ q ∈ hub :: (xs ++ ys), q ∈ S)
    (fresh : n ∉ hub :: (xs ++ ys)) :
    Circle (h'.get · fwd) (h'.get · bwd) hub (xs ++ n :: ys) := by
  have other : ∀ m ∈ hub :: (xs ++ ys), m ≠ n := fun m inside own => fresh (own ▸ inside)
  apply circle.insert fresh hangs.front hangs.back
  · exact fun m inside apart => hangs.forward m (known m inside) apart (other m inside)
  · exact fun m inside apart => hangs.backward m (known m inside) apart (other m inside)

theorem Unhangs.circle (unhangs : Unhangs S fwd bwd h h' (lastOr hub xs) (firstOr hub ys))
    (circle : Circle (h.get · fwd) (h.get · bwd) hub (xs ++ n :: ys))
    (known : ∀ q ∈ hub :: (xs ++ ys), q ∈ S) :
    Circle (h'.get · fwd) (h'.get · bwd) hub (xs ++ ys) := by
  apply circle.remove unhangs.across
  · exact fun m inside apart => unhangs.forward m (known m inside) apart
  · exact fun m inside apart => unhangs.backward m (known m inside) apart

theorem circle_of_rest (circle : Circle (h.get · fwd) (h.get · bwd) hub nodes)
    (known : ∀ q ∈ hub :: nodes, q ∈ S)
    (same : ∀ q ∈ S, h'.get q fwd = h.get q fwd ∧ h'.get q bwd = h.get q bwd) :
    Circle (h'.get · fwd) (h'.get · bwd) hub nodes :=
  circle.congr fun m inside => same m (known m inside)

/-! ## The sequences of writes -/

section
variable (spaced : Spaced S)
include spaced

theorem hangs_insertFree (nS : n ∈ S) (listS : h.freeList ∈ S) (afterS : after ∈ S)
    (first : h.get h.freeList .nextFree = after) (fresh : n ≠ h.freeList ∧ n ≠ after) :
    Hangs S .nextFree .prevFree h (h.insertFree n) h.freeList n after := by
  have code : h.insertFree n =
      (((h.set n .nextFree after).set n .prevFree h.freeList).set after .prevFree n).set
        h.freeList .nextFree n := by
    simp only [Heap.insertFree, set_freeList, first]
    rw [spaced.get_set_field nS listS (by decide), spaced.get_set_other nS listS fresh.1.symm, first]
  rw [code]
  constructor
  · rfl
  · simp [spaced.get_set, nS, listS, afterS, fresh]
  · simp [spaced.get_set, nS, listS, afterS, fresh]
  · intro q qS notList notN
    simp [spaced.get_set, nS, listS, afterS, qS, notList, notN]
  · intro q qS notAfter notN
    simp [spaced.get_set, nS, listS, afterS, qS, notAfter, notN]
  · intro q qS g notNext notPrev
    simp [spaced.get_set, nS, listS, afterS, qS, notNext, notPrev]

theorem hangs_insertBefore (nS : n ∈ S) (beforeS : before ∈ S) (afterS : after ∈ S)
    (last : h.get after .prevFree = before) (fresh : n ≠ before ∧ n ≠ after) :
    Hangs S .nextFree .prevFree h (insertBefore h n after) before n after := by
  have code : insertBefore h n after =
      (((h.set n .nextFree after).set n .prevFree before).set before .nextFree n).set after .prevFree n := by
    simp only [insertBefore]
    rw [spaced.get_set_field nS afterS (by decide), last,
      spaced.get_set_other nS afterS fresh.2.symm, spaced.get_set_field nS afterS (by decide), last]
  rw [code]
  constructor
  · rfl
  · simp [spaced.get_set, nS, beforeS, afterS, fresh]
  · simp [spaced.get_set, nS, beforeS, afterS, fresh]
  · intro q qS notBefore notN
    simp [spaced.get_set, nS, beforeS, afterS, qS, notBefore, notN]
  · intro q qS notAfter notN
    simp [spaced.get_set, nS, beforeS, afterS, qS, notAfter, notN]
  · intro q qS g notNext notPrev
    simp [spaced.get_set, nS, beforeS, afterS, qS, notNext, notPrev]

theorem hangs_insertBlock (nS : n ∈ S) (beforeS : before ∈ S) (afterS : after ∈ S)
    (follows : h.get before .next = after) (fresh : n ≠ before ∧ n ≠ after) :
    Hangs S .next .prev h (h.insertBlock before n) before n after := by
  have code : h.insertBlock before n =
      (((h.set n .prev before).set n .next after).set after .prev n).set before .next n := by
    simp only [Heap.insertBlock]
    rw [spaced.get_set_field nS beforeS (by decide), follows, spaced.get_set_other nS beforeS fresh.1.symm,
      spaced.get_set_field nS beforeS (by decide), follows]
  rw [code]
  constructor
  · rfl
  · simp [spaced.get_set, nS, beforeS, afterS, fresh]
  · simp [spaced.get_set, nS, beforeS, afterS, fresh]
  · intro q qS notBefore notN
    simp [spaced.get_set, nS, beforeS, afterS, qS, notBefore, notN]
  · intro q qS notAfter notN
    simp [spaced.get_set, nS, beforeS, afterS, qS, notAfter, notN]
  · intro q qS g notNext notPrev
    simp [spaced.get_set, nS, beforeS, afterS, qS, notNext, notPrev]

theorem unhangs_writes (beforeS : before ∈ S) (afterS : after ∈ S) {fwd bwd : Field}
    (fields : fwd ≠ bwd) :
    Unhangs S fwd bwd h ((h.set after bwd before).set before fwd after) before after ∧
      Unhangs S fwd bwd h ((h.set before fwd after).set after bwd before) before after := by
  have apart := fields.symm
  constructor
  · constructor
    · rfl
    · simp [spaced.get_set, beforeS, afterS, apart]
    · intro q qS notBefore
      simp [spaced.get_set, beforeS, afterS, qS, notBefore, fields]
    · intro q qS notAfter
      simp [spaced.get_set, beforeS, afterS, qS, notAfter, apart]
    · intro q qS g notNext notPrev
      simp [spaced.get_set, beforeS, afterS, qS, notNext, notPrev]
  · constructor
    · rfl
    · simp [spaced.get_set, beforeS, afterS, fields]
    · intro q qS notBefore
      simp [spaced.get_set, beforeS, afterS, qS, notBefore, fields]
    · intro q qS notAfter
      simp [spaced.get_set, beforeS, afterS, qS, notAfter, apart]
    · intro q qS g notNext notPrev
      simp [spaced.get_set, beforeS, afterS, qS, notNext, notPrev]

section
variable (nS : n ∈ S) (beforeS : before ∈ S) (afterS : after ∈ S)
include nS beforeS afterS

theorem unhangs_removeFree (around : h.get n .prevFree = before ∧ h.get n .nextFree = after) (fresh : n ≠ after) :
    Unhangs S .nextFree .prevFree h (h.removeFree n) before after := by
  have code : h.removeFree n = (h.set after .prevFree before).set before .nextFree after := by
    simp only [Heap.removeFree, around]
    rw [spaced.get_set_other afterS nS fresh, around.1, spaced.get_set_field afterS nS (by decide), around.2]
  rw [code]
  exact (unhangs_writes spaced beforeS afterS (by decide)).1

theorem unhangs_mergeBlock
    (follows : h.get n .next = after) : Unhangs S .next .prev h (h.mergeBlock before n) before after := by
  have code : h.mergeBlock before n = (h.set after .prev before).set before .next after := by
    simp only [Heap.mergeBlock, follows]
    rw [spaced.get_set_field afterS nS (by decide), follows]
  rw [code]
  exact (unhangs_writes spaced beforeS afterS (by decide)).1

theorem unhangs_unlinkBlock (around : h.get n .prev = before ∧ h.get n .next = after) (fresh : n ≠ before) :
    Unhangs S .next .prev h (unlinkBlock h n) before after := by
  have code : unlinkBlock h n = (h.set before .next after).set after .prev before := by
    simp only [unlinkBlock, around]
    rw [spaced.get_set_other beforeS nS fresh, around.2, spaced.get_set_field beforeS nS (by decide), around.1]
  rw [code]
  exact (unhangs_writes spaced beforeS afterS (by decide)).2

theorem unhangs_removeNextPtr (around : (h.removeFree n).get n .prev = before ∧ (h.removeFree n).get n .next = after)
    (fresh : n ≠ after) :
    Unhangs S .next .prev (h.removeFree n) (removeNextPtr h n) before after := by
  have code : removeNextPtr h n = ((h.removeFree n).set after .prev before).set before .next after := by
    simp only [removeNextPtr, around]
    rw [spaced.get_set_other afterS nS fresh, around.1, spaced.get_set_field afterS nS (by decide), around.2]
  rw [code]
  exact (unhangs_writes spaced beforeS afterS (by decide)).1

end

end

end

theorem rtMemheapSize_eq : rtMemheapSize = 24 := by decide

theorem rtMemheapMinialloc_eq : rtMemheapMinialloc = 16 := by decide

def itemSpan (b : Block) : Nat := 24 + b.capacity

theorem itemSpan_pos (b : Block) : 0 < itemSpan b := by
  unfold itemSpan
  omega

def Heap.tail (h : Heap) : Nat := h.startAddr + (h.poolSize - 24)

def Heap.places (h : Heap) (blocks : List Block) : List Nat := starts itemSpan h.startAddr blocks

def magicOf (used : Bool) : Nat := rtMemheapMagic ||| if used then rtMemheapUsed else rtMemheapFreed

theorem magicOf_true : rtMemheapMagic ||| rtMemheapUsed = magicOf true := rfl

theorem magicOf_false : rtMemheapMagic ||| rtMemheapFreed = magicOf false := rfl

/-- The headers from `start` on carry the marks of `blocks`. -/
def Marked (h : Heap) (start : Nat) (blocks : List Block) : Prop :=
  ∀ entry ∈ layout itemSpan start blocks,
    h.get entry.1 .magic = magicOf entry.2.used ∧ h.get entry.1 .poolPtr = h.addr

structure Ground (h : Heap) (blocks : List Block) : Prop where
  size : span itemSpan blocks + 24 = h.poolSize
  top : h.startAddr + h.poolSize ≤ 2 ^ 32
  word : h.poolSize < 2 ^ 32
  apart : h.freeList + 24 ≤ h.startAddr ∨ h.startAddr + h.poolSize ≤ h.freeList
  first : h.blockList = h.startAddr
  aligned : ∀ b ∈ blocks, 8 ∣ b.capacity

/-- The headers of the region are those of `blocks` and the tail, and the free list goes through `free`. -/
structure Held (h : Heap) (blocks : List Block) (free : List Nat) : Prop extends Ground h blocks where
  chain : Circle (h.get · .next) (h.get · .prev) h.tail (h.places blocks)
  frees : Circle (h.get · .nextFree) (h.get · .prevFree) h.freeList free
  within : ∀ p ∈ free, p ∈ h.places blocks
  marks : Marked h h.startAddr blocks
  tailMark : h.get h.tail .magic = magicOf true

variable {h h' : Heap} {blocks first rest : List Block} {free xs ys : List Nat} {c d p n start : Nat}
  {u v : Bool}

/-! ## Marks -/

theorem marked_append : Marked h start (first ++ rest) ↔
    Marked h start first ∧ Marked h (start + span itemSpan first) rest := by
  simp only [Marked, layout_append, List.mem_append]
  constructor
  · exact fun all => ⟨fun entry inside => all entry (.inl inside), fun entry inside => all entry (.inr inside)⟩
  · rintro ⟨before, after⟩ entry (inside | inside)
    · exact before entry inside
    · exact after entry inside

theorem marked_cons {b : Block} : Marked h start (b :: rest) ↔
    (h.get start .magic = magicOf b.used ∧ h.get start .poolPtr = h.addr) ∧
      Marked h (start + itemSpan b) rest := by
  simp [Marked]

theorem Marked.congr (marked : Marked h start blocks) (addr : h'.addr = h.addr)
    (same : ∀ q ∈ starts itemSpan start blocks,
      h'.get q .magic = h.get q .magic ∧ h'.get q .poolPtr = h.get q .poolPtr) : Marked h' start blocks := by
  intro entry inside
  have place : entry.1 ∈ starts itemSpan start blocks := List.mem_map_of_mem inside
  rw [(same _ place).1, (same _ place).2, addr]
  exact marked entry inside

/-! ## Places -/

section
variable (same : SameObject h h')
include same

theorem SameObject.ground (ground : Ground h blocks) : Ground h' blocks := by
  rw [same]
  exact ⟨ground.size, ground.top, ground.word, ground.apart, ground.first, ground.aligned⟩

theorem SameObject.tail : h'.tail = h.tail := by
  rw [same]
  rfl

theorem SameObject.places : h'.places blocks = h.places blocks := by
  rw [same]
  rfl

theorem SameObject.place (inside : p ∈ h.places blocks) : p ∈ h'.places blocks := by
  rwa [same.places]

theorem SameObject.freeList : h'.freeList = h.freeList := by rw [same]

theorem SameObject.addr : h'.addr = h.addr := by rw [same]

theorem SameObject.startAddr : h'.startAddr = h.startAddr := by rw [same]

theorem SameObject.poolSize : h'.poolSize = h.poolSize := by rw [same]

theorem SameObject.availableSize : h'.availableSize = h.availableSize := by rw [same]

theorem SameObject.maxUsedSize : h'.maxUsedSize = h.maxUsedSize := by rw [same]

theorem SameObject.levels : h'.levels = h.levels := by rw [same]

end

def Heap.headers (h : Heap) (blocks : List Block) : List Nat := h.freeList :: h.tail :: h.places blocks

theorem Ground.place (ground : Ground h blocks) {q : Nat} (inside : q ∈ h.places blocks) :
    h.startAddr ≤ q ∧ q + 24 ≤ h.tail := by
  obtain ⟨b, entry⟩ := (mem_starts itemSpan).mp inside
  have bounds := layout_bounds itemSpan entry
  have size := ground.size
  unfold itemSpan at bounds
  unfold Heap.tail
  unfold itemSpan at size
  omega

theorem places_spaced {a b : Nat} (first : a ∈ h.places blocks) (second : b ∈ h.places blocks) : a = b ∨ a + 24 ≤ b ∨ b + 24 ≤ a := by
  obtain ⟨x, here⟩ := (mem_starts itemSpan).mp first
  obtain ⟨y, there⟩ := (mem_starts itemSpan).mp second
  rcases layout_separate itemSpan here there with same | apart
  · exact Or.inl (congrArg Prod.fst same)
  · unfold itemSpan at apart
    simp only at apart
    omega

theorem Ground.spaced (ground : Ground h blocks) : Spaced (h.headers blocks) := by
  have size := ground.size
  have apart := ground.apart
  have tail : h.tail + 24 = h.startAddr + h.poolSize := by
    unfold Heap.tail
    omega
  intro a aS b bS
  simp only [Heap.headers, List.mem_cons] at aS bS
  rcases aS with rfl | rfl | aS <;> rcases bS with rfl | rfl | bS
  · exact Or.inl rfl
  · omega
  · have := ground.place bS
    omega
  · omega
  · exact Or.inl rfl
  · have := ground.place bS
    omega
  · have := ground.place aS
    omega
  · have := ground.place aS
    omega
  · exact places_spaced aS bS

theorem Ground.apart_list (ground : Ground h blocks) (inside : p ∈ h.places blocks) :
    p ≠ h.freeList ∧ p ≠ h.tail := by
  have bounds := ground.place inside
  have size := ground.size
  have apart := ground.apart
  unfold Heap.tail at bounds ⊢
  omega

theorem Ground.list_apart_tail (ground : Ground h blocks) : h.freeList ≠ h.tail := by
  have size := ground.size
  have apart := ground.apart
  unfold Heap.tail
  omega

theorem firstOr_starts {stop : Nat} (ends : start + span itemSpan blocks = stop) :
    firstOr stop (starts itemSpan start blocks) = start := by
  cases blocks with
  | nil => exact ends.symm
  | cons b rest => rfl

theorem places_split (h : Heap) (first rest : List Block) (b : Block) : h.places (first ++ b :: rest) =
    h.places first ++ (h.startAddr + span itemSpan first) ::
      starts itemSpan (h.startAddr + span itemSpan first + itemSpan b) rest := by
  rw [Heap.places, starts_append, starts_cons]
  rfl

theorem places_mid (h : Heap) (first rest : List Block) (b : Block) :
    h.startAddr + span itemSpan first ∈ h.places (first ++ b :: rest) := by
  rw [places_split]
  exact List.mem_append_right _ List.mem_cons_self

theorem Ground.tail_eq (ground : Ground h blocks) : h.startAddr + span itemSpan blocks = h.tail := by
  have size := ground.size
  unfold Heap.tail
  omega

/-! ## Reading a block -/

namespace Held

section
variable (held : Held h (first ++ ⟨c, u⟩ :: rest) free) (place : p = h.startAddr + span itemSpan first)
include held place

theorem around :
    h.get p .next = p + 24 + c ∧ h.get p .prev = lastOr h.tail (h.places first) := by
  have circle := held.chain
  rw [places_split, ← place] at circle
  obtain ⟨prev, -, next, -⟩ := circle.around
  refine ⟨?_, prev⟩
  have ends := held.toGround.tail_eq
  rw [span_append, span_cons] at ends
  rw [firstOr_starts (by omega)] at next
  rw [next, itemSpan, Nat.add_assoc]

theorem memitemSize_eq : h.memitemSize p = c := by
  have size := held.size
  have top := held.top
  simp only [span_append, span_cons, itemSpan] at size
  rw [Heap.memitemSize, (held.around place).1, rtMemheapSize_eq, sub32, sub32]
  omega

theorem mark :
    h.get p .magic = magicOf u ∧ h.get p .poolPtr = h.addr := by
  have marks := (marked_cons.mp (marked_append.mp held.marks).2).1
  rw [← place] at marks
  exact marks

theorem isUsed_eq : h.isUsed p = u := by
  rw [Heap.isUsed, (held.mark place).1]
  cases u <;> decide

end

theorem tail_used (held : Held h blocks free) : h.isUsed h.tail = true := by
  rw [Heap.isUsed, held.tailMark]
  decide

end Held

end RtThread.Memheap
