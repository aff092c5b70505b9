import RtThread.Memheap.Links

/-! What holds of a heap between two calls: its lists and its counters say the same. -/

set_option autoImplicit false
namespace RtThread.Memheap
open Lib
open Mem (Block Coalesced)

/-- A block with the given mark starts at `q`. -/
def At (used : Bool) (start : Nat) (blocks : List Block) (q : Nat) : Prop :=
  ∃ c, (q, ⟨c, used⟩) ∈ layout itemSpan start blocks

def freeSpace : List Block → Nat
  | [] => 0
  | b :: rest => (if b.used then 0 else b.capacity) + freeSpace rest

structure Counted (h : Heap) (blocks : List Block) : Prop where
  available : h.availableSize = freeSpace blocks
  reached : h.maxUsedSize ∈ h.levels
  highest : ∀ level ∈ h.levels, level ≤ h.maxUsedSize
  current : h.levels.getLast? = some (h.poolSize - h.availableSize)

/-- The heap is made of `blocks`, no two neighbours are free, and `free` is the order of its free list. -/
structure Repr (h : Heap) (blocks : List Block) (free : List Nat) : Prop extends
    Held h blocks free, Counted h blocks where
  listed : ∀ q, q ∈ free ↔ At false h.startAddr blocks q
  coalesced : Coalesced blocks

structure SameRegion (h h' : Heap) : Prop where
  addr : h'.addr = h.addr
  startAddr : h'.startAddr = h.startAddr
  poolSize : h'.poolSize = h.poolSize
  freeList : h'.freeList = h.freeList

variable {h h' : Heap} {blocks blocks' first rest : List Block} {free xs ys : List Nat}
  {c d p q n start size : Nat} {u v : Bool}

theorem SameRegion.trans {h'' : Heap} (first : SameRegion h h') (second : SameRegion h' h'') :
    SameRegion h h'' :=
  ⟨second.addr.trans first.addr, second.startAddr.trans first.startAddr,
    second.poolSize.trans first.poolSize, second.freeList.trans first.freeList⟩

theorem SameObject.region (same : SameObject h h') : SameRegion h h' :=
  ⟨same.addr, same.startAddr, same.poolSize, same.freeList⟩

theorem sameRegion_release (h : Heap) : SameRegion h h.release := ⟨rfl, rfl, rfl, rfl⟩

theorem sameRegion_consume (h : Heap) (available : Nat) : SameRegion h (h.consume available) :=
  ⟨rfl, rfl, rfl, rfl⟩

/-! ## Where blocks are -/

theorem at_append : At u start (first ++ rest) q ↔ At u start first q ∨ At u (start + span itemSpan first) rest q := by
  simp only [At, layout_append, List.mem_append, exists_or]

theorem at_cons : At u start (⟨c, v⟩ :: rest) q ↔ (q = start ∧ v = u) ∨ At u (start + 24 + c) rest q := by
  simp only [At, layout_cons, List.mem_cons, Prod.mk.injEq, Block.mk.injEq, itemSpan, Nat.add_assoc]
  constructor
  · rintro ⟨x, ⟨rfl, -, rfl⟩ | inside⟩
    · exact Or.inl ⟨rfl, rfl⟩
    · exact Or.inr ⟨x, inside⟩
  · rintro (⟨rfl, rfl⟩ | ⟨x, inside⟩)
    · exact ⟨c, Or.inl ⟨rfl, rfl, rfl⟩⟩
    · exact ⟨x, Or.inr inside⟩

theorem at_mid : At u start (first ++ ⟨c, v⟩ :: rest) q ↔
    At u start first q ∨ (q = start + span itemSpan first ∧ v = u) ∨
      At u (start + span itemSpan first + 24 + c) rest q := by
  rw [at_append, at_cons]

theorem At.below (here : At u start blocks q) : start ≤ q ∧ q + 24 ≤ start + span itemSpan blocks := by
  obtain ⟨c, entry⟩ := here
  have bounds := layout_bounds itemSpan entry
  simp only [itemSpan] at bounds ⊢
  omega

theorem At.split (here : At u start blocks q) :
    ∃ first c rest, blocks = first ++ ⟨c, u⟩ :: rest ∧ q = start + span itemSpan first := by
  obtain ⟨c, entry⟩ := here
  obtain ⟨first, rest, rfl, place⟩ := (mem_layout_iff itemSpan).mp entry
  exact ⟨first, c, rest, rfl, place⟩

theorem at_unique (yes : At true start blocks q) : ¬At false start blocks q := by
  rintro ⟨d, other⟩
  obtain ⟨c, entry⟩ := yes
  cases layout_functional itemSpan itemSpan_pos entry other

/-! ## Counting -/

theorem sub32_eq {a b : Nat} (le : b ≤ a) (word : a < 2 ^ 32) : sub32 a b = a - b := by
  unfold sub32
  omega

theorem add32_eq {a b : Nat} (word : a + b < 2 ^ 32) : add32 a b = a + b := Nat.mod_eq_of_lt word

theorem freeSpace_append : freeSpace (first ++ rest) = freeSpace first + freeSpace rest := by
  induction first with
  | nil => simp [freeSpace]
  | cons b first ih =>
    rw [List.cons_append, freeSpace, freeSpace, ih, Nat.add_assoc]

theorem freeSpace_le (blocks : List Block) : freeSpace blocks ≤ span itemSpan blocks := by
  induction blocks with
  | nil => exact Nat.le_refl _
  | cons b rest ih =>
    simp only [freeSpace, span_cons, itemSpan]
    split <;> omega

theorem Counted.spend (counted : Counted h blocks) (word : h.poolSize < 2 ^ 32)
    (fits : freeSpace blocks' ≤ h.poolSize) (pool : h'.poolSize = h.poolSize)
    (available : h'.availableSize = freeSpace blocks')
    (most : h'.maxUsedSize = if sub32 h.poolSize h'.availableSize > h.maxUsedSize
      then sub32 h.poolSize h'.availableSize else h.maxUsedSize)
    (levels : h'.levels = h.levels ++ [sub32 h.poolSize h'.availableSize]) : Counted h' blocks' := by
  have level : sub32 h.poolSize h'.availableSize = h.poolSize - h'.availableSize :=
    sub32_eq (by rw [available]; exact fits) word
  rw [level] at most levels
  constructor
  · exact available
  · rw [most, levels]
    split
    · simp
    · exact List.mem_append_left _ counted.reached
  · intro other inside
    rw [levels] at inside
    rw [most]
    rcases List.mem_append.mp inside with old | new
    · have below := counted.highest other old
      split <;> omega
    · rw [List.mem_singleton.mp new]
      split <;> omega
  · rw [levels, pool, List.getLast?_concat]

theorem Counted.consume_release {k : Heap} {available : Nat} (counted : Counted h blocks)
    (word : h.poolSize < 2 ^ 32) (fits : freeSpace blocks' ≤ h.poolSize) (left : available = freeSpace blocks')
    (before : SameObject h k) (after : SameObject (k.consume available) h') : Counted h'.release blocks' := by
  have pool : h'.release.poolSize = h.poolSize := after.poolSize.trans before.poolSize
  have size : h'.release.availableSize = available := after.availableSize
  have most : h'.release.maxUsedSize = if sub32 h.poolSize available > h.maxUsedSize
      then sub32 h.poolSize available else h.maxUsedSize := by
    rw [← before.poolSize, ← before.maxUsedSize]
    exact after.maxUsedSize
  have levels : h'.release.levels = h.levels ++ [sub32 h.poolSize available] := by
    rw [← before.levels, ← before.poolSize]
    have same : h'.release.levels = h'.levels ++ [sub32 h'.poolSize h'.availableSize] := rfl
    rw [same, after.levels, after.poolSize, after.availableSize]
    rfl
  rw [← size] at most levels
  exact counted.spend word fits pool (size.trans left) most levels

theorem Counted.refund (counted : Counted h blocks) (word : h.poolSize < 2 ^ 32)
    (fits : freeSpace blocks' ≤ h.poolSize) (pool : h'.poolSize = h.poolSize)
    (more : freeSpace blocks ≤ freeSpace blocks') (available : h'.availableSize = freeSpace blocks')
    (most : h'.maxUsedSize = h.maxUsedSize)
    (levels : h'.levels = h.levels ++ [sub32 h.poolSize h'.availableSize]) : Counted h' blocks' := by
  have level : sub32 h.poolSize h'.availableSize = h.poolSize - h'.availableSize :=
    sub32_eq (by rw [available]; exact fits) word
  have last : h.poolSize - h.availableSize ∈ h.levels := List.mem_of_getLast? counted.current
  have below := counted.highest _ last
  rw [counted.available] at below
  rw [level] at levels
  constructor
  · exact available
  · rw [most, levels]
    exact List.mem_append_left _ counted.reached
  · intro other inside
    rw [levels] at inside
    rw [most]
    rcases List.mem_append.mp inside with old | new
    · exact counted.highest other old
    · rw [List.mem_singleton.mp new, available]
      omega
  · rw [levels, pool, List.getLast?_concat]

theorem Ground.freeSpace_le (ground : Ground h blocks) : freeSpace blocks + 24 ≤ h.poolSize := by
  have size := ground.size
  have below := Memheap.freeSpace_le blocks
  omega

theorem Repr.others (repr : Repr h (first ++ ⟨c, false⟩ :: rest) (xs ++ p :: ys))
    (place : p = h.startAddr + span itemSpan first) (q : Nat) :
    q ∈ xs ++ ys ↔ At false h.startAddr first q ∨ At false (p + 24 + c) rest q := by
  have here := repr.listed q
  have once := repr.frees.once
  rw [at_mid, ← place] at here
  simp only [List.mem_append, List.mem_cons, and_true, not_or] at here once ⊢
  by_cases own : q = p
  · subst own
    constructor
    · rintro (member | member)
      · exact absurd member once.2.1
      · exact absurd member once.2.2
    · rintro (low | high)
      · have below := low.below
        omega
      · have below := high.below
        omega
  · tauto

theorem Repr.release (repr : Repr h blocks free) : Repr h.release blocks free where
  toHeld := repr.toHeld.adjust _ _ _
  toCounted := by
    have fits := repr.toGround.freeSpace_le
    have pool : h.release.poolSize = h.poolSize := rfl
    exact repr.toCounted.refund repr.word (by omega) pool (Nat.le_refl _) repr.available rfl rfl
  listed := repr.listed
  coalesced := repr.coalesced

end RtThread.Memheap
