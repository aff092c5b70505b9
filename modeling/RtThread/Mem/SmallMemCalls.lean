import RtThread.Mem.SmallMemOps

/-! What each call of the heap's interface does to the list of blocks. -/

set_option autoImplicit false

namespace RtThread.Mem

open RtThread.Lib

variable (cfg : Config)

/-- The block list after a request of `size` bytes is served from a free block. -/
def allot (first : List Block) (capacity size : Nat) (rest : List Block) : List Block :=
  if size + cfg.sizeofStructMem + cfg.minSizeAligned ≤ capacity then
    first ++ ⟨size, true⟩ :: ⟨capacity - size - cfg.sizeofStructMem, false⟩ :: rest
  else first ++ ⟨capacity, true⟩ :: rest

/-- A free block with room for `size` bytes. -/
def Suits (size : Nat) (b : Block) : Bool := !b.used && decide (size ≤ b.capacity)

/-! ## The two loops -/

theorem allocSearch_eq {h : SmallMem} {size : Nat} (bound : size ≤ h.memSizeAligned)
    (first rest : List Block) (listed : Listed cfg h (first ++ rest)) (fuel : Nat) (enough : rest.length < fuel) :
    allocSearch cfg h size fuel (span (blockSize cfg) first) =
      some (((layout (blockSize cfg) (span (blockSize cfg) first) rest).find?
        fun entry => Suits size entry.2).map Prod.fst) := by
  induction rest generalizing first fuel with
  | nil =>
    obtain ⟨fuel, rfl⟩ := Nat.exists_eq_succ_of_ne_zero (by omega : fuel ≠ 0)
    have total := listed.total
    have endEq := listed.end_eq
    have structPos := cfg.sizeofStructMem_pos
    rw [List.append_nil] at total
    simp only [allocSearch, layout_nil, List.find?_nil, Option.map_none]
    rw [if_neg (by omega)]
  | cons b rest ih =>
    obtain ⟨fuel, rfl⟩ := Nat.exists_eq_succ_of_ne_zero (by omega : fuel ≠ 0)
    have itemEq := listed.item_at
    have total := listed.total
    have endEq := listed.end_eq
    simp only [span_append, span_cons, blockSize] at total
    simp only [List.length_cons] at enough
    simp only [allocSearch, itemEq]
    have gap : span (blockSize cfg) first + blockSize cfg b - (span (blockSize cfg) first + cfg.sizeofStructMem) =
        b.capacity := by simp only [blockSize]; omega
    rw [gap]
    by_cases inside : span (blockSize cfg) first ≤ h.memSizeAligned - size
    · rw [if_pos inside]
      by_cases fit : b.used = false ∧ size ≤ b.capacity
      · rw [if_pos fit]
        simp [Suits, fit]
      · rw [if_neg fit]
        have step := ih (first ++ [b]) (by simpa using listed) fuel (by omega)
        simp only [span_append, span_cons, span_nil, Nat.add_zero] at step
        have unfit : Suits size b = false := by
          simp only [Suits, Bool.and_eq_false_imp, Bool.not_eq_true', decide_eq_false_iff_not]
          exact fun free => fun room => fit ⟨free, room⟩
        rw [step, layout_cons, List.find?_cons_of_neg (by simp [unfit])]
    · rw [if_neg inside]
      -- every block from here on ends inside the region, so it is too small
      have small : ∀ entry ∈ layout (blockSize cfg) (span (blockSize cfg) first) (b :: rest),
          Suits size entry.2 = false := by
        intro entry member
        have bounds := layout_bounds (blockSize cfg) (show (entry.1, entry.2) ∈ _ from member)
        simp only [span_cons, blockSize] at bounds
        simp only [Suits, Bool.and_eq_false_imp, decide_eq_false_iff_not]
        intro _
        omega
      rw [List.find?_eq_none.mpr fun entry member => by simp [small entry member]]
      rfl

theorem nextFree_eq {h : SmallMem} (first rest : List Block) (listed : Listed cfg h (first ++ rest))
    (fuel : Nat) (enough : rest.length < fuel) :
    nextFree h fuel (span (blockSize cfg) first) =
      some (firstFree cfg (span (blockSize cfg) first) rest) := by
  induction rest generalizing first fuel with
  | nil =>
    obtain ⟨fuel, rfl⟩ := Nat.exists_eq_succ_of_ne_zero (by omega : fuel ≠ 0)
    have total := listed.total
    rw [List.append_nil] at total
    simp [nextFree, total, firstFree]
  | cons b rest ih =>
    obtain ⟨fuel, rfl⟩ := Nat.exists_eq_succ_of_ne_zero (by omega : fuel ≠ 0)
    have itemEq := listed.item_at
    have below := listed.span_lt
    simp only [List.length_cons] at enough
    simp only [nextFree, itemEq, firstFree]
    cases status : b.used with
    | false => simp
    | true =>
      have step := ih (first ++ [b]) (by simpa using listed) fuel (by omega)
      simp only [span_append, span_cons, span_nil, Nat.add_zero] at step
      rw [if_pos ⟨rfl, by omega⟩, step]
      simp

theorem Listed.length_lt_fuel {h : SmallMem} {blocks : List Block} (listed : Listed cfg h blocks) :
    blocks.length < h.loopFuel := by
  have := length_le_span (blockSize cfg) (blockSize_pos cfg) blocks
  rw [listed.total] at this
  unfold SmallMem.loopFuel
  omega

/-! ## Allocation -/

theorem firstFree_cases (blocks : List Block) (offset : Nat) :
    ∃ first rest, blocks = first ++ rest ∧ (∀ b ∈ first, b.used = true) ∧
      firstFree cfg offset blocks = offset + span (blockSize cfg) first := by
  induction blocks generalizing offset with
  | nil => exact ⟨[], [], rfl, by simp, by simp [firstFree]⟩
  | cons b rest ih =>
    cases status : b.used with
    | false => exact ⟨[], b :: rest, rfl, by simp, by simp [firstFree, status]⟩
    | true =>
      obtain ⟨first, rest, rfl, used, position⟩ := ih (offset + blockSize cfg b)
      refine ⟨b :: first, rest, rfl, ?_, ?_⟩
      · simpa [status] using used
      · simp [firstFree, status, position, Nat.add_assoc]

theorem allocTake_listed {h : SmallMem} {first rest : List Block} {capacity size : Nat}
    (listed : Listed cfg h (first ++ ⟨capacity, false⟩ :: rest)) (aligned : cfg.alignSize ∣ size) :
    let h' := allocTake cfg h (span (blockSize cfg) first) size
    Listed cfg h' (allot cfg first capacity size rest) ∧ SameObject h h' ∧ h'.lfree = h.lfree := by
  intro h'
  have itemEq := listed.item_at
  have gap : (h.item (span (blockSize cfg) first)).next - (span (blockSize cfg) first + cfg.sizeofStructMem) =
      capacity := by rw [itemEq]; simp only [blockSize]; omega
  by_cases large : size + cfg.sizeofStructMem + cfg.minSizeAligned ≤ capacity
  · obtain ⟨same, lfree, -⟩ := splitBlock_fields cfg h (span (blockSize cfg) first) size
    have cut := listed.split cfg (by omega) aligned
    have counted : Listed cfg ((splitBlock cfg h (span (blockSize cfg) first) size).addUsed
        (size + cfg.sizeofStructMem)) _ := cut.of_same cfg rfl ⟨rfl, rfl, rfl⟩
    have shape : h' = ((splitBlock cfg h (span (blockSize cfg) first) size).addUsed
        (size + cfg.sizeofStructMem)).markUsed cfg (span (blockSize cfg) first) := by
      simp only [h', allocTake, gap, if_pos large]
    rw [shape, allot, if_pos large]
    exact ⟨counted.mark cfg true, ⟨same.heapPtr, same.heapEnd, same.memSizeAligned⟩, lfree⟩
  · have counted : Listed cfg (h.addUsed ((h.item (span (blockSize cfg) first)).next -
        span (blockSize cfg) first)) _ := listed.of_same cfg rfl ⟨rfl, rfl, rfl⟩
    have shape : h' = (h.addUsed ((h.item (span (blockSize cfg) first)).next -
        span (blockSize cfg) first)).markUsed cfg (span (blockSize cfg) first) := by
      simp only [h', allocTake, gap, if_neg large]
    rw [shape, allot, if_neg large]
    exact ⟨counted.mark cfg true, ⟨rfl, rfl, rfl⟩, rfl⟩

theorem coalesced_allot {first rest : List Block} {capacity : Nat} (size : Nat)
    (coalesced : Coalesced (first ++ ⟨capacity, false⟩ :: rest)) :
    Coalesced (allot cfg first capacity size rest) := by
  obtain ⟨before, after, -, head⟩ := coalesced_free.mp coalesced
  unfold allot
  split
  · exact coalesced_used.mpr ⟨before, (@coalesced_free [] _ _).mpr
      ⟨List.isChain_nil, after, by simp, head⟩⟩
  · exact coalesced_used.mpr ⟨before, after⟩

theorem requestSize_dvd (size : Nat) : cfg.alignSize ∣ requestSize cfg size := by
  unfold requestSize
  split
  · exact cfg.minSizeAligned_dvd
  · exact cfg.rtAlign_dvd _

inductive Allocated (blocks : List Block) (size : Nat) : Option Nat → List Block → Prop where
  | refused (unsuited : size = 0 ∨ ∀ b ∈ blocks, Suits (requestSize cfg size) b = false) :
      Allocated blocks size none blocks
  | served {first rest : List Block} {capacity : Nat} (shape : blocks = first ++ ⟨capacity, false⟩ :: rest)
      (room : requestSize cfg size ≤ capacity)
      (lowest : ∀ b ∈ first, Suits (requestSize cfg size) b = false) :
      Allocated blocks size (some (span (blockSize cfg) first + cfg.sizeofStructMem))
        (allot cfg first capacity (requestSize cfg size) rest)

theorem allocAt_repr {h : SmallMem} {first rest : List Block} {capacity size : Nat}
    (repr : Repr cfg h (first ++ ⟨capacity, false⟩ :: rest)) (aligned : cfg.alignSize ∣ size) :
    ∃ h', allocAt cfg h (span (blockSize cfg) first) size = some h' ∧
      Repr cfg h' (allot cfg first capacity size rest) ∧ SameObject h h' := by
  obtain ⟨listed, same, lfree⟩ := allocTake_listed cfg repr.toListed aligned
  have start := lfree.trans repr.lfree_eq
  have coalesced := coalesced_allot cfg size repr.coalesced
  have fuel := listed.length_lt_fuel
  have shape : ∃ tail, allot cfg first capacity size rest = first ++ tail := by
    unfold allot
    split <;> exact ⟨_, rfl⟩
  unfold allocAt
  dsimp only
  generalize allocTake cfg h (span (blockSize cfg) first) size = taken at *
  by_cases free : ∃ b ∈ first, b.used = false
  · -- a lower block is free, so `lfree` stays
    obtain ⟨-, below⟩ := firstFree_append_free cfg 0 (⟨capacity, false⟩ :: rest) [] free
    refine ⟨taken, if_neg (by omega), ⟨listed, coalesced, ?_⟩, same⟩
    obtain ⟨tail, shape⟩ := shape
    rw [start, shape]
    exact (firstFree_append_free cfg _ _ _ free).1
  · have used : ∀ b ∈ first, b.used = true := by simpa using free
    rw [firstFree_append_used cfg _ used] at start
    simp only [Nat.zero_add, firstFree, Bool.false_eq_true, if_false] at start
    obtain ⟨tail, shape⟩ := shape
    rw [shape] at listed coalesced fuel ⊢
    rw [List.length_append] at fuel
    have search := nextFree_eq cfg first tail listed taken.loopFuel (by omega)
    rw [if_pos start.symm, start, search]
    refine ⟨_, rfl, ⟨listed.of_same cfg rfl ⟨rfl, rfl, rfl⟩, coalesced, ?_⟩,
      ⟨same.heapPtr, same.heapEnd, same.memSizeAligned⟩⟩
    rw [firstFree_append_used cfg _ used, Nat.zero_add]

theorem rtSmemAlloc_repr {h : SmallMem} {blocks : List Block} (repr : Repr cfg h blocks) (size : Nat) :
    ∃ h' p blocks', rtSmemAlloc cfg h size = some (h', p) ∧ Allocated cfg blocks size p blocks' ∧
      Repr cfg h' blocks' ∧ SameObject h h' := by
  unfold rtSmemAlloc
  by_cases zero : size = 0
  · exact ⟨h, none, blocks, if_pos zero, .refused (.inl zero), repr, .refl h⟩
  rw [if_neg zero]
  have total := repr.total
  have endEq := repr.end_eq
  by_cases big : h.memSizeAligned < requestSize cfg size
  · refine ⟨h, none, blocks, if_pos big, .refused (.inr fun b member => ?_), repr, .refl h⟩
    obtain ⟨first, rest, rfl⟩ := List.append_of_mem member
    simp only [span_append, span_cons, blockSize] at total
    simp only [Suits, Bool.and_eq_false_imp, decide_eq_false_iff_not]
    intro _
    omega
  rw [if_neg big]
  obtain ⟨front, tail, rfl, frontUsed, start⟩ := firstFree_cases cfg blocks 0
  rw [Nat.zero_add] at start
  have fuel := repr.toListed.length_lt_fuel
  rw [List.length_append] at fuel
  have search := allocSearch_eq cfg (Nat.le_of_not_lt big) front tail repr.toListed h.loopFuel (by omega)
  rw [← start, ← repr.lfree_eq] at search
  rw [search]
  have frontUnfit : ∀ b ∈ front, Suits (requestSize cfg size) b = false := by
    intro b member
    simp [Suits, frontUsed b member]
  cases found : (layout (blockSize cfg) h.lfree tail).find? fun entry => Suits (requestSize cfg size) entry.2 with
  | none =>
    refine ⟨h, none, _, rfl, .refused (.inr fun b member => ?_), repr, .refl h⟩
    rcases List.mem_append.mp member with member | member
    · exact frontUnfit b member
    · obtain ⟨first, rest, rfl⟩ := List.append_of_mem member
      have := List.find?_eq_none.mp found (h.lfree + span (blockSize cfg) first, b)
        ((mem_layout_iff _).mpr ⟨first, rest, rfl, rfl⟩)
      simpa using this
  | some entry =>
    obtain ⟨fit, before, after, cut, passed⟩ := List.find?_eq_some_iff_append.mp found
    obtain ⟨middle, rest, rfl, rfl, position⟩ := layout_split _ cut
    obtain ⟨place, capacity, status⟩ := entry
    simp only [Suits, Bool.and_eq_true, Bool.not_eq_true', decide_eq_true_eq] at fit
    obtain ⟨rfl, room⟩ := fit
    have placeEq : place = span (blockSize cfg) (front ++ middle) := by
      rw [span_append, ← start, ← repr.lfree_eq]; exact position
    rw [← List.append_assoc] at repr ⊢
    obtain ⟨h', taken, repr', same⟩ := allocAt_repr cfg repr (requestSize_dvd cfg size)
    refine ⟨h', _, _, ?_, .served rfl room ?_, repr', same⟩
    · simp only [Option.map_some, placeEq, taken]
    · intro b member
      rcases List.mem_append.mp member with member | member
      · exact frontUnfit b member
      · obtain ⟨first, rest, rfl⟩ := List.append_of_mem member
        have := passed (h.lfree + span (blockSize cfg) first, b)
          ((mem_layout_iff _).mpr ⟨first, rest, rfl, rfl⟩)
        simpa using this

/-! ## Release -/

theorem plugHoles_lowered {h : SmallMem} {first rest : List Block} {capacity : Nat}
    (listed : Listed cfg h (first ++ ⟨capacity, false⟩ :: rest))
    (lfree : h.lfree = firstFree cfg 0 (first ++ ⟨capacity, true⟩ :: rest))
    (before : Coalesced first) (after : Coalesced rest) (amount : Nat) :
    let h' := plugHoles cfg ((h.lowerFree (span (blockSize cfg) first)).subUsed amount)
      (span (blockSize cfg) first)
    Repr cfg h' (release cfg first capacity rest) ∧ SameObject h h' ∧ h'.used = h.used - amount ∧
      h'.max = h.max := by
  have lowered := firstFree_mark cfg 0 first rest capacity
  rw [← lfree, Nat.zero_add] at lowered
  obtain ⟨repr, same, used, max⟩ := plugHoles_repr cfg
    (h := (h.lowerFree (span (blockSize cfg) first)).subUsed amount)
    (listed.of_same cfg rfl ⟨rfl, rfl, rfl⟩) lowered.symm before after
  exact ⟨repr, ⟨same.heapPtr, same.heapEnd, same.memSizeAligned⟩, used, max⟩

theorem rtSmemFree_repr {h : SmallMem} {first rest : List Block} {capacity : Nat}
    (repr : Repr cfg h (first ++ ⟨capacity, true⟩ :: rest)) :
    let h' := rtSmemFree cfg h (some (span (blockSize cfg) first + cfg.sizeofStructMem))
    Repr cfg h' (release cfg first capacity rest) ∧ SameObject h h' := by
  obtain ⟨before, after⟩ := coalesced_used.mp repr.coalesced
  have freed : Listed cfg (h.markFreed cfg (span (blockSize cfg) first)) _ := repr.toListed.mark cfg false
  simp only [rtSmemFree, Nat.add_sub_cancel]
  obtain ⟨repr', same, -, -⟩ := plugHoles_lowered cfg freed repr.lfree_eq before after _
  exact ⟨repr', ⟨same.heapPtr, same.heapEnd, same.memSizeAligned⟩⟩

/-! ## Resizing -/

theorem firstFree_split (first rest : List Block) (capacity size : Nat)
    (fits : size + cfg.sizeofStructMem ≤ capacity) :
    firstFree cfg 0 (first ++ ⟨capacity, true⟩ :: rest) =
      firstFree cfg 0 ((first ++ [⟨size, true⟩]) ++ ⟨capacity - size - cfg.sizeofStructMem, true⟩ :: rest) := by
  by_cases free : ∃ b ∈ first, b.used = false
  · rw [List.append_assoc]
    exact (firstFree_append_free cfg _ _ _ free).1
  · have used : ∀ b ∈ first, b.used = true := by simpa using free
    rw [List.append_assoc, firstFree_append_used cfg _ used, firstFree_append_used cfg _ used]
    simp only [firstFree, if_true, List.cons_append, List.nil_append, blockSize]
    congr 1
    omega

theorem Listed.writeBytes {h : SmallMem} {first rest : List Block} {b : Block}
    (listed : Listed cfg h (first ++ b :: rest)) {start len : Nat}
    (low : span (blockSize cfg) first + cfg.sizeofStructMem ≤ start)
    (high : start + len ≤ span (blockSize cfg) first + blockSize cfg b) (data : Nat → UInt8) (spelled : Nat → SmallMemItem) :
    Listed cfg (h.writeBytes cfg start len data spelled) (first ++ b :: rest) := by
  have here : (span (blockSize cfg) first, b) ∈ layout (blockSize cfg) 0 (first ++ b :: rest) :=
    (mem_layout_iff _).mpr ⟨first, rest, rfl, by simp⟩
  have total := listed.total
  simp only [blockSize] at high
  simp only [span_append, span_cons, blockSize] at total
  have kept : ∀ offset, (offset < start + len → ¬ start < offset + cfg.sizeofStructMem) →
      (h.writeBytes cfg start len data spelled).item offset = h.item offset :=
    fun offset apart => if_neg (not_and.mpr apart)
  have endItem := kept h.heapEnd (by omega)
  refine ⟨listed.linked.congr cfg fun entry member => kept _ ?_, listed.total, listed.end_eq, ?_, ?_,
    listed.aligned⟩
  · rcases layout_separate _ member here with rfl | apart | apart
    · simp only; omega
    · simp only [blockSize] at apart; omega
    · simp only [blockSize] at apart; omega
  · show ((h.writeBytes cfg start len data spelled).item h.heapEnd).pool = true
    rw [endItem]
    exact listed.end_pool
  · show ((h.writeBytes cfg start len data spelled).item h.heapEnd).used = true
    rw [endItem]
    exact listed.end_used

/-- `offset` is the start of a used block with `capacity` data bytes. -/
def Live (blocks : List Block) (offset capacity : Nat) : Prop :=
  (offset, ⟨capacity, true⟩) ∈ layout (blockSize cfg) 0 blocks

theorem live_iff {blocks : List Block} {offset capacity : Nat} : Live cfg blocks offset capacity ↔
    ∃ first rest, blocks = first ++ ⟨capacity, true⟩ :: rest ∧ offset = span (blockSize cfg) first := by
  unfold Live
  rw [mem_layout_iff]
  simp

theorem live_append {first rest : List Block} {b : Block} {offset c : Nat} :
    Live cfg (first ++ b :: rest) offset c ↔
      Live cfg first offset c ∨ (offset = span (blockSize cfg) first ∧ b = ⟨c, true⟩) ∨
        (offset, ⟨c, true⟩) ∈ layout (blockSize cfg) (span (blockSize cfg) first + blockSize cfg b) rest := by
  unfold Live
  rw [layout_append]
  simp [eq_comm]

theorem live_free {first rest : List Block} {capacity offset c : Nat} :
    Live cfg (first ++ ⟨capacity, false⟩ :: rest) offset c ↔
      Live cfg first offset c ∨
        (offset, ⟨c, true⟩) ∈ layout (blockSize cfg)
          (span (blockSize cfg) first + (cfg.sizeofStructMem + capacity)) rest := by
  rw [live_append]
  simp [blockSize]

theorem live_mergeNext {first rest : List Block} {capacity offset c : Nat} :
    Live cfg (first ++ ⟨(mergeNext cfg capacity rest).1, false⟩ :: (mergeNext cfg capacity rest).2) offset c ↔
      Live cfg (first ++ ⟨capacity, false⟩ :: rest) offset c := by
  rcases rest with _ | ⟨⟨other, status⟩, rest⟩
  · rfl
  · cases status with
    | true => rfl
    | false =>
      rw [live_free, live_free, layout_cons]
      simp only [mergeNext, blockSize, List.mem_cons, Prod.mk.injEq, Block.mk.injEq, Bool.true_eq_false,
        and_false, false_or, Nat.add_assoc]

theorem live_mergePrev {first rest : List Block} {capacity offset c : Nat} :
    Live cfg (mergePrev cfg first capacity rest) offset c ↔
      Live cfg (first ++ ⟨capacity, false⟩ :: rest) offset c := by
  rcases List.eq_nil_or_concat' first with rfl | ⟨init, ⟨other, status⟩, rfl⟩
  · rfl
  · cases status with
    | true => simp [mergePrev]
    | false =>
      have shape : mergePrev cfg (init ++ [⟨other, false⟩]) capacity rest =
          init ++ ⟨other + cfg.sizeofStructMem + capacity, false⟩ :: rest := by simp [mergePrev]
      rw [shape, List.append_assoc, List.cons_append, List.nil_append, live_free, live_free, layout_cons]
      simp only [blockSize, List.mem_cons, Prod.mk.injEq, Block.mk.injEq, Bool.true_eq_false,
        and_false, false_or, Nat.add_assoc]

theorem live_release {first rest : List Block} {capacity offset c : Nat} :
    Live cfg (release cfg first capacity rest) offset c ↔ Live cfg (first ++ ⟨capacity, false⟩ :: rest) offset c :=
  (live_mergePrev cfg).trans (live_mergeNext cfg)

theorem release_live (first rest : List Block) (capacity offset c : Nat) :
    Live cfg (release cfg first capacity rest) offset c ↔
      Live cfg (first ++ ⟨capacity, true⟩ :: rest) offset c ∧ offset ≠ span (blockSize cfg) first := by
  have positive := blockSize_pos cfg ⟨capacity, true⟩
  rw [live_release, live_free, live_append]
  constructor
  · rintro (low | high)
    · have bounds := layout_bounds _ low
      have size := blockSize_pos cfg ⟨c, true⟩
      exact ⟨.inl low, by omega⟩
    · have bounds := layout_bounds _ high
      exact ⟨.inr (.inr high), by have := cfg.sizeofStructMem_pos; omega⟩
  · rintro ⟨low | ⟨here, -⟩ | high, other⟩
    · exact .inl low
    · exact absurd here other
    · exact .inr high

inductive Reallocated (first : List Block) (capacity : Nat) (rest : List Block) (newsize : Nat) :
    Option Nat → List Block → Prop where
  | refused (nonzero : cfg.rtAlign newsize ≠ 0) :
      Reallocated first capacity rest newsize none (first ++ ⟨capacity, true⟩ :: rest)
  | freed (zero : cfg.rtAlign newsize = 0) :
      Reallocated first capacity rest newsize none (release cfg first capacity rest)
  | kept (same : capacity = cfg.rtAlign newsize) :
      Reallocated first capacity rest newsize (some (span (blockSize cfg) first + cfg.sizeofStructMem))
        (first ++ ⟨capacity, true⟩ :: rest)
  | shrunk (nonzero : cfg.rtAlign newsize ≠ 0)
      (room : cfg.rtAlign newsize + cfg.sizeofStructMem + cfg.minSize < capacity) :
      Reallocated first capacity rest newsize (some (span (blockSize cfg) first + cfg.sizeofStructMem))
        (release cfg (first ++ [⟨cfg.rtAlign newsize, true⟩])
          (capacity - cfg.rtAlign newsize - cfg.sizeofStructMem) rest)
  | moved {q : Nat} {blocks : List Block} {first' rest' : List Block} (nonzero : cfg.rtAlign newsize ≠ 0)
      (allocated : Allocated cfg (first ++ ⟨capacity, true⟩ :: rest) (cfg.rtAlign newsize) (some q) blocks)
      (shape : blocks = first' ++ ⟨capacity, true⟩ :: rest')
      (position : span (blockSize cfg) first' = span (blockSize cfg) first) :
      Reallocated first capacity rest newsize (some q) (release cfg first' capacity rest')

theorem Allocated.live {blocks blocks' : List Block} {size q : Nat}
    (allocated : Allocated cfg blocks size (some q) blocks') :
    ∃ offset capacity, q = offset + cfg.sizeofStructMem ∧ requestSize cfg size ≤ capacity ∧
      (∀ c, ¬ Live cfg blocks offset c) ∧
      ∀ o c, Live cfg blocks' o c ↔ Live cfg blocks o c ∨ (o = offset ∧ c = capacity) := by
  cases allocated with
  | @served first rest capacity shape room lowest =>
    subst shape
    have fresh : ∀ c, ¬ Live cfg (first ++ ⟨capacity, false⟩ :: rest) (span (blockSize cfg) first) c := by
      intro c live
      have here : (span (blockSize cfg) first, ⟨capacity, false⟩) ∈
          layout (blockSize cfg) 0 (first ++ ⟨capacity, false⟩ :: rest) :=
        (mem_layout_iff _).mpr ⟨first, rest, rfl, (Nat.zero_add _).symm⟩
      cases layout_functional _ (blockSize_pos cfg) live here
    by_cases large : requestSize cfg size + cfg.sizeofStructMem + cfg.minSizeAligned ≤ capacity
    · refine ⟨_, requestSize cfg size, rfl, Nat.le_refl _, fresh, fun o c => ?_⟩
      have places : span (blockSize cfg) first + blockSize cfg ⟨requestSize cfg size, true⟩ +
          blockSize cfg ⟨capacity - requestSize cfg size - cfg.sizeofStructMem, false⟩ =
            span (blockSize cfg) first + (cfg.sizeofStructMem + capacity) := by
        simp only [blockSize]; omega
      rw [allot, if_pos large, live_append, live_free, layout_cons, places]
      simp only [List.mem_cons, Prod.mk.injEq, Block.mk.injEq, Bool.true_eq_false, and_false, false_or,
        and_true]
      tauto
    · refine ⟨_, capacity, rfl, room, fresh, fun o c => ?_⟩
      rw [allot, if_neg large, live_append, live_free]
      simp only [blockSize, Block.mk.injEq, and_true]
      tauto

theorem Allocated.live_none {blocks blocks' : List Block} {size : Nat}
    (allocated : Allocated cfg blocks size none blocks') : blocks' = blocks := by
  cases allocated
  rfl

theorem rtAlign_le_requestSize (size : Nat) : cfg.rtAlign size ≤ requestSize cfg (cfg.rtAlign size) := by
  have same := cfg.rtAlign_of_dvd (cfg.rtAlign_dvd size) (cfg.rtAlign_lt size)
  unfold requestSize
  rw [same]
  split <;> omega

theorem rtMemcpy_repr {h : SmallMem} {first rest : List Block} {b : Block}
    (repr : Repr cfg h (first ++ b :: rest)) (src : Nat) {count : Nat} (fits : count ≤ b.capacity) :
    let h' := rtMemcpy cfg h (span (blockSize cfg) first + cfg.sizeofStructMem) src count
    Repr cfg h' (first ++ b :: rest) ∧ SameObject h h' := by
  have high : span (blockSize cfg) first + cfg.sizeofStructMem + count ≤
      span (blockSize cfg) first + blockSize cfg b := by simp only [blockSize]; omega
  exact ⟨⟨repr.toListed.writeBytes cfg (Nat.le_refl _) high _ _, repr.coalesced, repr.lfree_eq⟩, rfl, rfl, rfl⟩

theorem moved_repr {h : SmallMem} {blocks : List Block} {old new capacity : Nat} (src : Nat)
    (repr : Repr cfg h blocks) (hold : Live cfg blocks old capacity) {size count : Nat}
    (hnew : Live cfg blocks new size) (fits : count ≤ size) :
    ∃ first rest, blocks = first ++ ⟨capacity, true⟩ :: rest ∧ span (blockSize cfg) first = old ∧
      let h' := rtSmemFree cfg (rtMemcpy cfg h (new + cfg.sizeofStructMem) src count)
        (some (old + cfg.sizeofStructMem))
      Repr cfg h' (release cfg first capacity rest) ∧ SameObject h h' := by
  obtain ⟨before, after, rfl, rfl⟩ := (live_iff cfg).mp hnew
  obtain ⟨copied, same⟩ := rtMemcpy_repr cfg repr src fits
  obtain ⟨first, rest, shape, rfl⟩ := (live_iff cfg).mp hold
  rw [shape] at copied
  obtain ⟨freed, same'⟩ := rtSmemFree_repr cfg copied
  exact ⟨first, rest, shape, rfl, freed, same.trans same'⟩

theorem shrunk_repr {h : SmallMem} {first rest : List Block} {capacity size : Nat}
    (repr : Repr cfg h (first ++ ⟨capacity, true⟩ :: rest)) (inside : size + cfg.sizeofStructMem ≤ capacity)
    (aligned : cfg.alignSize ∣ size) (amount : Nat) :
    let mem2 := span (blockSize cfg) first + cfg.sizeofStructMem + size
    let h' := plugHoles cfg ((splitBlock cfg (h.subUsed amount) (span (blockSize cfg) first) size).lowerFree mem2) mem2
    Repr cfg h' (release cfg (first ++ [⟨size, true⟩]) (capacity - size - cfg.sizeofStructMem) rest) ∧ SameObject h h' ∧
      h'.used = h.used - amount ∧ h'.max = h.max := by
  obtain ⟨before, after⟩ := coalesced_used.mp repr.coalesced
  have counted : Listed cfg (h.subUsed amount) _ := repr.toListed.of_same cfg rfl ⟨rfl, rfl, rfl⟩
  have cut := counted.split cfg inside aligned
  obtain ⟨same, lfree, used, max⟩ := splitBlock_fields cfg (h.subUsed amount) (span (blockSize cfg) first) size
  rw [List.append_cons] at cut
  obtain ⟨repr', same', used', max'⟩ := plugHoles_lowered cfg cut
    (lfree.trans (repr.lfree_eq.trans (firstFree_split cfg first rest capacity _ inside)))
    (coalesced_used.mpr ⟨before, List.isChain_nil⟩) after 0
  have place : span (blockSize cfg) (first ++ [⟨size, true⟩]) =
      span (blockSize cfg) first + cfg.sizeofStructMem + size := by
    simp only [span_append, span_cons, span_nil, blockSize]; omega
  rw [place] at repr' same' used' max'
  exact ⟨repr', ⟨same'.heapPtr.trans same.heapPtr, same'.heapEnd.trans same.heapEnd,
    same'.memSizeAligned.trans same.memSizeAligned⟩, used'.trans used, max'.trans max⟩

theorem rtSmemRealloc_repr {h : SmallMem} {first rest : List Block} {capacity : Nat}
    (repr : Repr cfg h (first ++ ⟨capacity, true⟩ :: rest)) (newsize : Nat) :
    ∃ h' p blocks', rtSmemRealloc cfg h (some (span (blockSize cfg) first + cfg.sizeofStructMem)) newsize =
        some (h', p) ∧
      Reallocated cfg first capacity rest newsize p blocks' ∧ Repr cfg h' blocks' ∧ SameObject h h' := by
  have itemEq := repr.toListed.item_at
  have size : (h.item (span (blockSize cfg) first)).next - span (blockSize cfg) first - cfg.sizeofStructMem =
      capacity := by rw [itemEq]; simp only [blockSize]; omega
  unfold rtSmemRealloc
  simp only [Nat.add_sub_cancel, size]
  by_cases big : h.memSizeAligned < cfg.rtAlign newsize
  · exact ⟨h, none, _, if_pos big, .refused (by omega), repr, .refl h⟩
  rw [if_neg big]
  by_cases zero : cfg.rtAlign newsize = 0
  · obtain ⟨freed, same⟩ := rtSmemFree_repr cfg repr
    exact ⟨_, none, _, if_pos zero, .freed zero, freed, same⟩
  rw [if_neg zero]
  by_cases fits : capacity = cfg.rtAlign newsize
  · exact ⟨h, _, _, if_pos fits, .kept fits, repr, .refl h⟩
  rw [if_neg fits]
  by_cases room : cfg.rtAlign newsize + cfg.sizeofStructMem + cfg.minSize < capacity
  · rw [if_pos room]
    refine ⟨_, _, _, rfl, .shrunk zero room, ?_⟩
    obtain ⟨repr', same, -⟩ := shrunk_repr cfg repr (by omega) (cfg.rtAlign_dvd newsize) (capacity - cfg.rtAlign newsize)
    exact ⟨repr', same⟩
  · rw [if_neg room]
    obtain ⟨h₁, p, blocks, call, allocated, repr₁, same₁⟩ := rtSmemAlloc_repr cfg repr (cfg.rtAlign newsize)
    rw [call]
    cases p with
    | none =>
      obtain rfl := allocated.live_none
      exact ⟨h₁, none, _, rfl, .refused zero, repr₁, same₁⟩
    | some q =>
      obtain ⟨offset, taken, rfl, enough, -, lives⟩ := allocated.live
      have old := (lives _ _).mpr (.inl ((live_iff cfg).mpr ⟨first, rest, rfl, rfl⟩))
      have new := (lives offset taken).mpr (.inr ⟨rfl, rfl⟩)
      have least := rtAlign_le_requestSize cfg newsize
      have fitsNew : (if capacity < cfg.rtAlign newsize then capacity else cfg.rtAlign newsize) ≤ taken := by
        split <;> omega
      obtain ⟨first', rest', shape, position, moved, same₂⟩ := moved_repr cfg
        (span (blockSize cfg) first + cfg.sizeofStructMem) repr₁ old new fitsNew
      exact ⟨_, _, _, rfl, .moved zero allocated shape position, moved, same₁.trans same₂⟩

theorem rtSmemRealloc_null {h : SmallMem} {blocks : List Block} (repr : Repr cfg h blocks) (newsize : Nat) :
    ∃ h' p blocks', rtSmemRealloc cfg h none newsize = some (h', p) ∧
      Allocated cfg blocks (if h.memSizeAligned < cfg.rtAlign newsize then 0 else cfg.rtAlign newsize) p blocks' ∧
      Repr cfg h' blocks' ∧ SameObject h h' := by
  unfold rtSmemRealloc
  dsimp only
  by_cases big : h.memSizeAligned < cfg.rtAlign newsize
  · rw [if_pos big, if_pos big]
    exact ⟨h, none, blocks, rfl, .refused (.inl rfl), repr, .refl h⟩
  rw [if_neg big, if_neg big]
  by_cases zero : cfg.rtAlign newsize = 0
  · rw [if_pos zero, zero]
    exact ⟨h, none, blocks, rfl, .refused (.inl rfl), repr, .refl h⟩
  · rw [if_neg zero]
    exact rtSmemAlloc_repr cfg repr _

end RtThread.Mem
