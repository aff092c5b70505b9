import RtThread.Mem.SmallMemFit

/-! What `rt_smem_realloc` does to the bytes of the blocks in use.

The heap writes items only, and an item stands at the edge of a block; the one
write into a data area is the copy into the block a resize moves to.
-/

set_option autoImplicit false
namespace RtThread.Mem
open RtThread.Lib

variable (cfg : Config)

/-- A byte that belongs to the item at `offset` -/
def Covers (offset place : Nat) : Prop := offset ≤ place ∧ place < offset + cfg.sizeofStructMem

def Edge (blocks : List Block) (offset : Nat) : Prop :=
  ∃ first rest, blocks = first ++ rest ∧ offset = span (blockSize cfg) first

/-- Nothing is written but the items at the edges of `blocks`. -/
def OnlyItems (blocks : List Block) (h h' : SmallMem) : Prop :=
  ∀ place, (∀ offset, Edge cfg blocks offset → ¬Covers cfg offset place) → h'.byte place = h.byte place

/-! ## The bytes under each write -/

section writes
variable {cfg} {h : SmallMem} {place : Nat}

theorem setItem_byte {offset : Nat} (value : SmallMemItem) (apart : ¬Covers cfg offset place) :
    (h.setItem cfg offset value).byte place = h.byte place := if_neg apart

theorem combine_byte {low high : Nat} (lowApart : ¬Covers cfg low place) (highApart : ¬Covers cfg high place)
    (nextApart : ¬Covers cfg (h.item high).next place) : (combine cfg h low high).byte place = h.byte place := by
  have next : ((h.clearPool cfg high).item high).next = (h.item high).next := by
    simp [SmallMem.clearPool, SmallMemItem.withPool]
  unfold combine
  dsimp only
  rw [next]
  exact (setItem_byte _ nextApart).trans ((setItem_byte _ lowApart).trans (setItem_byte _ highApart))

theorem plugForward_byte {mem : Nat} (memApart : ¬Covers cfg mem place) (nextApart : ¬Covers cfg (h.item mem).next place)
    (overApart : (h.item mem).next ≠ h.heapEnd → ¬Covers cfg (h.item (h.item mem).next).next place) :
    (plugForward cfg h mem).byte place = h.byte place := by
  unfold plugForward
  dsimp only
  by_cases plug : mem ≠ (h.item mem).next ∧ (h.item (h.item mem).next).used = false ∧ (h.item mem).next ≠ h.heapEnd
  · rw [if_pos plug]
    have apart := overApart plug.2.2
    by_cases lowest : h.lfree = (h.item mem).next
    · rw [if_pos lowest]
      exact combine_byte (h := { h with lfree := mem }) memApart nextApart apart
    · rw [if_neg lowest]
      exact combine_byte memApart nextApart apart
  · rw [if_neg plug]

theorem plugBackward_byte {mem : Nat} (prevApart : ¬Covers cfg (h.item mem).prev place)
    (memApart : ¬Covers cfg mem place) (nextApart : ¬Covers cfg (h.item mem).next place) :
    (plugBackward cfg h mem).byte place = h.byte place := by
  unfold plugBackward
  dsimp only
  by_cases plug : (h.item mem).prev ≠ mem ∧ (h.item (h.item mem).prev).used = false
  · rw [if_pos plug]
    by_cases lowest : h.lfree = mem
    · rw [if_pos lowest]
      exact combine_byte (h := { h with lfree := (h.item mem).prev }) prevApart memApart nextApart
    · rw [if_neg lowest]
      exact combine_byte prevApart memApart nextApart
  · rw [if_neg plug]

theorem splitBlock_byte {ptr size : Nat} (ptrApart : ¬Covers cfg ptr place)
    (cutApart : ¬Covers cfg (ptr + cfg.sizeofStructMem + size) place)
    (nextApart : ¬Covers cfg (h.item ptr).next place) : (splitBlock cfg h ptr size).byte place = h.byte place := by
  unfold splitBlock
  dsimp only
  split
  · exact (setItem_byte _ nextApart).trans ((setItem_byte _ ptrApart).trans (setItem_byte _ cutApart))
  · exact (setItem_byte _ ptrApart).trans (setItem_byte _ cutApart)

end writes

/-! ## Edges -/

section edges
variable {cfg} {blocks first rest : List Block}

theorem edge_start : Edge cfg (first ++ rest) (span (blockSize cfg) first) := ⟨first, rest, rfl, rfl⟩

theorem edge_next {b : Block} : Edge cfg (first ++ b :: rest) (span (blockSize cfg) first + blockSize cfg b) :=
  ⟨first ++ [b], rest, by simp, by simp⟩

theorem edge_lastOffset : Edge cfg (first ++ rest) (lastOffset cfg 0 0 first) := by
  rcases List.eq_nil_or_concat' first with rfl | ⟨before, b, rfl⟩
  · exact ⟨[], rest, rfl, rfl⟩
  · rw [lastOffset_concat, Nat.zero_add]
    exact ⟨before, b :: rest, by simp, rfl⟩

theorem Edge.apart {offset o c i : Nat} (edge : Edge cfg blocks offset) (live : Live cfg blocks o c) (inside : i < c) :
    ¬Covers cfg offset (o + cfg.sizeofStructMem + i) := by
  obtain ⟨front, back, rfl, rfl⟩ := edge
  obtain ⟨before, after, shape, rfl⟩ := (live_iff cfg).mp live
  rintro ⟨low, high⟩
  rcases List.append_eq_append_iff.mp shape with ⟨middle, rfl, -⟩ | ⟨middle, rfl, tail⟩
  · rw [span_append] at high
    omega
  · cases middle with
    | nil =>
      rw [List.append_nil] at high
      omega
    | cons b middle =>
      obtain ⟨rfl, -⟩ := List.cons.inj tail
      simp only [span_append, span_cons, blockSize] at low
      omega

theorem OnlyItems.keeps {h h' : SmallMem} {o c : Nat} (only : OnlyItems cfg blocks h h') (live : Live cfg blocks o c)
    (i : Nat) (inside : i < c) : h'.byte (o + cfg.sizeofStructMem + i) = h.byte (o + cfg.sizeofStructMem + i) :=
  only _ fun _ edge => edge.apart live inside

theorem OnlyItems.trans {h₁ h₂ h₃ : SmallMem} (early : OnlyItems cfg blocks h₁ h₂) (late : OnlyItems cfg blocks h₂ h₃) :
    OnlyItems cfg blocks h₁ h₃ :=
  fun place apart => (late place apart).trans (early place apart)

end edges

/-! ## The ways through `rt_smem_realloc` -/

theorem rtSmemAlloc_refused {h h' : SmallMem} {size : Nat} (call : rtSmemAlloc cfg h size = some (h', none)) : h' = h := by
  unfold rtSmemAlloc at call
  split at call
  case isTrue => cases call; rfl
  split at call
  case isTrue => cases call; rfl
  split at call
  · cases call
  · cases call; rfl
  · obtain ⟨_, -, differ⟩ := Option.map_eq_some_iff.mp call
    cases differ

theorem rtSmemAlloc_taken {h h' : SmallMem} {size p : Nat} (call : rtSmemAlloc cfg h size = some (h', some p)) :
    ∃ ptr lfree, p = ptr + cfg.sizeofStructMem ∧
      h' = { allocTake cfg h ptr (requestSize cfg size) with lfree := lfree } := by
  unfold rtSmemAlloc at call
  split at call
  case isTrue => cases call
  split at call
  case isTrue => cases call
  split at call
  · cases call
  · cases call
  case h_3 ptr _ =>
    obtain ⟨taken, at_, same⟩ := Option.map_eq_some_iff.mp call
    cases same
    unfold allocAt at at_
    dsimp only at at_
    split at at_
    · obtain ⟨lfree, -, rfl⟩ := Option.map_eq_some_iff.mp at_
      exact ⟨ptr, lfree, rfl, rfl⟩
    · cases at_
      exact ⟨ptr, _, rfl, rfl⟩

/-- How a resize of `rmem` gets from `h` to the heap and the pointer it ends with -/
inductive Resized (h : SmallMem) (rmem newsize capacity : Nat) : SmallMem → Option Nat → Prop where
  | refused (nonzero : cfg.rtAlign newsize ≠ 0) : Resized h rmem newsize capacity h none
  | freed (zero : cfg.rtAlign newsize = 0) : Resized h rmem newsize capacity (rtSmemFree cfg h (some rmem)) none
  | kept (nonzero : cfg.rtAlign newsize ≠ 0) (same : capacity = cfg.rtAlign newsize) :
      Resized h rmem newsize capacity h (some rmem)
  | shrunk (nonzero : cfg.rtAlign newsize ≠ 0)
      (room : cfg.rtAlign newsize + cfg.sizeofStructMem + cfg.minSize < capacity) :
      Resized h rmem newsize capacity
        (plugHoles cfg ((splitBlock cfg (h.subUsed (capacity - cfg.rtAlign newsize)) (rmem - cfg.sizeofStructMem)
            (cfg.rtAlign newsize)).lowerFree (rmem + cfg.rtAlign newsize)) (rmem + cfg.rtAlign newsize))
        (some rmem)
  | moved {h₁ : SmallMem} {q : Nat} (nonzero : cfg.rtAlign newsize ≠ 0)
      (alloc : rtSmemAlloc cfg h (cfg.rtAlign newsize) = some (h₁, some q)) :
      Resized h rmem newsize capacity
        (rtSmemFree cfg (rtMemcpy cfg h₁ q rmem (if capacity < cfg.rtAlign newsize then capacity else cfg.rtAlign newsize))
          (some rmem))
        (some q)

theorem rtSmemRealloc_resized {h h' : SmallMem} {rmem newsize : Nat} {result : Option Nat}
    (call : rtSmemRealloc cfg h (some rmem) newsize = some (h', result)) (inside : cfg.sizeofStructMem ≤ rmem) :
    Resized cfg h rmem newsize ((h.item (rmem - cfg.sizeofStructMem)).next - (rmem - cfg.sizeofStructMem) - cfg.sizeofStructMem)
      h' result := by
  unfold rtSmemRealloc at call
  dsimp only at call
  by_cases big : h.memSizeAligned < cfg.rtAlign newsize
  · rw [if_pos big] at call
    cases call
    exact .refused (by omega)
  rw [if_neg big] at call
  by_cases zero : cfg.rtAlign newsize = 0
  · rw [if_pos zero] at call
    cases call
    exact .freed zero
  rw [if_neg zero] at call
  generalize (h.item (rmem - cfg.sizeofStructMem)).next - (rmem - cfg.sizeofStructMem) - cfg.sizeofStructMem = capacity at call ⊢
  by_cases same : capacity = cfg.rtAlign newsize
  · rw [if_pos same] at call
    cases call
    exact .kept zero same
  rw [if_neg same] at call
  by_cases room : cfg.rtAlign newsize + cfg.sizeofStructMem + cfg.minSize < capacity
  · rw [if_pos room, Nat.sub_add_cancel inside] at call
    cases call
    exact .shrunk zero room
  rw [if_neg room] at call
  split at call
  · cases call
  case h_2 alloc =>
    cases call
    obtain rfl := rtSmemAlloc_refused cfg alloc
    exact .refused zero
  case h_3 alloc =>
    cases call
    exact .moved zero alloc

/-! ## The bytes under each operation -/

section operations
variable {cfg} {h : SmallMem} {first rest : List Block} {capacity : Nat}

theorem plugHoles_only (listed : Listed cfg h (first ++ ⟨capacity, false⟩ :: rest))
    (low : h.lfree ≤ span (blockSize cfg) first) :
    OnlyItems cfg (first ++ ⟨capacity, false⟩ :: rest) h (plugHoles cfg h (span (blockSize cfg) first)) := by
  intro place apart
  obtain ⟨merged, -⟩ := plugForward_listed cfg listed low
  have here := apart _ edge_start
  have behind := apart _ edge_next
  unfold plugHoles
  refine Eq.trans (plugBackward_byte ?_ here ?_) (plugForward_byte here ?_ ?_)
  · rw [merged.item_at]
    exact apart _ edge_lastOffset
  · rw [merged.item_at]
    rcases rest with _ | ⟨⟨other, status⟩, rest⟩
    · exact behind
    · cases status with
      | true => exact behind
      | false =>
        refine apart _ ⟨first ++ [⟨capacity, false⟩, ⟨other, false⟩], rest, by simp, ?_⟩
        simp only [mergeNext, blockSize, span_append, span_cons, span_nil]
        omega
  · rw [listed.item_at]
    exact behind
  · rw [listed.item_at]
    intro inner
    rcases rest with _ | ⟨b, rest⟩
    · exact absurd (by simpa using listed.total) inner
    · have whole : first ++ ⟨capacity, false⟩ :: b :: rest = (first ++ [⟨capacity, false⟩]) ++ b :: rest := by simp
      have next := Listed.item_at cfg (whole ▸ listed)
      simp only [span_append, span_cons, span_nil, Nat.add_zero] at next
      dsimp only
      rw [next]
      refine apart _ ⟨first ++ [⟨capacity, false⟩, b], rest, by simp, ?_⟩
      simp only [span_append, span_cons, span_nil]
      omega

theorem splitBlock_only {used : Bool} (listed : Listed cfg h (first ++ ⟨capacity, used⟩ :: rest)) {size : Nat}
    (fits : size + cfg.sizeofStructMem ≤ capacity) (front back : Bool) :
    OnlyItems cfg (first ++ ⟨size, front⟩ :: ⟨capacity - size - cfg.sizeofStructMem, back⟩ :: rest) h
      (splitBlock cfg h (span (blockSize cfg) first) size) := by
  intro place apart
  refine splitBlock_byte (apart _ edge_start) (apart _ ⟨first ++ [⟨size, front⟩], _, by simp; rfl, ?_⟩) ?_
  · simp only [span_append, span_cons, span_nil, blockSize]
    omega
  · rw [listed.item_at]
    refine apart _ ⟨first ++ [⟨size, front⟩, ⟨capacity - size - cfg.sizeofStructMem, back⟩], rest, by simp, ?_⟩
    simp only [span_append, span_cons, span_nil, blockSize]
    omega

theorem allocTake_only (listed : Listed cfg h (first ++ ⟨capacity, false⟩ :: rest)) (size : Nat) :
    OnlyItems cfg (allot cfg first capacity size rest) h (allocTake cfg h (span (blockSize cfg) first) size) := by
  have gap : (h.item (span (blockSize cfg) first)).next - (span (blockSize cfg) first + cfg.sizeofStructMem) =
      capacity := by
    rw [listed.item_at]
    simp only [blockSize]
    omega
  unfold allocTake allot
  rw [gap]
  by_cases large : size + cfg.sizeofStructMem + cfg.minSizeAligned ≤ capacity
  · rw [if_pos large, if_pos large]
    intro place apart
    exact (setItem_byte _ (apart _ edge_start)).trans (splitBlock_only listed (by omega) true false place apart)
  · rw [if_neg large, if_neg large]
    intro place apart
    exact setItem_byte _ (apart _ edge_start)

theorem lowerFree_le (h : SmallMem) (mem : Nat) : (h.lowerFree mem).lfree ≤ mem := by
  change (if _ then _ else _) ≤ _
  split <;> omega

theorem shrunk_only (repr : Repr cfg h (first ++ ⟨capacity, true⟩ :: rest)) {size : Nat}
    (inside : size + cfg.sizeofStructMem ≤ capacity) (aligned : cfg.alignSize ∣ size) (amount : Nat) :
    OnlyItems cfg ((first ++ [⟨size, true⟩]) ++ ⟨capacity - size - cfg.sizeofStructMem, false⟩ :: rest) h
      (plugHoles cfg ((splitBlock cfg (h.subUsed amount) (span (blockSize cfg) first) size).lowerFree
        (span (blockSize cfg) first + cfg.sizeofStructMem + size))
        (span (blockSize cfg) first + cfg.sizeofStructMem + size)) := by
  have counted : Listed cfg (h.subUsed amount) _ := repr.toListed.of_same cfg rfl ⟨rfl, rfl, rfl⟩
  have cut := counted.split cfg inside aligned
  have split := splitBlock_only counted inside true false
  have place : span (blockSize cfg) (first ++ [⟨size, true⟩]) = span (blockSize cfg) first + cfg.sizeofStructMem + size := by
    simp only [span_append, span_cons, span_nil, blockSize]
    omega
  rw [List.append_cons] at cut split
  have lowered : Listed cfg ((splitBlock cfg (h.subUsed amount) (span (blockSize cfg) first) size).lowerFree
      (span (blockSize cfg) first + cfg.sizeofStructMem + size)) _ := cut.of_same cfg rfl ⟨rfl, rfl, rfl⟩
  have plugged := plugHoles_only lowered (place ▸ lowerFree_le _ _)
  rw [place] at plugged
  exact OnlyItems.trans split plugged

theorem rtSmemAlloc_only {blocks : List Block} (repr : Repr cfg h blocks) {h₁ : SmallMem} {size q : Nat}
    (call : rtSmemAlloc cfg h size = some (h₁, some q)) :
    ∃ blocks₁, Repr cfg h₁ blocks₁ ∧ Allocated cfg blocks size (some q) blocks₁ ∧ OnlyItems cfg blocks₁ h h₁ := by
  obtain ⟨ptr, lfree, place, shape⟩ := rtSmemAlloc_taken cfg call
  obtain ⟨_, _, blocks₁, done, allocated, repr₁, -⟩ := rtSmemAlloc_repr cfg repr size
  rw [call] at done
  cases done
  refine ⟨blocks₁, repr₁, allocated, ?_⟩
  cases allocated with
  | @served first rest capacity cut room lowest =>
    obtain rfl : ptr = span (blockSize cfg) first := by omega
    subst cut
    rw [shape]
    exact allocTake_only repr.toListed _

theorem rtSmemFree_only (repr : Repr cfg h (first ++ ⟨capacity, true⟩ :: rest)) :
    OnlyItems cfg (first ++ ⟨capacity, false⟩ :: rest) h
      (rtSmemFree cfg h (some (span (blockSize cfg) first + cfg.sizeofStructMem))) := by
  have freed : Listed cfg (h.markFreed cfg (span (blockSize cfg) first)) _ := repr.toListed.mark cfg false
  have marked : OnlyItems cfg (first ++ ⟨capacity, false⟩ :: rest) h (h.markFreed cfg (span (blockSize cfg) first)) :=
    fun place apart => setItem_byte _ (apart _ edge_start)
  simp only [rtSmemFree, Nat.add_sub_cancel]
  exact marked.trans (plugHoles_only (freed.of_same cfg rfl ⟨rfl, rfl, rfl⟩) (lowerFree_le _ _))

end operations

/-! ## Blocks in use and their contents -/

/-- `p` is the data area of a used block of the heap. -/
def SmallMem.Held (h : SmallMem) (p : Nat) : Prop :=
  ∃ offsets, Walk h 0 offsets ∧ ∃ offset ∈ offsets, p = offset + cfg.sizeofStructMem ∧ (h.item offset).used = true

/-- The block at `p` is still in use, as long as it was, and holds the bytes it held. -/
structure Untouched (h h' : SmallMem) (p : Nat) : Prop where
  held : h'.Held cfg p
  capacity : h'.capacity cfg p = h.capacity cfg p
  bytes : ∀ i < h.capacity cfg p, h'.byte (p + i) = h.byte (p + i)

/-- A pointer that comes back has the bytes of the old one and no other block is touched; where none comes back, and the
block was not to be freed, no block is touched and none comes or goes. -/
structure PreservesData (h : SmallMem) (p newsize : Nat) (h' : SmallMem) (result : Option Nat) : Prop where
  held : ∀ q ∈ result, h'.Held cfg q
  copied : ∀ q ∈ result, ∀ i < min (h.capacity cfg p) newsize, h'.byte (q + i) = h.byte (p + i)
  others : ∀ q ∈ result, ∀ r, h.Held cfg r → r ≠ p → Untouched cfg h h' r
  refused : result = none → newsize ≠ 0 →
    (∀ r, h'.Held cfg r ↔ h.Held cfg r) ∧ ∀ r, h.Held cfg r → Untouched cfg h h' r

section held
variable {cfg} {h h' : SmallMem} {blocks blocks' : List Block} {o c : Nat}

theorem Listed.held_iff (listed : Listed cfg h blocks) {p : Nat} :
    h.Held cfg p ↔ ∃ o c, p = o + cfg.sizeofStructMem ∧ Live cfg blocks o c := by
  have walk : Walk h 0 (offsetsFrom cfg 0 blocks) :=
    listed.linked.walk cfg (by rw [Nat.zero_add]; exact listed.total)
  constructor
  · rintro ⟨offsets, walk', offset, member, rfl, used⟩
    rw [← walk.unique walk'] at member
    obtain ⟨⟨c, status⟩, entry⟩ := (mem_offsetsFrom cfg).mp member
    obtain rfl : status = true := (listed.item_of_entry cfg entry).1.symm.trans used
    exact ⟨offset, c, rfl, entry⟩
  · rintro ⟨o, c, rfl, live⟩
    exact ⟨_, walk, o, (mem_offsetsFrom cfg).mpr ⟨_, live⟩, rfl, (listed.item_of_entry cfg live).1⟩

theorem Session.Sound.held {s : Session} (sound : s.Sound cfg blocks) {p : Nat} (live : p ∈ s.live) : s.heap.Held cfg p :=
  sound.repr.toListed.held_iff.mpr ((sound.live_iff p).mp live)

theorem Listed.capacity_live (listed : Listed cfg h blocks) (live : Live cfg blocks o c) :
    h.capacity cfg (o + cfg.sizeofStructMem) = c := by
  obtain ⟨first, rest, rfl, rfl⟩ := (live_iff cfg).mp live
  exact listed.capacity_eq

theorem untouched_of_live (listed : Listed cfg h blocks) (listed' : Listed cfg h' blocks') (live : Live cfg blocks o c)
    (live' : Live cfg blocks' o c)
    (bytes : ∀ i < c, h'.byte (o + cfg.sizeofStructMem + i) = h.byte (o + cfg.sizeofStructMem + i)) :
    Untouched cfg h h' (o + cfg.sizeofStructMem) where
  held := listed'.held_iff.mpr ⟨o, c, rfl, live'⟩
  capacity := (listed'.capacity_live live').trans (listed.capacity_live live).symm
  bytes i inside := bytes i (listed.capacity_live live ▸ inside)

theorem Untouched.refl {p : Nat} (held : h.Held cfg p) : Untouched cfg h h p := ⟨held, rfl, fun _ _ => rfl⟩

end held

/-! ## The four outcomes -/

section outcomes
variable {cfg} {h : SmallMem} {first rest : List Block} {capacity newsize : Nat}

theorem Live.apart {blocks : List Block} {o c o' c' i : Nat} (live : Live cfg blocks o c) (live' : Live cfg blocks o' c')
    (other : o ≠ o') (inside : i < c) :
    o + cfg.sizeofStructMem + i < o' + cfg.sizeofStructMem ∨ o' + cfg.sizeofStructMem + c' ≤ o + cfg.sizeofStructMem + i := by
  rcases layout_separate _ live live' with same | low | high
  · exact absurd (congrArg Prod.fst same) other
  · simp only [blockSize] at low
    omega
  · simp only [blockSize] at high
    omega

theorem rtMemcpy_inside {h : SmallMem} {dst src count i : Nat} (inside : i < count) :
    (rtMemcpy cfg h dst src count).byte (dst + i) = h.byte (src + i) := by
  change (if _ then _ else _) = _
  rw [if_pos (by omega), Nat.add_sub_cancel_left]

theorem rtMemcpy_outside {h : SmallMem} {dst src count place : Nat} (outside : place < dst ∨ dst + count ≤ place) :
    (rtMemcpy cfg h dst src count).byte place = h.byte place := if_neg (by omega)

theorem preservesData_self {result : Option Nat} {p : Nat} (held : h.Held cfg p) (same : ∀ q ∈ result, q = p) :
    PreservesData cfg h p newsize h result where
  held q here := same q here ▸ held
  copied q here i inside := by rw [same q here]
  others _ _ r held _ := .refl held
  refused _ _ := ⟨fun _ => .rfl, fun _ held => .refl held⟩

theorem preservesData_none {h' : SmallMem} {p : Nat}
    (kept : newsize ≠ 0 → (∀ r, h'.Held cfg r ↔ h.Held cfg r) ∧ ∀ r, h.Held cfg r → Untouched cfg h h' r) :
    PreservesData cfg h p newsize h' none where
  held := nofun
  copied := nofun
  others := nofun
  refused _ := kept

section
variable (repr : Repr cfg h (first ++ ⟨capacity, true⟩ :: rest)) (least : newsize ≤ cfg.rtAlign newsize)
include repr least

theorem preservesData_shrunk (room : cfg.rtAlign newsize + cfg.sizeofStructMem + cfg.minSize < capacity) {p : Nat}
    (place : p = span (blockSize cfg) first + cfg.sizeofStructMem) :
    PreservesData cfg h p newsize
      (plugHoles cfg ((splitBlock cfg (h.subUsed (capacity - cfg.rtAlign newsize)) (p - cfg.sizeofStructMem)
        (cfg.rtAlign newsize)).lowerFree (p + cfg.rtAlign newsize)) (p + cfg.rtAlign newsize))
      (some p) := by
  subst place
  have inside : cfg.rtAlign newsize + cfg.sizeofStructMem ≤ capacity := by omega
  generalize amountEq : capacity - cfg.rtAlign newsize = amount
  obtain ⟨repr', -, -, -⟩ := shrunk_repr cfg repr inside (cfg.rtAlign_dvd newsize) amount
  have only := shrunk_only repr inside (cfg.rtAlign_dvd newsize) amount
  rw [Nat.add_sub_cancel]
  generalize plugHoles cfg _ _ = h' at repr' only ⊢
  have lives := cut_live cfg first rest inside
  have own : Live cfg (first ++ ⟨capacity, true⟩ :: rest) (span (blockSize cfg) first) capacity :=
    (live_iff cfg).mpr ⟨first, rest, rfl, rfl⟩
  have cut := (lives (span (blockSize cfg) first) (cfg.rtAlign newsize)).mpr (.inr (.inl ⟨rfl, rfl⟩))
  refine ⟨?_, ?_, ?_, nofun⟩
  · rintro q ⟨⟩
    exact repr'.toListed.held_iff.mpr ⟨_, _, rfl, (live_release cfg).mpr cut⟩
  · rintro q ⟨⟩ i below
    exact only.keeps cut i (by omega)
  · rintro q - r held other
    obtain ⟨o, c, rfl, live⟩ := repr.toListed.held_iff.mp held
    have still : Live cfg ((first ++ [⟨cfg.rtAlign newsize, true⟩]) ++
        ⟨capacity - cfg.rtAlign newsize - cfg.sizeofStructMem, false⟩ :: rest) o c := by
      rw [lives]
      rcases (live_append cfg).mp live with low | ⟨rfl, -⟩ | high
      · exact .inl low
      · exact absurd rfl other
      · exact .inr (.inr high)
    exact untouched_of_live repr.toListed repr'.toListed live ((live_release cfg).mpr still) (only.keeps still)

theorem preservesData_moved
    {h₁ : SmallMem} {q : Nat} (alloc : rtSmemAlloc cfg h (cfg.rtAlign newsize) = some (h₁, some q)) {p : Nat}
    (place : p = span (blockSize cfg) first + cfg.sizeofStructMem) :
    PreservesData cfg h p newsize
      (rtSmemFree cfg (rtMemcpy cfg h₁ q p (if capacity < cfg.rtAlign newsize then capacity else cfg.rtAlign newsize))
        (some p))
      (some q) := by
  subst place
  obtain ⟨blocks₁, repr₁, allocated, taken⟩ := rtSmemAlloc_only repr alloc
  obtain ⟨offset, size, rfl, enough, fresh, lives⟩ := allocated.live
  have room := rtAlign_le_requestSize cfg newsize
  have own : Live cfg (first ++ ⟨capacity, true⟩ :: rest) (span (blockSize cfg) first) capacity :=
    (live_iff cfg).mpr ⟨first, rest, rfl, rfl⟩
  have new := (lives offset size).mpr (.inr ⟨rfl, rfl⟩)
  have apart : offset ≠ span (blockSize cfg) first := fun same => fresh capacity (same ▸ own)
  generalize countEq : (if capacity < cfg.rtAlign newsize then capacity else cfg.rtAlign newsize) = count
  have fits : count ≤ size := by
    rw [← countEq]
    split <;> omega
  have enoughCopied : min capacity newsize ≤ count := by
    rw [← countEq]
    split <;> omega
  have old := (lives _ _).mpr (.inl own)
  obtain ⟨front, back, rfl, position⟩ := (live_iff cfg).mp old
  obtain ⟨before, after, shape, rfl⟩ := (live_iff cfg).mp new
  obtain ⟨copied, -⟩ := rtMemcpy_repr cfg (shape ▸ repr₁) (span (blockSize cfg) first + cfg.sizeofStructMem) fits
  rw [← shape] at copied
  have freed := rtSmemFree_only copied
  obtain ⟨repr', -⟩ := rtSmemFree_repr cfg copied
  rw [← position] at freed repr'
  generalize rtSmemFree cfg _ _ = h' at freed repr' ⊢
  have keeps : ∀ o c, Live cfg (front ++ ⟨capacity, true⟩ :: back) o c → o ≠ span (blockSize cfg) first →
      Live cfg (front ++ ⟨capacity, false⟩ :: back) o c := fun o c live other =>
    (live_release cfg).mp ((release_live cfg front back capacity o c).mpr ⟨live, position ▸ other⟩)
  have newKept := keeps _ _ new apart
  refine ⟨?_, ?_, ?_, nofun⟩
  · rintro q ⟨⟩
    exact repr'.toListed.held_iff.mpr ⟨_, _, rfl, (live_release cfg).mpr newKept⟩
  · rintro q ⟨⟩ i below
    rw [repr.toListed.capacity_eq] at below
    rw [freed.keeps newKept i (by omega), rtMemcpy_inside (by omega)]
    exact taken.keeps old i (by omega)
  · rintro q - r held other
    obtain ⟨o, c, rfl, live⟩ := repr.toListed.held_iff.mp held
    have still := (lives o c).mpr (.inl live)
    have kept := keeps o c still (by omega)
    have others : o ≠ span (blockSize cfg) before := fun same => fresh c (same ▸ live)
    refine untouched_of_live repr.toListed repr'.toListed live ((live_release cfg).mpr kept) fun i inside => ?_
    have outside := still.apart new others inside
    rw [freed.keeps kept i inside, rtMemcpy_outside (by omega)]
    exact taken.keeps still i inside

end

end outcomes

theorem rtSmemRealloc_preserves {h : SmallMem} {first rest : List Block} {capacity newsize : Nat}
    (repr : Repr cfg h (first ++ ⟨capacity, true⟩ :: rest)) (below : newsize < cfg.word) {h' : SmallMem} {result : Option Nat}
    {p : Nat} (place : p = span (blockSize cfg) first + cfg.sizeofStructMem)
    (call : rtSmemRealloc cfg h (some p) newsize = some (h', result)) :
    PreservesData cfg h p newsize h' result ↔ newsize + (cfg.alignSize - 1) < cfg.word := by
  have unit := cfg.alignSize_pos
  have size : (h.item (p - cfg.sizeofStructMem)).next - (p - cfg.sizeofStructMem) - cfg.sizeofStructMem = capacity := by
    rw [place, Nat.add_sub_cancel, repr.toListed.item_at]
    simp only [blockSize]
    omega
  have held : h.Held cfg p :=
    repr.toListed.held_iff.mpr ⟨_, capacity, place, (live_iff cfg).mpr ⟨first, rest, rfl, rfl⟩⟩
  have way := rtSmemRealloc_resized cfg call (by omega)
  rw [size] at way
  by_cases fits : newsize + (cfg.alignSize - 1) < cfg.word
  · refine iff_of_true ?_ fits
    have least := cfg.rtAlign_ge newsize (by omega)
    cases way with
    | refused nonzero => exact preservesData_none fun _ => ⟨fun _ => .rfl, fun _ held => .refl held⟩
    | freed zero => exact preservesData_none fun nonzero => absurd (by omega) nonzero
    | kept _ same => exact preservesData_self held fun q here => (Option.some.inj here).symm
    | shrunk _ room => exact preservesData_shrunk repr least room place
    | moved _ alloc => exact preservesData_moved repr least alloc place
  · -- the size wraps to zero, and the block is freed
    refine iff_of_false (fun preserved => ?_) fits
    have zero := rtAlign_wraps cfg below fits
    cases way with
    | freed _ =>
      subst place
      obtain ⟨repr', -⟩ := rtSmemFree_repr cfg repr
      have whole : cfg.alignSize ≤ cfg.word := Nat.pow_le_pow_right (by decide) cfg.align_le
      obtain ⟨same, -⟩ := preserved.refused rfl (by omega)
      obtain ⟨o, c, here, live⟩ := repr'.toListed.held_iff.mp ((same _).mpr held)
      exact ((release_live cfg first rest capacity o c).mp live).2 (by omega)
    | refused nonzero | kept nonzero _ | shrunk nonzero _ | moved nonzero _ => exact nonzero zero

/-- In every heap a client can bring about, a resize keeps all data just if rounding its size up does not wrap. -/
theorem smem_realloc_preserves (beginAddr region : Nat) (h : SmallMem) (init : rtSmemInit cfg beginAddr region = some h)
    (calls : List Call) (s : Session) (run : Run (Session.Step cfg) ⟨h, []⟩ calls s) (p : Nat) (live : p ∈ s.live)
    (newsize : Nat) (below : newsize < cfg.word) :
    ∃ h' result, rtSmemRealloc cfg s.heap (some p) newsize = some (h', result) ∧
      (PreservesData cfg s.heap p newsize h' result ↔ newsize + (cfg.alignSize - 1) < cfg.word) := by
  obtain ⟨blocks, sound, -⟩ := s.sound_run cfg init run
  obtain ⟨first, capacity, rest, rfl, rfl⟩ := (pointer_iff cfg).mp ((sound.live_iff p).mp live)
  obtain ⟨h', result, -, call, -⟩ := rtSmemRealloc_repr cfg sound.repr newsize
  exact ⟨h', result, call, rtSmemRealloc_preserves cfg sound.repr below rfl call⟩

theorem smem_realloc_preserves_kilobyte :
    ∃ h' result, rtSmemRealloc Config.board kilobyteFull.heap (some 56) 100 = some (h', result) ∧
      (PreservesData Config.board kilobyteFull.heap 56 100 h' result ↔ 100 + 7 < Config.board.word) :=
  smem_realloc_preserves Config.board 0 1024 kilobyte (Option.some_get _).symm _ kilobyteFull kilobyteFull_run 56 (by decide)
    100 (by decide)

/-- A resize to all of the address space returns `RT_NULL`, and the block is free. -/
theorem smem_realloc_wraps :
    ∃ s h', Run (Session.Step Config.board) ⟨kilobyte, []⟩ [.alloc 24, .alloc 896] s ∧ 16 ∈ s.live ∧
      rtSmemRealloc Config.board s.heap (some 16) (2 ^ 32 - 1) = some (h', none) ∧ (h'.item 0).used = false ∧
      ¬PreservesData Config.board s.heap 16 (2 ^ 32 - 1) h' none := by
  have look : (rtSmemRealloc Config.board kilobyteFull.heap (some 16) (2 ^ 32 - 1)).map
      (fun done => (done.2, (done.1.item 0).used)) = some (none, false) := by decide
  obtain ⟨⟨h', result⟩, done, values⟩ := Option.map_eq_some_iff.mp look
  simp only [Prod.mk.injEq] at values
  obtain ⟨rfl, freed⟩ := values
  refine ⟨kilobyteFull, h', kilobyteFull_run, by decide, done, freed, fun preserved => ?_⟩
  obtain ⟨blocks, sound, -⟩ := kilobyteFull.sound_run Config.board (Option.some_get _).symm kilobyteFull_run
  have held := sound.held (p := 16) (by decide)
  obtain ⟨offsets, -, offset, -, place, used⟩ := ((preserved.refused rfl (by decide)).1 16).mpr held
  have item : Config.board.sizeofStructMem = 16 := by decide
  obtain rfl : offset = 0 := by omega
  exact Bool.false_ne_true (freed.symm.trans used)

end RtThread.Mem
