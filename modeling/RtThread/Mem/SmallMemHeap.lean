import RtThread.Lib.Transition
import RtThread.Mem.SmallMemCalls

/-! Whole runs of a client against one small-memory heap.

A client allocates, resizes and frees, and between calls it writes what it
likes into the memory it was given.
-/

set_option autoImplicit false

namespace RtThread.Mem

open RtThread.Lib

variable (cfg : Config)

/-- `offsets` are the blocks met by following `next` from a block up to `heap_end`. -/
inductive Walk (h : SmallMem) : Nat → List Nat → Prop where
  | stop : Walk h h.heapEnd []
  | visit {offset : Nat} {rest : List Nat} (inner : offset ≠ h.heapEnd)
      (next : Walk h (h.item offset).next rest) : Walk h offset (offset :: rest)

structure WellFormed (h : SmallMem) (offsets : List Nat) : Prop where
  walk : Walk h 0 offsets
  end_eq : h.heapEnd = h.memSizeAligned + cfg.sizeofStructMem
  increasing : (offsets ++ [h.heapEnd]).Pairwise (· < ·)
  aligned : ∀ offset ∈ offsets ++ [h.heapEnd], cfg.alignSize ∣ offset
  /-- Every byte below `heap_end` belongs to a block. -/
  cover : ∀ place < h.heapEnd, ∃ offset ∈ offsets, offset ≤ place ∧ place < (h.item offset).next
  /-- No byte belongs to two blocks. -/
  separate : ∀ a ∈ offsets, ∀ b ∈ offsets, a ≠ b → (h.item a).next ≤ b ∨ (h.item b).next ≤ a
  /-- A block has room for its own item. -/
  room : ∀ offset ∈ offsets, offset + cfg.sizeofStructMem ≤ (h.item offset).next
  first_prev : (h.item 0).prev = 0
  prev : offsets.IsChain fun a b => (h.item b).prev = a
  coalesced : offsets.IsChain fun a b => (h.item a).used = true ∨ (h.item b).used = true
  lfree_free : h.lfree = h.heapEnd ∨ h.lfree ∈ offsets ∧ (h.item h.lfree).used = false
  lfree_lowest : ∀ offset ∈ offsets, (h.item offset).used = false → h.lfree ≤ offset

structure Session where
  heap : SmallMem
  live : List Nat

def SmallMem.dataEnd (h : SmallMem) (rmem : Nat) : Nat := (h.item (rmem - cfg.sizeofStructMem)).next

inductive Call where
  | alloc (size : Nat)
  | realloc (rmem : Option Nat) (newsize : Nat)
  | free (rmem : Option Nat)
  | store (start len : Nat) (data : Nat → UInt8) (spelled : Nat → SmallMemItem)

/-- Frees and reallocs name live pointers only, and a client writes only inside
the data area of a live pointer. -/
def Session.Permits (s : Session) : Call → Prop
  | .alloc _ => True
  | .realloc rmem _ => ∀ p ∈ rmem, p ∈ s.live
  | .free rmem => ∀ p ∈ rmem, p ∈ s.live
  | .store start len _ _ => ∃ p ∈ s.live, p ≤ start ∧ start + len ≤ s.heap.dataEnd cfg p

def resized (live : List Nat) (rmem : Option Nat) (newsize : Nat) (result : Option Nat) : List Nat :=
  result.toList ++ live.filter fun p => ¬ (rmem = some p ∧ (cfg.rtAlign newsize = 0 ∨ result ≠ none))

/-- A call; `none` when one of the loops of the heap does not finish. -/
def Session.call (s : Session) : Call → Option Session
  | .alloc size =>
    (rtSmemAlloc cfg s.heap size).map fun (heap, result) => ⟨heap, result.toList ++ s.live⟩
  | .realloc rmem newsize =>
    (rtSmemRealloc cfg s.heap rmem newsize).map fun (heap, result) =>
      ⟨heap, resized cfg s.live rmem newsize result⟩
  | .free rmem => some ⟨rtSmemFree cfg s.heap rmem, s.live.filter fun p => rmem ≠ some p⟩
  | .store start len data spelled => some ⟨s.heap.writeBytes cfg start len data spelled, s.live⟩

def Session.Step (s : Session) (c : Call) (s' : Session) : Prop :=
  s.Permits cfg c ∧ s.call cfg c = some s'

/-! ## Pointers -/

/-- `p` is the data area of a used block. -/
def Pointer (blocks : List Block) (p : Nat) : Prop :=
  ∃ offset capacity, p = offset + cfg.sizeofStructMem ∧ Live cfg blocks offset capacity

theorem pointer_iff {blocks : List Block} {p : Nat} : Pointer cfg blocks p ↔
    ∃ first capacity rest, blocks = first ++ ⟨capacity, true⟩ :: rest ∧
      p = span (blockSize cfg) first + cfg.sizeofStructMem := by
  constructor
  · rintro ⟨_, capacity, rfl, live⟩
    obtain ⟨first, rest, rfl, rfl⟩ := (live_iff cfg).mp live
    exact ⟨first, capacity, rest, rfl, rfl⟩
  · rintro ⟨first, capacity, rest, rfl, rfl⟩
    exact ⟨_, capacity, rfl, (live_iff cfg).mpr ⟨first, rest, rfl, rfl⟩⟩

theorem release_pointer (first rest : List Block) (capacity q : Nat) :
    Pointer cfg (release cfg first capacity rest) q ↔
      Pointer cfg (first ++ ⟨capacity, true⟩ :: rest) q ∧
        q ≠ span (blockSize cfg) first + cfg.sizeofStructMem := by
  unfold Pointer
  simp only [release_live]
  constructor
  · rintro ⟨offset, c, rfl, live, other⟩
    exact ⟨⟨offset, c, rfl, live⟩, by omega⟩
  · rintro ⟨⟨offset, c, rfl, live⟩, other⟩
    exact ⟨offset, c, rfl, live, by omega⟩

theorem Allocated.pointer {blocks blocks' : List Block} {size : Nat} {result : Option Nat}
    (allocated : Allocated cfg blocks size result blocks') :
    (∀ q ∈ result, ¬ Pointer cfg blocks q) ∧
      ∀ q, Pointer cfg blocks' q ↔ q ∈ result ∨ Pointer cfg blocks q := by
  cases result with
  | none =>
    obtain rfl := allocated.live_none
    simp
  | some p =>
    obtain ⟨offset, capacity, rfl, -, fresh, lives⟩ := allocated.live
    unfold Pointer
    simp only [Option.mem_def, Option.some.injEq, forall_eq', lives]
    constructor
    · rintro ⟨other, c, same, live⟩
      obtain rfl : offset = other := by omega
      exact fresh c live
    · intro q
      constructor
      · rintro ⟨o, c, rfl, live | ⟨rfl, -⟩⟩
        · exact .inr ⟨o, c, rfl, live⟩
        · exact .inl rfl
      · rintro (rfl | ⟨o, c, rfl, live⟩)
        · exact ⟨offset, capacity, rfl, .inr ⟨rfl, rfl⟩⟩
        · exact ⟨o, c, rfl, .inl live⟩

theorem cut_live (first rest : List Block) {capacity size : Nat} (fits : size + cfg.sizeofStructMem ≤ capacity)
    (o c : Nat) :
    Live cfg ((first ++ [⟨size, true⟩]) ++ ⟨capacity - size - cfg.sizeofStructMem, false⟩ :: rest) o c ↔
      Live cfg first o c ∨ (o = span (blockSize cfg) first ∧ c = size) ∨
        (o, ⟨c, true⟩) ∈ layout (blockSize cfg) (span (blockSize cfg) first + blockSize cfg ⟨capacity, true⟩) rest := by
  have places : span (blockSize cfg) (first ++ [⟨size, true⟩]) +
      (cfg.sizeofStructMem + (capacity - size - cfg.sizeofStructMem)) =
        span (blockSize cfg) first + blockSize cfg ⟨capacity, true⟩ := by
    simp only [span_append, span_cons, span_nil, blockSize]; omega
  rw [live_free, places, live_append]
  simp [or_assoc, eq_comm]

theorem shrunk_pointer (first rest : List Block) {capacity size : Nat} (q : Nat)
    (fits : size + cfg.sizeofStructMem ≤ capacity) :
    Pointer cfg (release cfg (first ++ [⟨size, true⟩]) (capacity - size - cfg.sizeofStructMem) rest) q ↔
      Pointer cfg (first ++ ⟨capacity, true⟩ :: rest) q := by
  have shape : ∀ o c, Live cfg (release cfg (first ++ [⟨size, true⟩])
      (capacity - size - cfg.sizeofStructMem) rest) o c ↔
        Live cfg first o c ∨ (o = span (blockSize cfg) first ∧ c = size) ∨
          (o, ⟨c, true⟩) ∈ layout (blockSize cfg)
            (span (blockSize cfg) first + blockSize cfg ⟨capacity, true⟩) rest := by
    intro o c
    rw [live_release, cut_live cfg first rest fits]
  unfold Pointer
  simp only [shape, live_append]
  constructor
  · rintro ⟨o, c, rfl, low | ⟨rfl, -⟩ | high⟩
    · exact ⟨o, c, rfl, .inl low⟩
    · exact ⟨_, capacity, rfl, .inr (.inl ⟨rfl, rfl⟩)⟩
    · exact ⟨o, c, rfl, .inr (.inr high)⟩
  · rintro ⟨o, c, rfl, low | ⟨rfl, -⟩ | high⟩
    · exact ⟨o, c, rfl, .inl low⟩
    · exact ⟨_, size, rfl, .inr (.inl ⟨rfl, rfl⟩)⟩
    · exact ⟨o, c, rfl, .inr (.inr high)⟩

theorem Reallocated.pointer {first rest blocks' : List Block} {capacity newsize : Nat} {result : Option Nat}
    (reallocated : Reallocated cfg first capacity rest newsize result blocks') :
    let old := span (blockSize cfg) first + cfg.sizeofStructMem
    (∀ q ∈ result, Pointer cfg (first ++ ⟨capacity, true⟩ :: rest) q → q = old) ∧
      ∀ q, Pointer cfg blocks' q ↔ q ∈ result ∨ Pointer cfg (first ++ ⟨capacity, true⟩ :: rest) q ∧
        (cfg.rtAlign newsize = 0 ∨ result ≠ none → q ≠ old) := by
  intro old
  have here : Pointer cfg (first ++ ⟨capacity, true⟩ :: rest) old :=
    (pointer_iff cfg).mpr ⟨first, capacity, rest, rfl, rfl⟩
  have replaced : ∀ q, Pointer cfg (first ++ ⟨capacity, true⟩ :: rest) q ↔
      q = old ∨ Pointer cfg (first ++ ⟨capacity, true⟩ :: rest) q ∧ q ≠ old := by
    intro q
    by_cases same : q = old
    · simp [same, here]
    · simp [same]
  cases reallocated with
  | refused nonzero => simp [nonzero]
  | freed zero => simp [zero, release_pointer, old]
  | kept same =>
    refine ⟨fun q member _ => (Option.some.inj member).symm, fun q => ?_⟩
    rw [replaced q]
    simp only [Option.mem_def, Option.some.injEq, eq_comm, old]
    tauto
  | shrunk nonzero room =>
    refine ⟨fun q member _ => (Option.some.inj member).symm, fun q => ?_⟩
    rw [shrunk_pointer cfg first rest q (by omega), replaced q]
    simp only [Option.mem_def, Option.some.injEq, eq_comm, old]
    tauto
  | @moved q blocks first' rest' nonzero allocated shape position =>
    obtain ⟨fresh, lives⟩ := allocated.pointer
    subst shape
    refine ⟨fun p member live => absurd live (fresh p member), fun p => ?_⟩
    rw [release_pointer, lives, position]
    have apart : q ≠ old := fun same => fresh q rfl (same ▸ here)
    simp only [Option.mem_def, Option.some.injEq, ne_eq, reduceCtorEq, not_false_eq_true, or_true,
      true_implies]
    constructor
    · rintro ⟨rfl | live, other⟩
      · exact .inl rfl
      · exact .inr ⟨live, other⟩
    · rintro (rfl | ⟨live, other⟩)
      · exact ⟨.inl rfl, apart⟩
      · exact ⟨.inr live, other⟩

/-! ## What every call preserves -/

structure Session.Sound (s : Session) (blocks : List Block) : Prop where
  repr : Repr cfg s.heap blocks
  nodup : s.live.Nodup
  live_iff : ∀ p, p ∈ s.live ↔ Pointer cfg blocks p

theorem rtSmemInit_repr {beginAddr size : Nat} {h : SmallMem} (init : rtSmemInit cfg beginAddr size = some h) :
    Repr cfg h [⟨h.memSizeAligned, false⟩] := by
  unfold rtSmemInit at init
  dsimp only at init
  split at init
  case isFalse => cases init
  case isTrue fits =>
    cases init
    generalize (cfg.rtAlign beginAddr + cfg.smallMemSize) % cfg.word = startAddr at fits
    have endBound : (beginAddr + size) % cfg.word < cfg.word := Nat.mod_lt _ (Nat.two_pow_pos cfg.wordBits)
    generalize (beginAddr + size) % cfg.word = regionEnd at fits endBound
    have structPos := cfg.sizeofStructMem_pos
    have endDvd := cfg.rtAlignDown_dvd regionEnd endBound
    have endLt : cfg.rtAlignDown regionEnd < cfg.word := by
      rw [Config.rtAlignDown, cfg.mask_eq _ endBound]
      exact Nat.lt_of_le_of_lt (Nat.div_mul_le_self _ _) endBound
    generalize cfg.rtAlignDown regionEnd = endAlign at fits endDvd endLt
    have roomDvd : cfg.alignSize ∣ endAlign - 2 * cfg.sizeofStructMem :=
      Nat.dvd_sub endDvd (Nat.dvd_mul_left_of_dvd cfg.sizeofStructMem_dvd 2)
    have sizeDvd : cfg.alignSize ∣ endAlign - cfg.rtAlign startAddr - 2 * cfg.sizeofStructMem :=
      Nat.dvd_sub (Nat.dvd_sub endDvd (cfg.rtAlign_dvd _)) (Nat.dvd_mul_left_of_dvd cfg.sizeofStructMem_dvd 2)
    generalize endAlign - cfg.rtAlign startAddr - 2 * cfg.sizeofStructMem = memSize at sizeDvd
    have apart : memSize + cfg.sizeofStructMem ≠ 0 := by omega
    refine ⟨⟨⟨?_, trivial⟩, ?_, rfl, by simp, by simp, by simpa using sizeDvd⟩, ?_, rfl⟩
    · simp [blockSize, Function.update_of_ne apart.symm, Nat.add_comm]
    · simp [blockSize, Nat.add_comm]
    · simp [Coalesced]

theorem Session.Sound.replace {s : Session} {blocks blocks' : List Block} (sound : s.Sound cfg blocks)
    {heap : SmallMem} (result : Option Nat) (repr : Repr cfg heap blocks') (keep : Nat → Bool)
    (fresh : ∀ q ∈ result, Pointer cfg blocks q → keep q = false)
    (pointers : ∀ q, Pointer cfg blocks' q ↔ q ∈ result ∨ Pointer cfg blocks q ∧ keep q = true) :
    (Session.mk heap (result.toList ++ s.live.filter keep)).Sound cfg blocks' := by
  refine ⟨repr, ?_, fun p => ?_⟩
  · cases result with
    | none => exact sound.nodup.filter _
    | some q =>
      refine List.nodup_cons.mpr ⟨fun member => ?_, sound.nodup.filter _⟩
      obtain ⟨live, kept⟩ := List.mem_filter.mp member
      have gone := fresh q rfl ((sound.live_iff q).mp live)
      rw [gone] at kept
      cases kept
  · simp only [pointers, List.mem_append, Option.mem_toList, Option.mem_def, List.mem_filter, sound.live_iff]

theorem Session.Sound.call {s : Session} {c : Call} {blocks : List Block} (sound : s.Sound cfg blocks)
    (permitted : s.Permits cfg c) : ∃ s' blocks', s.call cfg c = some s' ∧ s'.Sound cfg blocks' ∧ SameObject s.heap s'.heap := by
  cases c with
  | alloc size =>
    obtain ⟨h, result, blocks', call, allocated, repr, same⟩ := rtSmemAlloc_repr cfg sound.repr size
    obtain ⟨fresh, pointers⟩ := allocated.pointer
    have next := sound.replace cfg result repr (fun _ => true) (fun q member live => absurd live (fresh q member))
      (by simpa using pointers)
    rw [List.filter_true] at next
    refine ⟨_, blocks', ?_, next, same⟩
    simp only [Session.call, call, Option.map_some]
  | realloc rmem newsize =>
    cases rmem with
    | none =>
      obtain ⟨h, result, blocks', call, allocated, repr, same⟩ := rtSmemRealloc_null cfg sound.repr newsize
      obtain ⟨fresh, pointers⟩ := allocated.pointer
      refine ⟨⟨h, resized cfg s.live none newsize result⟩, blocks', ?_, ?_, same⟩
      · simp only [Session.call, call, Option.map_some]
      · exact sound.replace cfg result repr _ (fun q member live => absurd live (fresh q member))
          (by simpa using pointers)
    | some rmem =>
      obtain ⟨first, capacity, rest, rfl, rfl⟩ := (pointer_iff cfg).mp ((sound.live_iff _).mp (permitted rmem rfl))
      obtain ⟨h, result, blocks', call, reallocated, repr, same⟩ := rtSmemRealloc_repr cfg sound.repr newsize
      obtain ⟨fresh, pointers⟩ := reallocated.pointer
      refine ⟨⟨h, resized cfg s.live (some (span (blockSize cfg) first + cfg.sizeofStructMem)) newsize result⟩,
        blocks', ?_, ?_, same⟩
      · simp only [Session.call, call, Option.map_some]
      · refine sound.replace cfg result repr _ (fun q member live => ?_) (fun q => ?_)
        · obtain rfl := fresh q member live
          simp [Option.ne_none_iff_exists', show ∃ x, result = some x from ⟨_, member⟩]
        · rw [pointers]
          simp only [Option.some.injEq, decide_not, Bool.not_eq_true', decide_eq_false_iff_not]
          constructor <;> tauto
  | free rmem =>
    cases rmem with
    | none => exact ⟨s, blocks, by simp [Session.call, rtSmemFree], sound, .refl _⟩
    | some rmem =>
      obtain ⟨first, capacity, rest, rfl, rfl⟩ := (pointer_iff cfg).mp ((sound.live_iff _).mp (permitted rmem rfl))
      obtain ⟨repr, same⟩ := rtSmemFree_repr cfg sound.repr
      refine ⟨_, _, rfl, sound.replace cfg none repr _ (by simp) (fun q => ?_), same⟩
      rw [release_pointer]
      simp only [Option.mem_def, reduceCtorEq, false_or, ne_eq, Option.some.injEq, decide_not, Bool.not_eq_true',
        decide_eq_false_iff_not]
      rw [eq_comm (a := q)]
  | store start len data spelled =>
    obtain ⟨p, live, low, high⟩ := permitted
    obtain ⟨first, capacity, rest, rfl, rfl⟩ := (pointer_iff cfg).mp ((sound.live_iff p).mp live)
    refine ⟨_, _, rfl, ⟨⟨?_, sound.repr.coalesced, sound.repr.lfree_eq⟩, sound.nodup, sound.live_iff⟩, ⟨rfl, rfl, rfl⟩⟩
    refine sound.repr.toListed.writeBytes cfg low ?_ data spelled
    simpa [SmallMem.dataEnd, sound.repr.toListed.item_at] using high

theorem Session.Sound.step {s s' : Session} {c : Call} {blocks : List Block} (sound : s.Sound cfg blocks)
    (step : s.Step cfg c s') : ∃ blocks', s'.Sound cfg blocks' ∧ SameObject s.heap s'.heap := by
  obtain ⟨permitted, call⟩ := step
  obtain ⟨next, blocks', result, sound', same⟩ := sound.call cfg permitted
  rw [call] at result
  cases result
  exact ⟨blocks', sound', same⟩

theorem Session.sound_run {h : SmallMem} {s : Session} {calls : List Call} {beginAddr size : Nat}
    (init : rtSmemInit cfg beginAddr size = some h) (run : Run (Session.Step cfg) ⟨h, []⟩ calls s) :
    ∃ blocks, s.Sound cfg blocks ∧ SameObject h s.heap := by
  have start : ∃ blocks, (Session.mk h []).Sound cfg blocks ∧ SameObject h h := by
    refine ⟨_, ⟨rtSmemInit_repr cfg init, List.nodup_nil, fun p => ?_⟩, .refl h⟩
    simp [Pointer, Live]
  refine Run.invariant (fun s => ∃ blocks, s.Sound cfg blocks ∧ SameObject h s.heap) ?_ start run
  rintro s c s' ⟨blocks, sound, same⟩ step
  obtain ⟨blocks', sound', next⟩ := sound.step cfg step
  exact ⟨blocks', sound', same.trans next⟩

/-! ## From blocks to the items in the region -/

def offsetsFrom (start : Nat) (blocks : List Block) : List Nat := (layout (blockSize cfg) start blocks).map Prod.fst

theorem mem_offsetsFrom {start offset : Nat} {blocks : List Block} :
    offset ∈ offsetsFrom cfg start blocks ↔ ∃ b, (offset, b) ∈ layout (blockSize cfg) start blocks :=
  mem_starts (blockSize cfg)

theorem Linked.walk {h : SmallMem} {prev offset : Nat} {blocks : List Block}
    (linked : Linked cfg h.item prev offset blocks) (total : offset + span (blockSize cfg) blocks = h.heapEnd) :
    Walk h offset (offsetsFrom cfg offset blocks) := by
  induction blocks generalizing prev offset with
  | nil =>
    simp only [span_nil, Nat.add_zero] at total
    exact total ▸ .stop
  | cons b rest ih =>
    have positive := blockSize_pos cfg b
    simp only [span_cons] at total
    refine .visit (by omega) ?_
    rw [linked.1]
    exact ih linked.2 (by show offset + blockSize cfg b + _ = _; omega)

theorem Linked.prev_chain {item : Nat → SmallMemItem} {prev offset : Nat} {blocks : List Block}
    (linked : Linked cfg item prev offset blocks) :
    (offsetsFrom cfg offset blocks).IsChain fun a b => (item b).prev = a := by
  induction blocks generalizing prev offset with
  | nil => exact .nil
  | cons b rest ih =>
    cases rest with
    | nil => exact .singleton _
    | cons c rest =>
      have tail := ih linked.2
      have next := linked.2.1
      exact .cons_cons (by rw [next]) tail

theorem Linked.used_chain {item : Nat → SmallMemItem} {prev offset : Nat} {blocks : List Block}
    (linked : Linked cfg item prev offset blocks) (coalesced : Coalesced blocks) :
    (offsetsFrom cfg offset blocks).IsChain fun a b => (item a).used = true ∨ (item b).used = true := by
  induction blocks generalizing prev offset with
  | nil => exact .nil
  | cons b rest ih =>
    cases rest with
    | nil => exact .singleton _
    | cons c rest =>
      obtain ⟨pair, others⟩ := List.isChain_cons_cons.mp coalesced
      have here := linked.1
      have next := linked.2.1
      exact .cons_cons (by rw [here, next]; exact pair) (ih linked.2 others)

theorem offsetsFrom_increasing (start : Nat) (blocks : List Block) :
    (offsetsFrom cfg start blocks ++ [start + span (blockSize cfg) blocks]).Pairwise (· < ·) :=
  starts_increasing (blockSize cfg) (blockSize_pos cfg) start blocks

theorem offsetsFrom_aligned {blocks : List Block} (aligned : ∀ b ∈ blocks, cfg.alignSize ∣ b.capacity) :
    ∀ offset ∈ offsetsFrom cfg 0 blocks ++ [span (blockSize cfg) blocks], cfg.alignSize ∣ offset := by
  intro offset member
  rcases List.mem_append.mp member with member | member
  · obtain ⟨b, entry⟩ := (mem_offsetsFrom cfg).mp member
    obtain ⟨first, rest, rfl, rfl⟩ := (mem_layout_iff _).mp entry
    rw [Nat.zero_add]
    exact span_dvd cfg fun c here => aligned c (by simp [here])
  · rw [List.mem_singleton.mp member]
    exact span_dvd cfg aligned

theorem Listed.item_of_entry {h : SmallMem} {blocks : List Block} (listed : Listed cfg h blocks)
    {offset : Nat} {b : Block} (entry : (offset, b) ∈ layout (blockSize cfg) 0 blocks) :
    (h.item offset).used = b.used ∧ (h.item offset).next = offset + blockSize cfg b := by
  obtain ⟨first, rest, rfl, rfl⟩ := (mem_layout_iff _).mp entry
  rw [Nat.zero_add, listed.item_at]
  exact ⟨rfl, rfl⟩

theorem firstFree_mem (start : Nat) (blocks : List Block) :
    firstFree cfg start blocks = start + span (blockSize cfg) blocks ∨
      ∃ b, (firstFree cfg start blocks, b) ∈ layout (blockSize cfg) start blocks ∧ b.used = false := by
  induction blocks generalizing start with
  | nil => exact .inl rfl
  | cons b rest ih =>
    cases status : b.used with
    | false => exact .inr ⟨b, by simp [firstFree, status], status⟩
    | true =>
      simp only [firstFree, status, if_true, span_cons, layout_cons, List.mem_cons]
      rcases ih (start + blockSize cfg b) with none | ⟨c, entry, free⟩
      · exact .inl (by omega)
      · exact .inr ⟨c, .inr entry, free⟩

theorem firstFree_lowest {start offset : Nat} {b : Block} {blocks : List Block}
    (entry : (offset, b) ∈ layout (blockSize cfg) start blocks) (free : b.used = false) :
    firstFree cfg start blocks ≤ offset := by
  obtain ⟨first, rest, rfl, rfl⟩ := (mem_layout_iff _).mp entry
  obtain ⟨capacity, used⟩ := b
  cases free
  exact firstFree_le cfg start first rest capacity

theorem Repr.wellFormed {h : SmallMem} {blocks : List Block} (repr : Repr cfg h blocks) :
    WellFormed cfg h (offsetsFrom cfg 0 blocks) := by
  have total : 0 + span (blockSize cfg) blocks = h.heapEnd := by rw [Nat.zero_add]; exact repr.total
  have items : ∀ offset b, (offset, b) ∈ layout (blockSize cfg) 0 blocks →
      (h.item offset).used = b.used ∧ (h.item offset).next = offset + blockSize cfg b :=
    fun _ _ entry => repr.toListed.item_of_entry cfg entry
  constructor
  case walk => exact repr.linked.walk cfg total
  case end_eq => exact repr.end_eq
  case increasing => exact total ▸ offsetsFrom_increasing cfg 0 blocks
  case aligned => exact repr.total ▸ offsetsFrom_aligned cfg repr.aligned
  case cover =>
    intro place below
    obtain ⟨⟨offset, b⟩, entry, low, high⟩ := layout_cover (blockSize cfg) (Nat.zero_le place) (total ▸ below)
    exact ⟨offset, (mem_offsetsFrom cfg).mpr ⟨b, entry⟩, low, by rw [(items _ _ entry).2]; exact high⟩
  case separate =>
    intro a ha b hb other
    obtain ⟨x, hx⟩ := (mem_offsetsFrom cfg).mp ha
    obtain ⟨y, hy⟩ := (mem_offsetsFrom cfg).mp hb
    rw [(items _ _ hx).2, (items _ _ hy).2]
    rcases layout_separate _ hx hy with same | apart
    · exact absurd (congrArg Prod.fst same) other
    · exact apart
  case room =>
    intro offset member
    obtain ⟨b, entry⟩ := (mem_offsetsFrom cfg).mp member
    rw [(items _ _ entry).2, blockSize]
    omega
  case first_prev =>
    cases blocks with
    | nil =>
      have structPos := cfg.sizeofStructMem_pos
      have endEq := repr.end_eq
      simp only [span_nil] at total
      omega
    | cons b rest => rw [repr.linked.1]
  case prev => exact repr.linked.prev_chain cfg
  case coalesced => exact repr.linked.used_chain cfg repr.coalesced
  case lfree_free =>
    rw [repr.lfree_eq, ← total]
    refine (firstFree_mem cfg 0 blocks).imp id ?_
    rintro ⟨b, entry, free⟩
    exact ⟨(mem_offsetsFrom cfg).mpr ⟨b, entry⟩, (items _ _ entry).1.trans free⟩
  case lfree_lowest =>
    intro offset member free
    obtain ⟨b, entry⟩ := (mem_offsetsFrom cfg).mp member
    rw [repr.lfree_eq]
    exact firstFree_lowest cfg entry ((items _ _ entry).1.symm.trans free)

theorem Session.Sound.dataEnd {s : Session} {blocks : List Block} (sound : s.Sound cfg blocks) {p : Nat}
    (live : p ∈ s.live) : ∃ offset b, (offset, b) ∈ layout (blockSize cfg) 0 blocks ∧
      p = offset + cfg.sizeofStructMem ∧ s.heap.dataEnd cfg p = offset + blockSize cfg b := by
  obtain ⟨offset, capacity, rfl, entry⟩ := (sound.live_iff p).mp live
  refine ⟨offset, _, entry, rfl, ?_⟩
  rw [SmallMem.dataEnd, Nat.add_sub_cancel]
  exact (sound.repr.toListed.item_of_entry cfg entry).2

theorem Session.Sound.disjoint {s : Session} {blocks : List Block} (sound : s.Sound cfg blocks) {p q : Nat}
    (hp : p ∈ s.live) (hq : q ∈ s.live) (other : p ≠ q) :
    s.heap.dataEnd cfg p ≤ q ∨ s.heap.dataEnd cfg q ≤ p := by
  obtain ⟨a, x, hx, rfl, endX⟩ := sound.dataEnd cfg hp
  obtain ⟨b, y, hy, rfl, endY⟩ := sound.dataEnd cfg hq
  rw [endX, endY]
  rcases layout_separate _ hx hy with same | apart | apart
  · exact absurd (congrArg (·.1 + cfg.sizeofStructMem) same) other
  · exact .inl (by simp only at apart; omega)
  · exact .inr (by simp only at apart; omega)

/-- From a successful `rt_smem_init` on, whatever a client calls, the block list is
well formed, live data areas lie inside the heap and do not overlap, and the next call returns. -/
theorem heap_wellFormed (beginAddr size : Nat) (h : SmallMem) (init : rtSmemInit cfg beginAddr size = some h)
    (calls : List Call) (s : Session) (run : Run (Session.Step cfg) ⟨h, []⟩ calls s) :
    (∃ offsets, WellFormed cfg s.heap offsets ∧
      ∀ p ∈ s.live, p - cfg.sizeofStructMem ∈ offsets ∧ (s.heap.item (p - cfg.sizeofStructMem)).used = true) ∧
    s.live.Nodup ∧
    (∀ p ∈ s.live, ∀ q ∈ s.live, p ≠ q → s.heap.dataEnd cfg p ≤ q ∨ s.heap.dataEnd cfg q ≤ p) ∧
    ∀ c, s.Permits cfg c → ∃ s', s.call cfg c = some s' := by
  obtain ⟨blocks, sound, -⟩ := s.sound_run cfg init run
  refine ⟨⟨_, sound.repr.wellFormed cfg, fun p live => ?_⟩, sound.nodup,
    fun p hp q hq => sound.disjoint cfg hp hq, fun c permitted => ?_⟩
  · obtain ⟨offset, capacity, rfl, entry⟩ := (sound.live_iff p).mp live
    rw [Nat.add_sub_cancel]
    exact ⟨(mem_offsetsFrom cfg).mpr ⟨_, entry⟩, (sound.repr.toListed.item_of_entry cfg entry).1⟩
  · obtain ⟨s', -, call, -, -⟩ := sound.call cfg permitted
    exact ⟨s', call⟩

def kilobyte : SmallMem := (rtSmemInit Config.board 0 1024).get (by decide)

def kilobyteTaken : Session := (Session.call Config.board ⟨kilobyte, []⟩ (.alloc 100)).get (by decide)

theorem heap_wellFormed_kilobyte :
    (∃ offsets, WellFormed Config.board kilobyteTaken.heap offsets ∧
      ∀ p ∈ kilobyteTaken.live, p - 16 ∈ offsets ∧ (kilobyteTaken.heap.item (p - 16)).used = true) ∧
    kilobyteTaken.live = [16] := by
  have init : rtSmemInit Config.board 0 1024 = some kilobyte := (Option.some_get _).symm
  have taken : Session.Step Config.board ⟨kilobyte, []⟩ (.alloc 100) kilobyteTaken :=
    ⟨trivial, (Option.some_get _).symm⟩
  exact ⟨(heap_wellFormed Config.board 0 1024 kilobyte init [.alloc 100] kilobyteTaken
    (.snoc (.nil _) taken)).1, by decide⟩

end RtThread.Mem
