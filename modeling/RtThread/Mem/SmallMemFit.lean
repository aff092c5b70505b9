import RtThread.Mem.SmallMemHeap

/-! Which block `rt_smem_alloc` serves a request from, and when it refuses; when `rt_smem_realloc` makes a block smaller,
and when it has to move it to do so. -/

set_option autoImplicit false
namespace RtThread.Mem
open RtThread.Lib

/-! ## Requests -/

variable (cfg : Config)

/-- A free block with a data area of at least `need` bytes -/
def SmallMem.Suitable (h : SmallMem) (need offset : Nat) : Prop :=
  (∃ offsets, Walk h 0 offsets ∧ offset ∈ offsets) ∧ (h.item offset).used = false ∧
    need ≤ (h.item offset).next - (offset + cfg.sizeofStructMem)

/-- `size` rounded up to RT_ALIGN_SIZE, as a number -/
def roundedUp (size : Nat) : Nat := (size + (cfg.alignSize - 1)) / cfg.alignSize * cfg.alignSize

def needed (size : Nat) : Nat := max (roundedUp cfg size) cfg.minSizeAligned

/-- The lowest suitable block is served, there is a block if one is suitable, and it has the bytes that are asked for. -/
structure FirstFit (h : SmallMem) (size : Nat) (h' : SmallMem) (result : Option Nat) : Prop where
  capacity : ∀ p ∈ result, size ≤ h'.dataEnd cfg p - p
  returns : result.isSome ↔ ∃ offset, h.Suitable cfg (needed cfg size) offset
  lowest : ∀ p ∈ result, ∃ offset, p = offset + cfg.sizeofStructMem ∧ h.Suitable cfg (needed cfg size) offset ∧
    ∀ other, h.Suitable cfg (needed cfg size) other → offset ≤ other

/-! ## Rounding -/

theorem le_roundedUp (size : Nat) : size ≤ roundedUp cfg size := by
  have positive := cfg.alignSize_pos
  have whole := Nat.div_add_mod (size + (cfg.alignSize - 1)) cfg.alignSize
  have part := Nat.mod_lt (size + (cfg.alignSize - 1)) positive
  rw [roundedUp, Nat.mul_comm]
  omega

theorem requestSize_eq {size : Nat} (fits : size + (cfg.alignSize - 1) < cfg.word) :
    requestSize cfg size = needed cfg size := by
  have rounded : cfg.rtAlign size = roundedUp cfg size := by rw [cfg.rtAlign_eq, Nat.mod_eq_of_lt fits, roundedUp]
  rw [requestSize, rounded, needed]
  split <;> omega

theorem rtAlign_wraps {size : Nat} (below : size < cfg.word) (wraps : ¬size + (cfg.alignSize - 1) < cfg.word) :
    cfg.rtAlign size = 0 := by
  have positive := cfg.alignSize_pos
  have le : cfg.alignSize ≤ cfg.word := Nat.pow_le_pow_right (by decide) cfg.align_le
  have small : (size + (cfg.alignSize - 1)) % cfg.word = size + (cfg.alignSize - 1) - cfg.word := by
    rw [Nat.mod_eq_sub_mod (Nat.le_of_not_lt wraps), Nat.mod_eq_of_lt (by omega)]
  rw [cfg.rtAlign_eq, small, Nat.div_eq_of_lt (by omega), Nat.zero_mul]

theorem requestSize_wraps {size : Nat} (below : size < cfg.word) (wraps : ¬size + (cfg.alignSize - 1) < cfg.word) :
    requestSize cfg size = cfg.minSizeAligned := by
  rw [requestSize, rtAlign_wraps cfg below wraps]
  split <;> omega

/-! ## Suitable blocks -/

theorem Walk.unique {h : SmallMem} {start : Nat} {offsets other : List Nat} (walk : Walk h start offsets)
    (walk' : Walk h start other) : offsets = other := by
  induction walk generalizing other with
  | stop =>
    cases walk' with
    | stop => rfl
    | visit inner => exact absurd rfl inner
  | visit inner _ ih =>
    cases walk' with
    | stop => exact absurd rfl inner
    | visit _ next => rw [ih next]

section listed
variable {h : SmallMem} {blocks first rest : List Block} {need capacity : Nat}

theorem Listed.suitable_iff (listed : Listed cfg h blocks) {offset : Nat} :
    h.Suitable cfg need offset ↔ ∃ b, (offset, b) ∈ layout (blockSize cfg) 0 blocks ∧ Suits need b = true := by
  have walk : Walk h 0 (offsetsFrom cfg 0 blocks) :=
    listed.linked.walk cfg (by rw [Nat.zero_add]; exact listed.total)
  constructor
  · rintro ⟨⟨offsets, walk', member⟩, free, room⟩
    rw [← walk.unique walk'] at member
    obtain ⟨b, entry⟩ := (mem_offsetsFrom cfg).mp member
    obtain ⟨used, next⟩ := listed.item_of_entry cfg entry
    refine ⟨b, entry, ?_⟩
    rw [next, blockSize] at room
    rw [Suits, ← used, free]
    simp only [Bool.not_false, Bool.true_and, decide_eq_true_eq]
    omega
  · rintro ⟨b, entry, fit⟩
    obtain ⟨used, next⟩ := listed.item_of_entry cfg entry
    simp only [Suits, Bool.and_eq_true, Bool.not_eq_true', decide_eq_true_eq] at fit
    refine ⟨⟨_, walk, (mem_offsetsFrom cfg).mpr ⟨b, entry⟩⟩, used.trans fit.1, ?_⟩
    rw [next, blockSize]
    omega

theorem Listed.capacity_le (listed : Listed cfg h blocks) {b : Block} (member : b ∈ blocks) :
    b.capacity ≤ h.memSizeAligned := by
  obtain ⟨front, behind, rfl⟩ := List.append_of_mem member
  have total := listed.total
  have endEq := listed.end_eq
  simp only [span_append, span_cons, blockSize] at total
  omega

theorem Repr.dataEnd_allot (repr : Repr cfg h (allot cfg first capacity need rest)) (room : need ≤ capacity) :
    ∃ k ≤ capacity, need ≤ k ∧ h.dataEnd cfg (span (blockSize cfg) first + cfg.sizeofStructMem) =
      span (blockSize cfg) first + cfg.sizeofStructMem + k := by
  have listed := repr.toListed
  unfold allot at listed
  unfold SmallMem.dataEnd
  rw [Nat.add_sub_cancel]
  split at listed
  · refine ⟨need, room, Nat.le_refl _, ?_⟩
    rw [listed.item_at, blockSize, Nat.add_assoc]
  · refine ⟨capacity, Nat.le_refl _, room, ?_⟩
    rw [listed.item_at, blockSize, Nat.add_assoc]

theorem Listed.lowest (listed : Listed cfg h (first ++ ⟨capacity, false⟩ :: rest))
    (room : need ≤ capacity) (unfit : ∀ b ∈ first, Suits need b = false) :
    h.Suitable cfg need (span (blockSize cfg) first) ∧
      ∀ other, h.Suitable cfg need other → span (blockSize cfg) first ≤ other := by
  refine ⟨(listed.suitable_iff cfg).mpr ⟨⟨capacity, false⟩, ?_, ?_⟩, fun other suitable => ?_⟩
  · exact (mem_layout_iff _).mpr ⟨first, rest, rfl, (Nat.zero_add _).symm⟩
  · simp [Suits, room]
  · obtain ⟨b, entry, fit⟩ := (listed.suitable_iff cfg).mp suitable
    rw [layout_append, List.mem_append] at entry
    rcases entry with before | behind
    · have member : b ∈ first := by
        obtain ⟨front, back, rfl, -⟩ := (mem_layout_iff _).mp before
        simp
      rw [unfit b member] at fit
      cases fit
    · obtain ⟨front, back, -, place⟩ := (mem_layout_iff _).mp behind
      omega

theorem Listed.none_suitable (listed : Listed cfg h blocks) (unsuited : ∀ b ∈ blocks, Suits need b = false) (offset : Nat) :
    ¬h.Suitable cfg need offset := by
  intro suitable
  obtain ⟨b, entry, fit⟩ := (listed.suitable_iff cfg).mp suitable
  obtain ⟨front, back, rfl, -⟩ := (mem_layout_iff _).mp entry
  rw [unsuited b (by simp)] at fit
  cases fit

end listed

/-! ## What an allocation serves -/

section served
variable {h h' : SmallMem} {blocks blocks' : List Block} {size : Nat} {result : Option Nat}

section
variable (allocated : Allocated cfg blocks size result blocks') (positive : 0 < size) (listed : Listed cfg h blocks)
include allocated positive listed

theorem Allocated.first_fit (repr : Repr cfg h' blocks') (same : requestSize cfg size = needed cfg size) :
    FirstFit cfg h size h' result := by
  cases allocated with
  | refused unsuited =>
    have none := listed.none_suitable cfg (unsuited.resolve_left (Nat.ne_of_gt positive))
    rw [same] at none
    exact ⟨nofun, iff_of_false Bool.false_ne_true fun some => none _ some.choose_spec, nofun⟩
  | served shape room lowest =>
    subst shape
    obtain ⟨k, _, enough, dataEnd⟩ := repr.dataEnd_allot cfg room
    obtain ⟨suitable, least⟩ := listed.lowest cfg room lowest
    rw [same] at enough suitable least
    refine ⟨fun p served => ?_, iff_of_true rfl ⟨_, suitable⟩, fun p served => ?_⟩
    · cases served
      have rounded := le_roundedUp cfg size
      rw [dataEnd, Nat.add_sub_cancel_left]
      unfold needed at enough
      omega
    · cases served
      exact ⟨_, rfl, suitable, least⟩

theorem Allocated.wrapped (repr : Repr cfg h' blocks') (below : size < cfg.word)
    (wraps : ¬size + (cfg.alignSize - 1) < cfg.word) (bound : h.memSizeAligned + cfg.alignSize ≤ cfg.word) :
    FirstFit cfg h size h' result ↔ ∀ offset, ¬h.Suitable cfg cfg.minSizeAligned offset := by
  have request := requestSize_wraps cfg below wraps
  cases allocated with
  | refused unsuited =>
    have none := listed.none_suitable cfg (unsuited.resolve_left (Nat.ne_of_gt positive))
    rw [request] at none
    have least : cfg.minSizeAligned ≤ needed cfg size := Nat.le_max_right _ _
    refine iff_of_true ⟨nofun, iff_of_false Bool.false_ne_true ?_, nofun⟩ none
    rintro ⟨offset, walk, free, room⟩
    exact none offset ⟨walk, free, Nat.le_trans least room⟩
  | @served first rest capacity shape room lowest =>
    subst shape
    obtain ⟨k, small, _, dataEnd⟩ := repr.dataEnd_allot cfg room
    have suitable := (listed.lowest cfg room lowest).1
    rw [request] at suitable
    refine iff_of_false (fun fit => ?_) fun none => none _ suitable
    have enough := fit.capacity _ rfl
    rw [dataEnd, Nat.add_sub_cancel_left] at enough
    have most := listed.capacity_le cfg (b := ⟨capacity, false⟩) (by simp)
    change capacity ≤ _ at most
    have unit := cfg.alignSize_pos
    omega

end

end served

theorem rtSmemInit_bound {beginAddr size : Nat} {h : SmallMem} (init : rtSmemInit cfg beginAddr size = some h) :
    h.memSizeAligned + cfg.alignSize ≤ cfg.word := by
  unfold rtSmemInit at init
  dsimp only at init
  split at init
  case isFalse => cases init
  case isTrue fits =>
    cases init
    have endBound : (beginAddr + size) % cfg.word < cfg.word := Nat.mod_lt _ (Nat.two_pow_pos cfg.wordBits)
    have endLt : cfg.rtAlignDown ((beginAddr + size) % cfg.word) < cfg.word := by
      rw [Config.rtAlignDown, cfg.mask_eq _ endBound]
      exact Nat.lt_of_le_of_lt (Nat.div_mul_le_self _ _) endBound
    have structDvd := Nat.le_of_dvd cfg.sizeofStructMem_pos cfg.sizeofStructMem_dvd
    change _ - _ - _ + _ ≤ _
    omega

/-- A request is served by first fit unless rounding it up wraps, and then only if nothing is free. -/
theorem smem_first_fit (beginAddr region : Nat) (h : SmallMem) (init : rtSmemInit cfg beginAddr region = some h)
    (calls : List Call) (s : Session) (run : Run (Session.Step cfg) ⟨h, []⟩ calls s) (size : Nat) (positive : 0 < size)
    (below : size < cfg.word) :
    ∃ h' result, rtSmemAlloc cfg s.heap size = some (h', result) ∧
      (FirstFit cfg s.heap size h' result ↔
        size + (cfg.alignSize - 1) < cfg.word ∨ ∀ offset, ¬s.heap.Suitable cfg cfg.minSizeAligned offset) := by
  obtain ⟨blocks, sound, same⟩ := s.sound_run cfg init run
  have bound := rtSmemInit_bound cfg init
  rw [← same.memSizeAligned] at bound
  obtain ⟨h', result, blocks', call, allocated, repr, -⟩ := rtSmemAlloc_repr cfg sound.repr size
  refine ⟨h', result, call, ?_⟩
  by_cases fits : size + (cfg.alignSize - 1) < cfg.word
  · exact iff_of_true (allocated.first_fit cfg positive sound.repr.toListed repr (requestSize_eq cfg fits)) (Or.inl fits)
  · rw [allocated.wrapped cfg positive sound.repr.toListed repr below fits bound, or_iff_right fits]

theorem smem_first_fit_kilobyte :
    ∃ h' result, rtSmemAlloc Config.board kilobyteTaken.heap 20 = some (h', result) ∧
      (FirstFit Config.board kilobyteTaken.heap 20 h' result ↔ 20 + 7 < Config.board.word ∨
        ∀ offset, ¬kilobyteTaken.heap.Suitable Config.board Config.board.minSizeAligned offset) := by
  have init : rtSmemInit Config.board 0 1024 = some kilobyte := (Option.some_get _).symm
  have taken : Session.Step Config.board ⟨kilobyte, []⟩ (.alloc 100) kilobyteTaken :=
    ⟨trivial, (Option.some_get _).symm⟩
  exact smem_first_fit Config.board 0 1024 kilobyte init [.alloc 100] kilobyteTaken (.snoc (.nil _) taken) 20 (by decide)
    (by decide)

theorem smem_first_fit_wraps :
    ∃ h' result, rtSmemAlloc Config.board kilobyte (2 ^ 32 - 1) = some (h', result) ∧
      ¬FirstFit Config.board kilobyte (2 ^ 32 - 1) h' result := by
  have look : (rtSmemAlloc Config.board kilobyte (2 ^ 32 - 1)).map
      (fun done => (done.2, done.1.dataEnd Config.board 16)) = some (some 16, 32) := by decide
  obtain ⟨⟨h', result⟩, done, values⟩ := Option.map_eq_some_iff.mp look
  simp only [Prod.mk.injEq] at values
  refine ⟨h', result, done, fun fit => ?_⟩
  have enough := fit.capacity 16 values.1
  rw [values.2] at enough
  exact absurd enough (by decide)

/-! ## Making a block smaller -/

variable (cfg : Config)

def SmallMem.capacity (h : SmallMem) (rmem : Nat) : Nat := h.dataEnd cfg rmem - rmem

def InPlace (capacity newsize : Nat) : Prop :=
  capacity = cfg.rtAlign newsize ∨ cfg.rtAlign newsize + cfg.sizeofStructMem + cfg.minSize < capacity

theorem Listed.capacity_eq {h : SmallMem} {first rest : List Block} {capacity : Nat} {used : Bool}
    (listed : Listed cfg h (first ++ ⟨capacity, used⟩ :: rest)) :
    h.capacity cfg (span (blockSize cfg) first + cfg.sizeofStructMem) = capacity := by
  unfold SmallMem.capacity SmallMem.dataEnd
  rw [Nat.add_sub_cancel, listed.item_at]
  simp only [blockSize]
  omega

theorem rtAlign_rtAlign (size : Nat) : cfg.rtAlign (cfg.rtAlign size) = cfg.rtAlign size :=
  cfg.rtAlign_of_dvd (cfg.rtAlign_dvd size) (cfg.rtAlign_lt size)

theorem requestSize_rtAlign (size : Nat) : requestSize cfg (cfg.rtAlign size) = requestSize cfg size := by
  unfold requestSize
  rw [rtAlign_rtAlign]

theorem rtAlign_le_capacity {newsize capacity : Nat} (aligned : cfg.alignSize ∣ capacity) (smaller : newsize ≤ capacity)
    (bound : capacity + cfg.alignSize ≤ cfg.word) : cfg.rtAlign newsize ≤ capacity :=
  cfg.rtAlign_le (by omega) smaller aligned

theorem rtSmemAlloc_returns {h h' : SmallMem} {blocks : List Block} (repr : Repr cfg h blocks) {size : Nat}
    {result : Option Nat} (call : rtSmemAlloc cfg h size = some (h', result)) (positive : 0 < size)
    (fits : size + (cfg.alignSize - 1) < cfg.word) :
    (∃ q, result = some q) ↔ ∃ offset, h.Suitable cfg (needed cfg size) offset := by
  obtain ⟨_, _, _, done, allocated, repr', -⟩ := rtSmemAlloc_repr cfg repr size
  rw [call] at done
  cases done
  have fit := allocated.first_fit cfg positive repr.toListed repr' (requestSize_eq cfg fits)
  rw [← fit.returns, Option.isSome_iff_exists]

theorem rtSmemRealloc_returns {h : SmallMem} {first rest : List Block} {capacity newsize : Nat}
    (repr : Repr cfg h (first ++ ⟨capacity, true⟩ :: rest)) (positive : 0 < newsize) (smaller : newsize ≤ capacity)
    (bound : h.memSizeAligned + cfg.alignSize ≤ cfg.word) :
    (∃ h' q, rtSmemRealloc cfg h (some (span (blockSize cfg) first + cfg.sizeofStructMem)) newsize = some (h', some q)) ↔
      InPlace cfg capacity newsize ∨ ∃ offset, h.Suitable cfg (needed cfg newsize) offset := by
  have inside := repr.toListed.capacity_le cfg (b := ⟨capacity, true⟩) (by simp)
  have aligned := repr.aligned ⟨capacity, true⟩ (by simp)
  dsimp only at inside aligned
  have unit := cfg.alignSize_pos
  have less := rtAlign_le_capacity cfg aligned smaller (by omega)
  have more := cfg.rtAlign_ge newsize (by omega)
  have size : (h.item (span (blockSize cfg) first)).next - span (blockSize cfg) first - cfg.sizeofStructMem =
      capacity := by
    rw [repr.toListed.item_at]
    simp only [blockSize]
    omega
  unfold rtSmemRealloc InPlace
  simp only [Nat.add_sub_cancel, size]
  rw [if_neg (by omega), if_neg (by omega)]
  by_cases same : capacity = cfg.rtAlign newsize
  · rw [if_pos same]
    exact iff_of_true ⟨_, _, rfl⟩ (.inl (.inl same))
  rw [if_neg same]
  by_cases room : cfg.rtAlign newsize + cfg.sizeofStructMem + cfg.minSize < capacity
  · rw [if_pos room]
    exact iff_of_true ⟨_, _, rfl⟩ (.inl (.inr room))
  rw [if_neg room, or_iff_right (not_or.mpr ⟨same, room⟩)]
  -- "expand memory" serves what is neither the same size nor a cut
  obtain ⟨h₁, result, -, call, -⟩ := rtSmemAlloc_repr cfg repr (cfg.rtAlign newsize)
  have needs : needed cfg (cfg.rtAlign newsize) = needed cfg newsize := by
    rw [← requestSize_eq cfg (by omega), ← requestSize_eq cfg (by omega), requestSize_rtAlign]
  rw [← needs, ← rtSmemAlloc_returns cfg repr call (by omega) (by omega), call]
  cases result with
  | none => simp
  | some q => exact iff_of_true ⟨_, _, rfl⟩ ⟨q, rfl⟩

/-- A smaller size is granted where it is served in place, and otherwise just if another block suits. -/
theorem smem_shrink (beginAddr region : Nat) (h : SmallMem) (init : rtSmemInit cfg beginAddr region = some h)
    (calls : List Call) (s : Session) (run : Run (Session.Step cfg) ⟨h, []⟩ calls s) (p : Nat) (live : p ∈ s.live)
    (newsize : Nat) (positive : 0 < newsize) (smaller : newsize ≤ s.heap.capacity cfg p) :
    (∃ h' q, rtSmemRealloc cfg s.heap (some p) newsize = some (h', some q)) ↔
      InPlace cfg (s.heap.capacity cfg p) newsize ∨ ∃ offset, s.heap.Suitable cfg (needed cfg newsize) offset := by
  obtain ⟨blocks, sound, same⟩ := s.sound_run cfg init run
  have bound := rtSmemInit_bound cfg init
  rw [← same.memSizeAligned] at bound
  obtain ⟨first, capacity, rest, rfl, rfl⟩ := (pointer_iff cfg).mp ((sound.live_iff p).mp live)
  rw [sound.repr.toListed.capacity_eq] at smaller ⊢
  exact rtSmemRealloc_returns cfg sound.repr positive smaller bound

def kilobyteLeast : Session := (Session.call Config.board ⟨kilobyte, []⟩ (.alloc 24)).get (by decide)

def kilobyteFull : Session := (kilobyteLeast.call Config.board (.alloc 896)).get (by decide)

theorem kilobyteFull_run : Run (Session.Step Config.board) ⟨kilobyte, []⟩ [.alloc 24, .alloc 896] kilobyteFull :=
  .snoc (.snoc (.nil _) ⟨trivial, (Option.some_get _).symm⟩) ⟨trivial, (Option.some_get _).symm⟩

theorem smem_shrink_kilobyte :
    (∃ h' q, rtSmemRealloc Config.board kilobyteFull.heap (some 56) 100 = some (h', some q)) ↔
      InPlace Config.board (kilobyteFull.heap.capacity Config.board 56) 100 ∨
        ∃ offset, kilobyteFull.heap.Suitable Config.board (needed Config.board 100) offset :=
  smem_shrink Config.board 0 1024 kilobyte (Option.some_get _).symm _ kilobyteFull kilobyteFull_run 56 (by decide) 100
    (by decide) (by decide)

theorem smem_shrink_fails :
    ∃ s, Run (Session.Step Config.board) ⟨kilobyte, []⟩ [.alloc 24, .alloc 896] s ∧ 16 ∈ s.live ∧
      s.heap.capacity Config.board 16 = 24 ∧
      ∃ h', rtSmemRealloc Config.board s.heap (some 16) 16 = some (h', none) := by
  refine ⟨kilobyteFull, kilobyteFull_run, by decide, by decide, ?_⟩
  have look : (rtSmemRealloc Config.board kilobyteFull.heap (some 16) 16).map Prod.snd = some none := by decide
  obtain ⟨⟨h', result⟩, done, rfl⟩ := Option.map_eq_some_iff.mp look
  exact ⟨h', done⟩

end RtThread.Mem
