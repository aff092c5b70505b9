import RtThread.Mem.SmallMemBytes

/-! The counters `parent.used` and `parent.max` of a small-memory heap. -/

set_option autoImplicit false
namespace RtThread.Mem
open RtThread.Lib

variable (cfg : Config)

/-- The bytes of the used blocks among those at `offsets`, their items included -/
def SmallMem.usedBytes (h : SmallMem) : List Nat → Nat
  | [] => 0
  | offset :: rest => (if (h.item offset).used then (h.item offset).next - offset else 0) + h.usedBytes rest

def usedSpan : List Block → Nat
  | [] => 0
  | b :: rest => (if b.used then blockSize cfg b else 0) + usedSpan rest

/-- The heap holds blocks, and `used` is what the used ones among them take. -/
def Counted (h : SmallMem) : Prop := ∃ blocks, Repr cfg h blocks ∧ h.used = usedSpan cfg blocks

/-! ## The counter of a list of blocks -/

section blocks
variable {cfg} {first rest : List Block} {capacity : Nat}

@[simp] theorem usedSpan_append (first rest : List Block) :
    usedSpan cfg (first ++ rest) = usedSpan cfg first + usedSpan cfg rest := by
  induction first with
  | nil => simp [usedSpan]
  | cons b first ih => simp only [List.cons_append, usedSpan, ih, Nat.add_assoc]

@[simp] theorem usedSpan_used (rest : List Block) (capacity : Nat) :
    usedSpan cfg (⟨capacity, true⟩ :: rest) = cfg.sizeofStructMem + capacity + usedSpan cfg rest := by
  simp [usedSpan, blockSize]

@[simp] theorem usedSpan_free (rest : List Block) (capacity : Nat) :
    usedSpan cfg (⟨capacity, false⟩ :: rest) = usedSpan cfg rest := by
  simp [usedSpan]

theorem usedSpan_mergeNext : usedSpan cfg (mergeNext cfg capacity rest).2 = usedSpan cfg rest := by
  rcases rest with _ | ⟨⟨other, status⟩, rest⟩
  · rfl
  · cases status <;> simp [mergeNext]

theorem usedSpan_mergePrev : usedSpan cfg (mergePrev cfg first capacity rest) = usedSpan cfg first + usedSpan cfg rest := by
  rcases List.eq_nil_or_concat' first with rfl | ⟨before, ⟨other, status⟩, rfl⟩
  · simp [mergePrev, usedSpan]
  · cases status with
    | true => simp [mergePrev, usedSpan, Nat.add_assoc]
    | false => simp [mergePrev, usedSpan]

theorem usedSpan_release : usedSpan cfg (release cfg first capacity rest) = usedSpan cfg first + usedSpan cfg rest := by
  rw [release, usedSpan_mergePrev, usedSpan_mergeNext]

theorem Linked.usedBytes {h : SmallMem} {prev offset : Nat} {blocks : List Block}
    (linked : Linked cfg h.item prev offset blocks) : h.usedBytes (offsetsFrom cfg offset blocks) = usedSpan cfg blocks := by
  induction blocks generalizing prev offset with
  | nil => rfl
  | cons b rest ih =>
    have tail := ih linked.2
    unfold offsetsFrom at tail ⊢
    simp only [layout_cons, List.map_cons, SmallMem.usedBytes, usedSpan, linked.1, tail, Nat.add_sub_cancel_left]

end blocks

/-! ## The counters under each operation -/

section operations
variable {cfg} {h : SmallMem} {first rest : List Block} {capacity : Nat}

theorem allocTake_counts (listed : Listed cfg h (first ++ ⟨capacity, false⟩ :: rest)) (size : Nat) :
    let h' := allocTake cfg h (span (blockSize cfg) first) size
    h'.used + usedSpan cfg (first ++ ⟨capacity, false⟩ :: rest) = h.used + usedSpan cfg (allot cfg first capacity size rest) ∧
      h'.max = max h.max h'.used := by
  have next : (h.item (span (blockSize cfg) first)).next = span (blockSize cfg) first + (cfg.sizeofStructMem + capacity) := by
    rw [listed.item_at]
    rfl
  have peak : ∀ used : Nat, (if h.max < used then used else h.max) = max h.max used := by
    intro used
    split <;> omega
  unfold allocTake allot
  dsimp only
  rw [next, show span (blockSize cfg) first + (cfg.sizeofStructMem + capacity) -
    (span (blockSize cfg) first + cfg.sizeofStructMem) = capacity by omega]
  by_cases large : size + cfg.sizeofStructMem + cfg.minSizeAligned ≤ capacity
  · obtain ⟨-, -, used, maxEq⟩ := splitBlock_fields cfg h (span (blockSize cfg) first) size
    rw [if_pos large, if_pos large]
    simp only [SmallMem.markUsed, SmallMem.setItem, SmallMem.addUsed, used, maxEq, peak, usedSpan_append, usedSpan_free,
      usedSpan_used]
    exact ⟨by omega, trivial⟩
  · rw [if_neg large, if_neg large]
    simp only [SmallMem.markUsed, SmallMem.setItem, SmallMem.addUsed, peak, usedSpan_append, usedSpan_free, usedSpan_used]
    exact ⟨by omega, trivial⟩

theorem Counted.alloc (counted : Counted cfg h) {h' : SmallMem} {size q : Nat}
    (call : rtSmemAlloc cfg h size = some (h', some q)) : Counted cfg h' ∧ h'.max = max h.max h'.used := by
  obtain ⟨blocks, repr, used⟩ := counted
  obtain ⟨ptr, lfree, place, shape⟩ := rtSmemAlloc_taken cfg call
  obtain ⟨_, _, blocks', done, allocated, repr', -⟩ := rtSmemAlloc_repr cfg repr size
  rw [call] at done
  cases done
  cases allocated with
  | @served first rest capacity cut room lowest =>
    obtain rfl : ptr = span (blockSize cfg) first := by omega
    subst cut
    obtain ⟨sum, peak⟩ := allocTake_counts repr.toListed (requestSize cfg size)
    have same : h'.used = (allocTake cfg h (span (blockSize cfg) first) (requestSize cfg size)).used := by rw [shape]
    refine ⟨⟨_, repr', by omega⟩, ?_⟩
    rw [same, ← peak, shape]

theorem rtSmemFree_counts (repr : Repr cfg h (first ++ ⟨capacity, true⟩ :: rest)) :
    let h' := rtSmemFree cfg h (some (span (blockSize cfg) first + cfg.sizeofStructMem))
    h'.used = h.used - (cfg.sizeofStructMem + capacity) ∧ h'.max = h.max := by
  obtain ⟨before, after⟩ := coalesced_used.mp repr.coalesced
  have freed : Listed cfg (h.markFreed cfg (span (blockSize cfg) first)) _ := repr.toListed.mark cfg false
  have next : (((h.markFreed cfg (span (blockSize cfg) first)).lowerFree (span (blockSize cfg) first)).item
      (span (blockSize cfg) first)).next - span (blockSize cfg) first = cfg.sizeofStructMem + capacity := by
    change ((h.markFreed cfg (span (blockSize cfg) first)).item (span (blockSize cfg) first)).next - _ = _
    rw [freed.item_at]
    exact Nat.add_sub_cancel_left _ _
  simp only [rtSmemFree, Nat.add_sub_cancel]
  rw [next]
  obtain ⟨-, -, used, max⟩ := plugHoles_lowered cfg freed repr.lfree_eq before after (cfg.sizeofStructMem + capacity)
  exact ⟨used, max⟩

theorem Counted.free (counted : Counted cfg h) {p : Nat} (held : h.Held cfg p) :
    let h' := rtSmemFree cfg h (some p)
    Counted cfg h' ∧ h'.used ≤ h.used ∧ h'.max = h.max := by
  obtain ⟨blocks, repr, used⟩ := counted
  obtain ⟨o, c, rfl, live⟩ := repr.toListed.held_iff.mp held
  obtain ⟨first, rest, rfl, rfl⟩ := (live_iff cfg).mp live
  obtain ⟨repr', -⟩ := rtSmemFree_repr cfg repr
  obtain ⟨usedEq, maxEq⟩ := rtSmemFree_counts repr
  simp only [usedSpan_append, usedSpan_used] at used
  refine ⟨⟨_, repr', ?_⟩, ?_, maxEq⟩
  · rw [usedEq, usedSpan_release]
    omega
  · rw [usedEq]
    omega

theorem Counted.shrunk (counted : Counted cfg h) {p size : Nat} (held : h.Held cfg p) (aligned : cfg.alignSize ∣ size)
    (inside : size + cfg.sizeofStructMem ≤ h.capacity cfg p) :
    let h' := plugHoles cfg ((splitBlock cfg (h.subUsed (h.capacity cfg p - size)) (p - cfg.sizeofStructMem) size).lowerFree
      (p + size)) (p + size)
    Counted cfg h' ∧ h'.used ≤ h.used ∧ h'.max = h.max := by
  obtain ⟨blocks, repr, used⟩ := counted
  obtain ⟨o, c, rfl, live⟩ := repr.toListed.held_iff.mp held
  obtain ⟨first, rest, rfl, rfl⟩ := (live_iff cfg).mp live
  rw [repr.toListed.capacity_eq] at inside ⊢
  rw [Nat.add_sub_cancel]
  obtain ⟨repr', -, usedEq, maxEq⟩ := shrunk_repr cfg repr inside aligned (c - size)
  simp only [usedSpan_append, usedSpan_used] at used
  refine ⟨⟨_, repr', ?_⟩, ?_, maxEq⟩
  · rw [usedEq, usedSpan_release]
    have cut : usedSpan cfg [⟨size, true⟩] = cfg.sizeofStructMem + size := usedSpan_used [] size
    rw [usedSpan_append, cut]
    omega
  · rw [usedEq]
    omega

theorem Counted.write (counted : Counted cfg h) {p start len : Nat} (held : h.Held cfg p) (low : p ≤ start)
    (high : start + len ≤ h.dataEnd cfg p) (data : Nat → UInt8) (spelled : Nat → SmallMemItem) :
    let h' := h.writeBytes cfg start len data spelled
    Counted cfg h' ∧ ∀ r, h.Held cfg r → h'.Held cfg r := by
  obtain ⟨blocks, repr, used⟩ := counted
  have same : ∀ r, h.Held cfg r ↔ _ := fun r => repr.toListed.held_iff
  obtain ⟨o, c, rfl, live⟩ := (same _).mp held
  obtain ⟨first, rest, rfl, rfl⟩ := (live_iff cfg).mp live
  have written := repr.toListed.writeBytes cfg low (by simpa [SmallMem.dataEnd, repr.toListed.item_at] using high) data spelled
  exact ⟨⟨_, ⟨written, repr.coalesced, repr.lfree_eq⟩, used⟩, fun r here => written.held_iff.mpr ((same r).mp here)⟩

end operations

/-! ## Readings of the counter -/

/-- The heap between the two changes of `used` in a resize that moves its block: only that one returns another pointer. -/
def Session.midway (s : Session) : Call → Option SmallMem
  | .realloc (some rmem) newsize =>
    match rtSmemRealloc cfg s.heap (some rmem) newsize with
    | some (_, some q) => if q = rmem then none else (rtSmemAlloc cfg s.heap (cfg.rtAlign newsize)).map Prod.fst
    | _ => none
  | _ => none

/-- A session and every value that `used` has had in it -/
structure Metered where
  session : Session
  readings : List Nat

def Metered.call (m : Metered) (c : Call) : Option Metered :=
  (m.session.call cfg c).map fun s =>
    ⟨s, m.readings ++ ((m.session.midway cfg c).toList ++ [s.heap]).map SmallMem.used⟩

def Metered.Step (m : Metered) (c : Call) (m' : Metered) : Prop :=
  m.session.Permits cfg c ∧ m.call cfg c = some m'

/-- `max` is the greatest of the readings, and the last of them is the present one. -/
structure Peak (h : SmallMem) (readings : List Nat) : Prop where
  reached : h.max ∈ readings
  greatest : ∀ value ∈ readings, value ≤ h.max
  present : h.used ∈ readings

theorem Peak.raise {h h' : SmallMem} {readings : List Nat} (peak : Peak h readings) (same : h'.max = max h.max h'.used) :
    Peak h' (readings ++ [h'.used]) where
  reached := by
    rw [same]
    rcases Nat.le_total h.max h'.used with grown | below
    · rw [Nat.max_eq_right grown]
      exact List.mem_append_right _ (List.mem_singleton_self _)
    · rw [Nat.max_eq_left below]
      exact List.mem_append_left _ peak.reached
  greatest value member := by
    rw [same]
    rcases List.mem_append.mp member with old | new
    · exact Nat.le_trans (peak.greatest value old) (Nat.le_max_left _ _)
    · rw [List.mem_singleton.mp new]
      exact Nat.le_max_right _ _
  present := List.mem_append_right _ (List.mem_singleton_self _)

theorem Peak.lower {h h' : SmallMem} {readings : List Nat} (peak : Peak h readings) (used : h'.used ≤ h.used)
    (same : h'.max = h.max) : Peak h' (readings ++ [h'.used]) := by
  have below := peak.greatest _ peak.present
  refine peak.raise ?_
  rw [same]
  exact (Nat.max_eq_left (by omega)).symm

/-! ## Calls and runs -/

section calls
variable {cfg} {h h' : SmallMem} {readings : List Nat}

theorem alloc_metered (counted : Counted cfg h) (peak : Peak h readings) {size : Nat} {result : Option Nat}
    (call : rtSmemAlloc cfg h size = some (h', result)) : Counted cfg h' ∧ Peak h' (readings ++ [h'.used]) := by
  cases result with
  | none =>
    obtain rfl := rtSmemAlloc_refused cfg call
    exact ⟨counted, peak.lower (Nat.le_refl _) rfl⟩
  | some q =>
    obtain ⟨counted', same⟩ := counted.alloc call
    exact ⟨counted', peak.raise same⟩

theorem rtSmemAlloc_fresh (counted : Counted cfg h) {size q : Nat} (call : rtSmemAlloc cfg h size = some (h', some q)) :
    ¬h.Held cfg q ∧ (∀ p, h.Held cfg p → h'.Held cfg p) ∧ h'.Held cfg q ∧ q + requestSize cfg size ≤ h'.dataEnd cfg q := by
  obtain ⟨blocks, repr, -⟩ := counted
  obtain ⟨blocks', repr', allocated, -⟩ := rtSmemAlloc_only repr call
  obtain ⟨offset, capacity, rfl, enough, fresh, lives⟩ := allocated.live
  have new := (lives offset capacity).mpr (.inr ⟨rfl, rfl⟩)
  refine ⟨fun held => ?_, fun p held => ?_, repr'.toListed.held_iff.mpr ⟨offset, capacity, rfl, new⟩, ?_⟩
  · obtain ⟨o, c, place, live⟩ := repr.toListed.held_iff.mp held
    obtain rfl : offset = o := by omega
    exact fresh c live
  · obtain ⟨o, c, rfl, live⟩ := repr.toListed.held_iff.mp held
    exact repr'.toListed.held_iff.mpr ⟨o, c, rfl, (lives o c).mpr (.inl live)⟩
  · have item := (repr'.toListed.item_of_entry cfg new).2
    rw [SmallMem.dataEnd, Nat.add_sub_cancel, item, blockSize]
    dsimp only
    omega

theorem Counted.inside (counted : Counted cfg h) {p : Nat} (held : h.Held cfg p) : cfg.sizeofStructMem ≤ p := by
  obtain ⟨blocks, repr, -⟩ := counted
  obtain ⟨o, c, rfl, live⟩ := repr.toListed.held_iff.mp held
  exact Nat.le_add_left _ _

theorem moved_metered (counted : Counted cfg h) (peak : Peak h readings) {h₁ : SmallMem} {p q newsize capacity : Nat}
    (held : h.Held cfg p) (alloc : rtSmemAlloc cfg h (cfg.rtAlign newsize) = some (h₁, some q)) :
    let h₂ := rtMemcpy cfg h₁ q p (if capacity < cfg.rtAlign newsize then capacity else cfg.rtAlign newsize)
    let h' := rtSmemFree cfg h₂ (some p)
    Counted cfg h' ∧ Peak h' (readings ++ [h₁.used, h'.used]) := by
  intro h₂ h'
  obtain ⟨counted₁, peak₁⟩ := alloc_metered counted peak alloc
  obtain ⟨-, kept, new, room⟩ := rtSmemAlloc_fresh counted alloc
  have least := rtAlign_le_requestSize cfg newsize
  have fits : (if capacity < cfg.rtAlign newsize then capacity else cfg.rtAlign newsize) ≤ cfg.rtAlign newsize := by
    split <;> omega
  have inside : q + (if capacity < cfg.rtAlign newsize then capacity else cfg.rtAlign newsize) ≤ h₁.dataEnd cfg q := by omega
  obtain ⟨counted₂, still⟩ := counted₁.write new (Nat.le_refl q) inside
    (fun place => h₁.byte (p + (place - q))) (fun _ => ⟨false, false, 0, 0⟩)
  obtain ⟨counted', used, same⟩ := Counted.free (h := h₂) counted₂ (still p (kept p held))
  refine ⟨counted', ?_⟩
  rw [List.append_cons]
  exact peak₁.lower used same

theorem Session.Sound.metered {s s' : Session} {c : Call} {blocks : List Block} (sound : s.Sound cfg blocks)
    (step : s.Step cfg c s') (counted : Counted cfg s.heap) (peak : Peak s.heap readings) :
    Counted cfg s'.heap ∧
      Peak s'.heap (readings ++ ((s.midway cfg c).toList ++ [s'.heap]).map SmallMem.used) := by
  obtain ⟨permitted, call⟩ := step
  cases c with
  | alloc size =>
    obtain ⟨⟨heap, result⟩, done, rfl⟩ := Option.map_eq_some_iff.mp call
    exact alloc_metered counted peak done
  | free rmem =>
    cases call
    cases rmem with
    | none => exact ⟨counted, peak.lower (Nat.le_refl _) rfl⟩
    | some rmem =>
      obtain ⟨counted', used, max⟩ := counted.free (sound.held (permitted rmem rfl))
      exact ⟨counted', peak.lower used max⟩
  | store start len data spelled =>
    cases call
    obtain ⟨p, live, low, high⟩ := permitted
    exact ⟨(counted.write (sound.held live) low high data spelled).1, peak.lower (Nat.le_refl _) rfl⟩
  | realloc rmem newsize =>
    obtain ⟨⟨heap, result⟩, done, rfl⟩ := Option.map_eq_some_iff.mp call
    cases rmem with
    | none =>
      have way := done
      unfold rtSmemRealloc at way
      dsimp only at way
      split at way
      · cases way
        exact ⟨counted, peak.lower (Nat.le_refl _) rfl⟩
      split at way
      · cases way
        exact ⟨counted, peak.lower (Nat.le_refl _) rfl⟩
      · exact alloc_metered counted peak way
    | some rmem =>
      have held := sound.held (permitted rmem rfl)
      have inside := counted.inside held
      have way := rtSmemRealloc_resized cfg done inside
      have size : (s.heap.item (rmem - cfg.sizeofStructMem)).next - (rmem - cfg.sizeofStructMem) - cfg.sizeofStructMem =
          s.heap.capacity cfg rmem := by
        unfold SmallMem.capacity SmallMem.dataEnd
        omega
      rw [size] at way
      unfold Session.midway
      simp only [done]
      cases way with
      | refused nonzero => exact ⟨counted, peak.lower (Nat.le_refl _) rfl⟩
      | freed zero =>
        obtain ⟨counted', used, max⟩ := counted.free held
        exact ⟨counted', peak.lower used max⟩
      | kept nonzero same =>
        dsimp only
        rw [if_pos rfl]
        exact ⟨counted, peak.lower (Nat.le_refl _) rfl⟩
      | shrunk nonzero room =>
        dsimp only
        rw [if_pos rfl]
        obtain ⟨counted', used, same⟩ := counted.shrunk held (cfg.rtAlign_dvd newsize) (by omega)
        exact ⟨counted', peak.lower used same⟩
      | @moved h₁ q nonzero alloc =>
        have other : q ≠ rmem := fun same => (rtSmemAlloc_fresh counted alloc).1 (same ▸ held)
        dsimp only
        rw [if_neg other, alloc]
        exact moved_metered counted peak held alloc

end calls

/-- What holds of a session that started with the heap `h` -/
structure Metered.Sound (h : SmallMem) (m : Metered) : Prop where
  session : ∃ blocks, m.session.Sound cfg blocks
  same : SameObject h m.session.heap
  counted : Counted cfg m.session.heap
  peak : Peak m.session.heap m.readings

theorem Metered.Sound.step {h : SmallMem} {m m' : Metered} {c : Call} (sound : m.Sound cfg h) (step : m.Step cfg c m') :
    m'.Sound cfg h := by
  obtain ⟨permitted, call⟩ := step
  obtain ⟨s, done, rfl⟩ := Option.map_eq_some_iff.mp call
  obtain ⟨blocks, session⟩ := sound.session
  obtain ⟨blocks', session', same⟩ := session.step cfg ⟨permitted, done⟩
  obtain ⟨counted, peak⟩ := session.metered ⟨permitted, done⟩ sound.counted sound.peak
  exact ⟨⟨blocks', session'⟩, sound.same.trans same, counted, peak⟩

theorem Metered.sound_run {beginAddr region : Nat} {h : SmallMem} (init : rtSmemInit cfg beginAddr region = some h)
    {calls : List Call} {m : Metered} (run : Run (Metered.Step cfg) ⟨⟨h, []⟩, [h.used]⟩ calls m) : m.Sound cfg h := by
  have repr := rtSmemInit_repr cfg init
  obtain ⟨used, max⟩ : h.used = 0 ∧ h.max = 0 := by
    unfold rtSmemInit at init
    dsimp only at init
    split at init
    case isTrue => cases init; exact ⟨rfl, rfl⟩
    case isFalse => cases init
  refine run.invariant (Metered.Sound cfg h) (fun _ _ _ sound step => sound.step cfg step) ⟨?_, .refl h, ?_, ?_⟩
  · exact ⟨_, repr, List.nodup_nil, fun p => by simp [Pointer, Live]⟩
  · exact ⟨_, repr, by rw [used]; rfl⟩
  · exact ⟨by simp [used, max], by simp [used, max], by simp⟩

theorem all_free {h : SmallMem} {blocks : List Block} (repr : Repr cfg h blocks) (free : ∀ p, ¬h.Held cfg p) :
    blocks = [⟨h.memSizeAligned, false⟩] := by
  have total := repr.total
  have endEq := repr.end_eq
  have positive := cfg.sizeofStructMem_pos
  have unused : ∀ b ∈ blocks, b.used = false := by
    intro b member
    obtain ⟨capacity, used⟩ := b
    by_contra used_
    obtain rfl : used = true := by simpa using used_
    obtain ⟨first, rest, rfl⟩ := List.append_of_mem member
    exact free _ (repr.toListed.held_iff.mpr ⟨_, capacity, rfl, (live_iff cfg).mpr ⟨first, rest, rfl, rfl⟩⟩)
  match blocks with
  | [] =>
    simp only [span_nil] at total
    omega
  | [⟨capacity, used⟩] =>
    obtain rfl : used = false := unused ⟨capacity, used⟩ (by simp)
    simp only [span_cons, span_nil, blockSize] at total
    obtain rfl : capacity = h.memSizeAligned := by omega
    rfl
  | a :: b :: rest =>
    have pair := (List.isChain_cons_cons.mp repr.coalesced).1
    rw [unused a (by simp), unused b (by simp)] at pair
    simp at pair

/-- The counters and the shape of a heap whose client has made any calls: `used` is what the used blocks take, `max` is
the greatest value it had, and with no pointer left the heap is the one block that it started as. -/
theorem smem_accounting (beginAddr region : Nat) (h : SmallMem) (init : rtSmemInit cfg beginAddr region = some h)
    (calls : List Call) (m : Metered) (run : Run (Metered.Step cfg) ⟨⟨h, []⟩, [h.used]⟩ calls m) :
    (∃ offsets, Walk m.session.heap 0 offsets ∧ m.session.heap.used = m.session.heap.usedBytes offsets) ∧
      (m.session.heap.max ∈ m.readings ∧ ∀ value ∈ m.readings, value ≤ m.session.heap.max) ∧
      (m.session.live = [] → m.session.heap.used = 0 ∧ Walk m.session.heap 0 [0] ∧
        m.session.heap.item 0 = h.item 0 ∧ (h.item 0).used = false ∧ m.session.heap.lfree = h.lfree) := by
  have start := rtSmemInit_repr cfg init
  have sound := Metered.sound_run cfg init run
  obtain ⟨blocks, repr, used⟩ := sound.counted
  have walk : Walk m.session.heap 0 (offsetsFrom cfg 0 blocks) :=
    repr.linked.walk cfg (by rw [Nat.zero_add]; exact repr.total)
  refine ⟨⟨_, walk, used.trans repr.linked.usedBytes.symm⟩, ⟨sound.peak.reached, sound.peak.greatest⟩, fun none => ?_⟩
  obtain ⟨others, session⟩ := sound.session
  have free : ∀ p, ¬m.session.heap.Held cfg p := by
    intro p held
    have live := (session.live_iff p).mpr (session.repr.toListed.held_iff.mp held)
    rw [none] at live
    cases live
  obtain rfl := all_free cfg repr free
  refine ⟨used.trans rfl, walk, ?_, congrArg SmallMemItem.used start.linked.1, repr.lfree_eq.trans start.lfree_eq.symm⟩
  rw [repr.linked.1, start.linked.1, sound.same.memSizeAligned]

def meteredTaken : Metered := (Metered.call Config.board ⟨⟨kilobyte, []⟩, [kilobyte.used]⟩ (.alloc 24)).get (by decide)

def meteredFreed : Metered := (meteredTaken.call Config.board (.free (some 16))).get (by decide)

theorem smem_accounting_kilobyte :
    meteredFreed.session.heap.used = 0 ∧ meteredFreed.session.heap.max ∈ meteredFreed.readings := by
  have taken : Metered.Step Config.board ⟨⟨kilobyte, []⟩, [kilobyte.used]⟩ (.alloc 24) meteredTaken :=
    ⟨trivial, (Option.some_get _).symm⟩
  have freed : meteredTaken.Step Config.board (.free (some 16)) meteredFreed := by
    refine ⟨?_, (Option.some_get _).symm⟩
    rintro p ⟨⟩
    decide
  have done := smem_accounting Config.board 0 1024 kilobyte (Option.some_get _).symm _ meteredFreed
    (.snoc (.snoc (.nil _) taken) freed)
  exact ⟨(done.2.2 (by decide)).1, done.2.1.1⟩

end RtThread.Mem
