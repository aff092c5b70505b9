import RtThread.Pools.Mempool

/-! Every call of a memory pool keeps its blocks apart, and writes to their pointers only. -/

set_option autoImplicit false
namespace RtThread.Pools
open Ipc Lib

section
variable {T : Type} {w : MpWorld T} {chain rest : List UInt32} {a value : UInt32}

theorem ptr_eq_some : ptr value = some a ↔ value = a ∧ a ≠ 0 := by
  rw [ptr]
  split
  case isTrue zero =>
    subst zero
    simp only [reduceCtorEq, false_iff, not_and, not_not]
    exact fun same => same.symm
  case isFalse some =>
    rw [Option.some.injEq]
    exact ⟨fun same => ⟨same, same ▸ some⟩, fun both => both.1⟩

theorem sub_add_four (block : UInt32) : block + 4 - 4 = block := by
  rw [UInt32.add_sub_cancel]

theorem MpWorld.Holds.congr {w' : MpWorld T} (holds : w.Holds chain) (mp : w'.mp = w.mp) (addr : w'.addr = w.addr)
    (live : w'.live = w.live) (stores : w'.stores = w.stores)
    (pointers : ∀ p ∈ w.mp.places, w'.load p = w.load p) : w'.Holds chain where
  fits := mp ▸ holds.fits
  stride := mp ▸ holds.stride
  links := by
    rw [mp]
    exact holds.links.congr fun p member => by rw [MpWorld.next, MpWorld.next, pointers p (holds.chain_place member)]
  count := mp ▸ holds.count
  blocks := by
    rw [mp, live]
    exact holds.blocks
  headers block member := by
    rw [live] at member
    rw [addr, pointers _ (holds.live_place member)]
    exact holds.headers block member
  stores := by
    rw [mp, stores]
    exact holds.stores

theorem MpWorld.Holds.take (holds : w.Holds (a :: rest)) :
    ((({ w.setFree (w.mp.blockFreeCount - 1) (w.load a) with live := (a + 4) :: w.live }).store a w.addr)).Holds rest := by
  have once := List.nodup_cons.mp holds.nodup
  have own := holds.chain_place List.mem_cons_self
  have other : ∀ p ∈ w.mp.places, p ≠ a → load32 (store32 w.mem a.toNat w.addr) p.toNat = w.load p :=
    fun p member differ => holds.fits.load_store own member differ w.addr
  have positive : 0 < w.mp.blockFreeCount.toNat := by
    rw [← holds.count]
    exact Nat.succ_pos _
  obtain ⟨-, links⟩ := holds.links
  constructor
  · exact holds.fits
  · exact holds.stride
  · apply links.congr
    intro p member
    have differ : p ≠ a := fun same => once.1 (List.mem_append_left _ (same ▸ member))
    exact congrArg ptr (other p (holds.chain_place (List.mem_cons_of_mem _ member)) differ)
  · have less : (w.mp.blockFreeCount - 1).toNat = w.mp.blockFreeCount.toNat - 1 := sub_toNat positive
    have count := holds.count
    rw [List.length_cons] at count
    exact (by omega : rest.length = w.mp.blockFreeCount.toNat - 1).trans less.symm
  · apply List.Perm.trans _ holds.blocks
    simp only [List.map_cons, MpWorld.store, MpWorld.setFree, sub_add_four]
    exact List.perm_middle
  · intro block member
    rcases List.mem_cons.mp member with rfl | old
    · rw [sub_add_four]
      exact load32_store32
    · have differ : block - 4 ≠ a := fun same => holds.live_out old (same ▸ List.mem_cons_self)
      exact (other _ (holds.live_place old) differ).trans (holds.headers block old)
  · intro b member
    rcases List.mem_cons.mp member with rfl | old
    · exact own
    · exact holds.stores b old

theorem MpWorld.Holds.give (holds : w.Holds chain) {block : UInt32} (member : block ∈ w.live) :
    MpWorld.Holds { (w.store (block - 4) w.mp.blockList).setFree (w.mp.blockFreeCount + 1) (block - 4) with
      live := w.live.erase block } ((block - 4) :: chain) := by
  have own := holds.live_place member
  have out := holds.live_out member
  have notNull := holds.fits.ne_zero own
  have other : ∀ p ∈ w.mp.places, p ≠ block - 4 →
      load32 (store32 w.mem (block - 4).toNat w.mp.blockList) p.toNat = w.load p :=
    fun p inside differ => holds.fits.load_store own inside differ w.mp.blockList
  have perm : (block :: w.live.erase block).Perm w.live := (List.perm_cons_erase member).symm
  have blocks : ((block - 4) :: chain ++ (w.live.erase block).map (· - 4)).Perm w.mp.places := by
    apply List.Perm.trans _ holds.blocks
    exact List.perm_middle.symm.trans ((perm.map (· - 4)).append_left chain)
  constructor
  · exact holds.fits
  · exact holds.stride
  · refine ⟨ptr_eq_some.mpr ⟨rfl, notNull⟩, ?_⟩
    have after : MpWorld.next { (w.store (block - 4) w.mp.blockList).setFree (w.mp.blockFreeCount + 1) (block - 4) with
        live := w.live.erase block } (block - 4) = ptr w.mp.blockList := congrArg ptr load32_store32
    rw [after]
    apply holds.links.congr
    intro p inside
    have differ : p ≠ block - 4 := fun same => out (same ▸ inside)
    exact congrArg ptr (other p (holds.chain_place inside) differ)
  · have length := blocks.length_eq
    have total := w.mp.blockTotalCount.toNat_lt
    have count := holds.count
    simp only [Mempool.places, List.length_append, List.length_cons, List.length_map, List.length_range] at length
    have more : (w.mp.blockFreeCount + 1).toNat = w.mp.blockFreeCount.toNat + 1 := by
      apply add_toNat
      rw [UInt32.toNat_one]
      omega
    exact ((List.length_cons ..).trans (congrArg (· + 1) count)).trans more.symm
  · exact blocks
  · intro other' inside
    have old := List.mem_of_mem_erase inside
    have differ : other' - 4 ≠ block - 4 := by
      intro same
      have apart := (List.nodup_append.mp (blocks.nodup_iff.mpr holds.fits.nodup)).2.2
      exact apart _ List.mem_cons_self _ (List.mem_map_of_mem inside) same.symm
    exact (other _ (holds.live_place old) differ).trans (holds.headers other' old)
  · intro b inside
    rcases List.mem_cons.mp inside with rfl | old
    · exact own
    · exact holds.stores b old

theorem MpWorld.Holds.write (holds : w.Holds chain) {block : UInt32} (member : block ∈ w.live) {b : Nat} (byte : UInt8)
    (low : block.toNat ≤ b) (high : b < block.toNat + w.mp.blockSize.toNat) :
    MpWorld.Holds { w with mem := Function.update w.mem b byte } chain := by
  refine holds.congr rfl rfl rfl rfl ?_
  intro p inside
  have own := holds.live_place member
  have wide := holds.stride
  have limit := (holds.fits.inside own).2
  have word := holds.fits.word
  have start : block.toNat = (block - 4).toNat + 4 := by
    have whole : (block - 4 + 4).toNat = (block - 4).toNat + 4 := by
      apply add_toNat
      have four : (4 : UInt32).toNat = 4 := rfl
      omega
    rwa [UInt32.sub_add_cancel] at whole
  have apart : ∀ k < 4, p.toNat + k ≠ b := by
    intro k less same
    by_cases here : p = block - 4
    · subst here
      omega
    · have differ := holds.fits.apart inside own here
      omega
  exact load32_congr fun k less => Function.update_of_ne (apart k less) _ _

end

/-! ## Steps -/

section
variable {T : Type} [DecidableEq T] {w w' : MpWorld T} {chain : List UInt32} {a : UInt32}

def Returns (w : MpWorld T) (result : Option (MpWorld T × Option MpEvent)) : Prop :=
  ∃ w' event chain', result = some (w', event) ∧ w'.Holds chain' ∧ w'.mp.startAddress = w.mp.startAddress ∧
    w'.mp.size = w.mp.size ∧ ∀ block, event = some (.allocated block) → block ∉ w.live

theorem mpTake_returns (holds : w.Holds chain) (some : w.mp.blockFreeCount ≠ 0) (t : T) : Returns w (mpTake w t) := by
  cases chain with
  | nil => exact absurd (holds.nil_iff.mpr rfl) some
  | cons a rest =>
    obtain ⟨head, notNull⟩ := ptr_eq_some.mp holds.links.1
    have code : mpTake w t = Option.some (({ w.setFree (w.mp.blockFreeCount - 1) (w.load a) with
        live := (a + 4) :: w.live }.store a w.addr).goto t .idle, Option.some (.allocated (a + 4))) := by
      rw [mpTake, head]
      exact if_pos notNull
    refine ⟨_, _, rest, code, holds.take.congr rfl rfl rfl rfl fun _ _ => rfl, rfl, rfl, ?_⟩
    intro block event member
    obtain rfl : a + 4 = block := by
      cases event
      rfl
    have out := holds.live_out member
    rw [sub_add_four] at out
    exact out List.mem_cons_self

structure SamePool (w w' : MpWorld T) : Prop where
  mp : w'.mp = w.mp
  mem : w'.mem = w.mem
  addr : w'.addr = w.addr
  live : w'.live = w.live
  stores : w'.stores = w.stores

section
variable (holds : w.Holds chain)
include holds

omit [DecidableEq T] in
theorem Returns.keep (same : SamePool w w') {event : Option MpEvent}
    (quiet : ∀ block, event ≠ some (.allocated block)) : Returns w (some (w', event)) := by
  have loads : ∀ p ∈ w.mp.places, w'.load p = w.load p := fun p _ => by rw [MpWorld.load, MpWorld.load, same.mem]
  exact ⟨w', event, chain, rfl, holds.congr same.mp same.addr same.live same.stores loads, by rw [same.mp],
    by rw [same.mp], fun block equal => absurd equal (quiet block)⟩

theorem mpAllocLoop_returns (t : T) (time : Int32) (beforeSleep tick : UInt32) :
    Returns w (mpAllocLoop w t time beforeSleep tick) := by
  rw [mpAllocLoop]
  by_cases none : w.mp.blockFreeCount = 0
  · rw [if_pos none]
    by_cases poll : time = 0
    · rw [if_pos poll]
      refine .keep holds ?_ fun _ => by simp
      exact ⟨rfl, rfl, rfl, rfl, rfl⟩
    · rw [if_neg poll]
      refine .keep holds ?_ fun _ => by simp
      exact ⟨rfl, rfl, rfl, rfl, rfl⟩
  · rw [if_neg none]
    exact mpTake_returns holds none t

theorem mpAllocWoken_returns (t : T) (time : Int32) (beforeSleep now tick : UInt32) :
    Returns w (mpAllocWoken w t time beforeSleep now tick) := by
  rw [mpAllocWoken]
  split
  · refine .keep holds ?_ fun _ => by simp
    exact ⟨rfl, rfl, rfl, rfl, rfl⟩
  · split
    · exact mpAllocLoop_returns holds t _ beforeSleep tick
    · exact mpAllocLoop_returns holds t time beforeSleep tick

theorem rtMpFree_returns {block : UInt32} (member : block ∈ w.live) :
    Returns w ((rtMpFree w block).map fun w => (w, none)) := by
  rw [rtMpFree]
  by_cases null : block = 0
  · rw [if_pos null]
    exact .keep holds ⟨rfl, rfl, rfl, rfl, rfl⟩ fun _ => by simp
  · have given := holds.give member
    rw [if_neg null]
    simp only [holds.headers block member, if_true]
    split
    · exact ⟨_, _, _, rfl, given, rfl, rfl, by simp⟩
    · exact ⟨_, _, _, rfl, given.congr rfl rfl rfl rfl fun _ _ => rfl, rfl, rfl, by simp⟩

theorem MpWorld.Holds.step {action : MpAction T} (permits : w.Permits action) :
    Returns w (mpPerform w action) := by
  cases action with
  | alloc t time tick => exact mpAllocLoop_returns holds t time 0 tick
  | woken t now tick =>
    rw [mpPerform]
    split
    · exact mpAllocWoken_returns holds t _ _ now tick
    · exact .keep holds ⟨rfl, rfl, rfl, rfl, rfl⟩ fun _ => by simp
  | free block => exact rtMpFree_returns holds permits
  | write b byte =>
    obtain ⟨block, member, low, high⟩ := permits
    exact ⟨_, _, _, rfl, holds.write member byte low high, rfl, rfl, by simp⟩
  | timeout t =>
    refine .keep holds ?_ fun _ => by simp
    exact ⟨rfl, rfl, rfl, rfl, rfl⟩

end

end

/-! ## The fresh pool -/

section
variable {T : Type} {w : MpWorld T} {start stride : UInt32} {total limit : Nat}

theorem initLinks_links (geometry : Geometry start stride total limit) (count i : Nat) (most : i + count ≤ total) :
    ∃ mem stores, initLinks w start stride count (UInt32.ofNat i) = { w with mem, stores } ∧
      (∀ k, i ≤ k → k < i + count → load32 mem (place start stride k).toNat = place start stride (k + 1)) ∧
      (∀ k, k < i → load32 mem (place start stride k).toNat = w.load (place start stride k)) ∧
      ∀ a ∈ stores, a ∈ w.stores ∨ ∃ k < total, place start stride k = a := by
  induction count generalizing w i with
  | zero => exact ⟨w.mem, w.stores, rfl, fun k low high => by omega, fun _ _ => rfl, fun a old => Or.inl old⟩
  | succ count ih =>
    have next : UInt32.ofNat i + 1 = UInt32.ofNat (i + 1) := (UInt32.ofNat_add i 1).symm
    obtain ⟨mem, stores, code, links, earlier, places⟩ :=
      ih (w := w.store (place start stride i) (place start stride (i + 1))) (i + 1) (by omega)
    refine ⟨mem, stores, ?_, ?_, ?_, ?_⟩
    · rw [initLinks, next]
      exact code
    · intro k low high
      by_cases here : k = i
      · subst here
        rw [earlier k (Nat.lt_succ_self k)]
        exact load32_store32
      · exact links k (by omega) (by omega)
    · intro k less
      rw [earlier k (by omega)]
      have apart := geometry.behind less (show i < total by omega)
      have wide := geometry.wide
      exact load32_apart (by omega)
    · intro a member
      rcases places a member with old | new
      · rcases List.mem_cons.mp old with rfl | older
        · exact Or.inr ⟨i, by omega, rfl⟩
        · exact Or.inl older
      · exact Or.inr new

theorem segment_places (geometry : Geometry start stride total limit) {mem : Nat → UInt8} (count i : Nat)
    (most : i + count ≤ total)
    (links : ∀ k, i ≤ k → k < i + count → k + 1 < total →
      load32 mem (place start stride k).toNat = place start stride (k + 1))
    (last : ∀ k, k + 1 = total → load32 mem (place start stride k).toNat = 0)
    (ends : i + count = total) (stop : Option UInt32) (at_ : stop = if i = total then none else
      some (place start stride i)) :
    Segment (fun a => ptr (load32 mem a.toNat)) stop ((List.range' i count).map (place start stride)) none := by
  induction count generalizing i stop with
  | zero =>
    rw [at_, if_pos (by omega)]
    rfl
  | succ count ih =>
    rw [if_neg (by omega)] at at_
    refine ⟨at_, ?_⟩
    apply ih (i + 1) (by omega) (fun k low high => links k (by omega) (by omega)) (by omega)
    show ptr (load32 mem (place start stride i).toNat) = _
    by_cases end_ : i + 1 = total
    · rw [last i end_, if_pos end_]
      rfl
    · rw [links i (Nat.le_refl i) (by omega) (by omega), if_neg end_]
      apply ptr_eq_some.mpr
      refine ⟨rfl, ?_⟩
      intro zero
      have low := (geometry.inside (show i + 1 < total by omega)).1
      have positive := geometry.positive
      rw [zero, UInt32.toNat_zero] at low
      omega

end

section
variable {size blockSize : UInt32}

theorem rtAlignDown_toNat (size : UInt32) : (rtAlignDown size).toNat = size.toNat / 8 * 8 := by
  have word : size.toNat < Mem.Config.board.word := size.toNat_lt
  have down : Mem.Config.board.rtAlignDown size.toNat = size.toNat / 8 * 8 := by
    rw [Mem.Config.rtAlignDown, Mem.Config.board.mask_eq _ word]
    rfl
  rw [rtAlignDown, down]
  exact UInt32.toNat_ofNat_of_lt' (Nat.lt_of_le_of_lt (Nat.div_mul_le_self _ _) size.toNat_lt)

theorem rtAlign_stride (blockSize : UInt32) : (rtAlign blockSize + 4).toNat = (rtAlign blockSize).toNat + 4 := by
  have less := Mem.Config.board.rtAlign_lt blockSize.toNat
  obtain ⟨count, aligned⟩ := Mem.Config.board.rtAlign_dvd blockSize.toNat
  have same : (rtAlign blockSize).toNat = Mem.Config.board.rtAlign blockSize.toNat := UInt32.toNat_ofNat_of_lt' less
  have eight : Mem.Config.board.alignSize = 8 := rfl
  have word : Mem.Config.board.word = 2 ^ 32 := rfl
  have four : (4 : UInt32).toNat = 4 := rfl
  rw [eight] at aligned
  rw [word] at less
  apply add_toNat
  omega

end

section
variable {T : Type} {w : MpWorld T} {start size blockSize : UInt32}

def mpBoot (mem : Nat → UInt8) (addr : UInt32) (mp : Mempool) (priority : T → UInt8) : MpWorld T where
  mem
  stores := []
  addr
  mp
  waits := Waits.initial priority
  call _ := .idle
  live := []

/-- The object that `rt_mp_init` makes. -/
def initialised (start size blockSize : UInt32) : Mempool where
  startAddress := start
  size := rtAlignDown size
  blockSize := rtAlign blockSize
  blockList := start
  blockTotalCount := rtAlignDown size / (rtAlign blockSize + 4)
  blockFreeCount := rtAlignDown size / (rtAlign blockSize + 4)

theorem initLinks_mp (count : Nat) (blockPtr stride offset : UInt32) :
    (initLinks w blockPtr stride count offset).mp = w.mp := by
  induction count generalizing w offset with
  | zero => rfl
  | succ count ih => exact ih (offset + 1)

theorem rtMpInit_mp {w₀ : MpWorld T} (code : rtMpInit w start size blockSize = some w₀) :
    w₀.mp = initialised start size blockSize := by
  rw [rtMpInit] at code
  split at code
  case isTrue valid =>
    cases code
    exact initLinks_mp _ _ _ _
  case isFalse => cases code

theorem initialised_fits (region : start.toNat + size.toNat ≤ 2 ^ 32) (valid : start ≠ 0) :
    (initialised start size blockSize).Fits ∧ (initialised start size blockSize).limit ≤ start.toNat + size.toNat := by
  have down := rtAlignDown_toNat size
  have less := Nat.div_mul_le_self size.toNat 8
  have stride := rtAlign_stride blockSize
  have total : (initialised start size blockSize).blockTotalCount.toNat =
      (rtAlignDown size).toNat / (rtAlign blockSize + 4).toNat := UInt32.toNat_div _ _
  have room := Nat.div_mul_le_self (rtAlignDown size).toNat (rtAlign blockSize + 4).toNat
  have limit : (initialised start size blockSize).limit = start.toNat + (rtAlignDown size).toNat := rfl
  refine ⟨⟨?_, ?_, ?_, ?_⟩, ?_⟩
  · exact Nat.pos_of_ne_zero fun zero => valid (eq_zero_iff.mpr zero)
  · exact stride ▸ Nat.le_add_left 4 _
  · rw [limit, total]
    exact Nat.add_le_add_left room _
  · omega
  · omega

theorem blockTotalCount_pos : 0 < (initialised start size blockSize).blockTotalCount.toNat ↔
    (rtAlign blockSize).toNat + 4 ≤ (rtAlignDown size).toNat := by
  have total : (initialised start size blockSize).blockTotalCount.toNat =
      (rtAlignDown size).toNat / (rtAlign blockSize + 4).toNat := UInt32.toNat_div _ _
  rw [total, rtAlign_stride, Nat.div_pos_iff]
  omega

theorem rtMpInit_holds (mem : Nat → UInt8) (addr : UInt32) (mp : Mempool) (priority : T → UInt8)
    (region : start.toNat + size.toNat ≤ 2 ^ 32) (valid : start ≠ 0 ∧ size > 0 ∧ blockSize > 0)
    (some : 0 < (initialised start size blockSize).blockTotalCount.toNat) :
    ∃ w, rtMpInit (mpBoot mem addr mp priority) start size blockSize = Option.some w ∧
      w.Holds (initialised start size blockSize).places ∧ w.mp = initialised start size blockSize := by
  obtain ⟨pool, made⟩ : ∃ pool, pool = initialised start size blockSize := ⟨_, rfl⟩
  have fits : pool.Fits := made ▸ (initialised_fits region valid.1).1
  have own : pool.startAddress = start ∧ pool.blockList = start ∧ pool.blockFreeCount = pool.blockTotalCount := by
    rw [made]
    exact ⟨rfl, rfl, rfl⟩
  have wide : pool.stride.toNat = pool.blockSize.toNat + 4 := by
    rw [made]
    exact rtAlign_stride blockSize
  rw [← made] at some ⊢
  obtain ⟨startIs, listIs, freeIs⟩ := own
  obtain ⟨total, totalIs⟩ : ∃ total, total = pool.blockTotalCount.toNat := ⟨_, rfl⟩
  have word : total < 2 ^ 32 := totalIs ▸ pool.blockTotalCount.toNat_lt
  rw [← totalIs] at some
  have geometry : Geometry start pool.stride total pool.limit := by
    rw [totalIs, ← startIs]
    exact fits
  have last : place start pool.stride (total - 1) = start + (pool.blockTotalCount - 1) * pool.stride := by
    have one : (1 : UInt32).toNat = 1 := rfl
    have index : UInt32.ofNat (total - 1) = pool.blockTotalCount - 1 := by
      apply UInt32.toNat.inj
      rw [UInt32.toNat_ofNat_of_lt' (by rw [UInt32.size]; omega), sub_toNat (by omega), totalIs, one]
    rw [place, index]
  obtain ⟨mem', stores, code, links, -, stored⟩ := initLinks_links
    (w := { mpBoot mem addr mp priority with mp := pool }) geometry total 0 (by omega)
  have places : pool.places = (List.range' 0 total).map (place start pool.stride) := by
    rw [Mempool.places, startIs, ← totalIs, List.range_eq_range']
  refine ⟨MpWorld.store { mpBoot mem addr mp priority with mp := pool, mem := mem', stores }
    (place start pool.stride (total - 1)) 0, ?_, ?_, rfl⟩
  · rw [last, rtMpInit, if_pos valid]
    subst made totalIs
    exact congrArg (fun w : MpWorld T => Option.some (w.store _ 0)) code
  · have back : ∀ k, k + 1 < total →
        load32 (store32 mem' (place start pool.stride (total - 1)).toNat 0) (place start pool.stride k).toNat =
          load32 mem' (place start pool.stride k).toNat := by
      intro k less
      have apart := geometry.behind (show k < total - 1 by omega) (by omega)
      have wide := geometry.wide
      exact load32_apart (by omega)
    constructor
    · exact fits
    · exact wide
    · rw [places]
      refine segment_places geometry total 0 (by omega) ?_ ?_ (by omega) _ ?_
      · intro k low high more
        rw [← links k low high]
        exact back k more
      · intro k equal
        obtain rfl : k = total - 1 := by omega
        exact load32_store32
      · rw [if_neg (by omega)]
        have first : place start pool.stride 0 = start := by simp [place]
        rw [first]
        exact ptr_eq_some.mpr ⟨listIs, valid.1⟩
    · rw [places, List.length_map, List.length_range', totalIs, ← freeIs]
      rfl
    · exact List.append_nil _ ▸ List.Perm.refl _
    · intro block member
      cases member
    · intro a member
      have inside : ∀ k < total, place start pool.stride k ∈ pool.places := by
        intro k less
        rw [mem_places, startIs, ← totalIs]
        exact ⟨k, less, rfl⟩
      rcases List.mem_cons.mp member with rfl | old
      · exact inside _ (by omega)
      · obtain ⟨k, less, rfl⟩ := (stored a old).resolve_left (by simp [mpBoot])
        exact inside k less

end

/-! ## Runs -/

section
variable {T : Type} [DecidableEq T] {w : MpWorld T} {chain : List UInt32}

/-- The free chain has as many blocks as the pool says, and with the live blocks it makes up the pool: its blocks
are different, lie one stride from another, and in its memory. -/
structure MpWorld.WellFormed (w : MpWorld T) (chain : List UInt32) : Prop where
  links : Segment w.next (ptr w.mp.blockList) chain none
  count : chain.length = w.mp.blockFreeCount.toNat
  blocks : (chain ++ w.live.map (· - 4)).Perm w.mp.places
  number : chain.length + w.live.length = w.mp.blockTotalCount.toNat
  distinct : w.mp.places.Nodup
  inside : ∀ p ∈ w.mp.places, w.mp.startAddress.toNat ≤ p.toNat ∧ p.toNat + w.mp.stride.toNat ≤ w.mp.limit

/-- The blocks are well formed, all pointers were written inside the memory of the pool, and the next step returns
and gives out no live block. -/
structure MpWorld.Kept (start size : UInt32) (w : MpWorld T) : Prop where
  wellFormed : ∃ chain, w.WellFormed chain
  own : w.mp.startAddress = start ∧ w.mp.limit ≤ start.toNat + size.toNat
  stores : ∀ a ∈ w.stores, start.toNat ≤ a.toNat ∧ a.toNat + 4 ≤ start.toNat + size.toNat
  step : ∀ action, w.Permits action → ∃ w' event, mpPerform w action = some (w', event) ∧
    ∀ block, event = some (.allocated block) → block ∉ w.live

def MpWorld.Step (w w' : MpWorld T) : Prop :=
  ∃ action event, w.Permits action ∧ mpPerform w action = some (w', event)

theorem MpWorld.Holds.kept (holds : w.Holds chain) {start size : UInt32} (own : w.mp.startAddress = start)
    (limit : w.mp.limit ≤ start.toNat + size.toNat) : w.Kept start size where
  wellFormed := by
    refine ⟨chain, holds.links, holds.count, holds.blocks, ?_, holds.fits.nodup, fun p => holds.fits.inside⟩
    have length := holds.blocks.length_eq
    simpa [Mempool.places] using length
  own := ⟨own, limit⟩
  stores := by
    intro a member
    have inside := holds.fits.inside (holds.stores a member)
    have wide := holds.fits.wide
    rw [own] at inside
    omega
  step := by
    intro action permits
    obtain ⟨w', event, -, code, -, -, -, fresh⟩ := holds.step permits
    exact ⟨w', event, code, fresh⟩

/-- Whatever a run does with a pool, its blocks are kept, if and only if `rt_mp_init` found room for one of them. -/
theorem mempool_kept {mem : Nat → UInt8} {addr start size blockSize : UInt32} {mp : Mempool} {priority : T → UInt8}
    (region : start.toNat + size.toNat ≤ 2 ^ 32) (valid : start ≠ 0 ∧ size > 0 ∧ blockSize > 0) :
    (∃ w₀, rtMpInit (mpBoot mem addr mp priority) start size blockSize = some w₀ ∧
      ∀ w, Relation.ReflTransGen MpWorld.Step w₀ w → w.Kept start size) ↔
      (rtAlign blockSize).toNat + 4 ≤ (rtAlignDown size).toNat := by
  have room : 0 < (initialised start size blockSize).blockTotalCount.toNat ↔ _ := blockTotalCount_pos
  rw [← room]
  constructor
  · rintro ⟨w₀, code, kept⟩
    -- without a block the list still starts with one
    obtain ⟨chain, wellFormed⟩ := (kept w₀ .refl).wellFormed
    have own := rtMpInit_mp code
    rw [Nat.pos_iff_ne_zero]
    intro none
    obtain ⟨links, count, -⟩ := wellFormed
    have empty : chain = [] := by
      apply List.length_eq_zero_iff.mp
      rw [count, own]
      exact none
    rw [empty, own] at links
    have first : ptr start = some start := if_neg valid.1
    have nowhere : ptr start = Option.none := links
    rw [first] at nowhere
    cases nowhere
  · intro some
    obtain ⟨w₀, code, holds, own⟩ := rtMpInit_holds mem addr mp priority region valid some
    have limit : (initialised start size blockSize).limit ≤ _ := (initialised_fits region valid.1).2
    refine ⟨w₀, code, fun w run => ?_⟩
    have reached : ∃ chain, w.Holds chain ∧ w.mp.startAddress = start ∧ w.mp.limit ≤ start.toNat + size.toNat := by
      induction run with
      | refl => exact ⟨_, holds, by rw [own]; rfl, by rw [own]; exact limit⟩
      | tail _ step ih =>
        obtain ⟨chain, holds, first, bound⟩ := ih
        obtain ⟨action, event, permits, performed⟩ := step
        obtain ⟨w', event', chain', code', holds', first', size', -⟩ := holds.step permits
        rw [performed] at code'
        cases code'
        refine ⟨chain', holds', first'.trans first, ?_⟩
        rw [Mempool.limit, first', size']
        exact bound
    obtain ⟨chain, holds, first, bound⟩ := reached
    exact holds.kept first bound

def smallBoot : MpWorld Unit := mpBoot (fun _ => 0) 0x20001000 ⟨0, 0, 0, 0, 0, 0⟩ fun _ => 10

theorem mempool_kept_small : ∃ w₀, rtMpInit smallBoot 0x20000000 100 20 = some w₀ ∧
    ∀ w, Relation.ReflTransGen MpWorld.Step w₀ w → w.Kept 0x20000000 100 :=
  (mempool_kept (by decide) (by decide)).mpr (by decide)

/-- A pool of 8 bytes has no room for a block of 8 bytes and its pointer, and the end of the chain is written 12
bytes in front of the pool. -/
theorem mempool_without_block : ∃ w₀, rtMpInit smallBoot 0x20000000 8 8 = some w₀ ∧ w₀.stores = [0x1FFFFFF4] ∧
    ¬w₀.Kept 0x20000000 8 := by
  have result : (rtMpInit smallBoot 0x20000000 8 8).map (·.stores) = some [0x1FFFFFF4] := by decide +kernel
  obtain ⟨w₀, code, stores⟩ := Option.map_eq_some_iff.mp result
  refine ⟨w₀, code, stores, fun kept => ?_⟩
  have low := (kept.stores 0x1FFFFFF4 (by rw [stores]; exact List.mem_cons_self)).1
  exact absurd low (by decide)

end

end RtThread.Pools
