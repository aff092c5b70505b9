import RtThread.Slab.Zones

/-! Who holds the pages of a slab heap, and what every allocation and release keeps of it. Every page has one holder (the
page list, a zone, a block of whole pages or the memusage array), and the descriptors of the held pages say which. -/

set_option autoImplicit false
namespace RtThread.Slab
open Lib
open Function (update update_of_ne update_self)

/-! ## Holders of pages -/

structure Block where
  page : Nat
  count : Nat
  size : Nat
  deriving DecidableEq

structure Chunk where
  zone : Nat
  ptr : Nat
  size : Nat
  deriving DecidableEq

structure Layout where
  zones : List Nat
  blocks : List Block
  chunks : List Chunk

structure Ground where
  first : Nat
  last : Nat
  cnt : Nat
  mem : Extent
  positive : 0 < first
  pages : 8 ≤ cnt

def Block.extent (b : Block) : Extent := ⟨b.page, b.count⟩

def Layout.held (g : Ground) (lay : Layout) : List Extent :=
  lay.zones.map (⟨·, g.cnt⟩) ++ (lay.blocks.map Block.extent ++ [g.mem])

def taken (chunks : List Chunk) (z : Nat) : List Nat := (chunks.filter fun c => c.zone = z).map Chunk.ptr

variable {g : Ground} {lay : Layout} {pages list : List Extent} {e f : Extent} {x z : Nat}

structure Marked (g : Ground) (lay : Layout) (usage : Nat → Memusage) : Prop where
  zones : ∀ z ∈ lay.zones, ∀ off < g.cnt, usage (z + off - g.first) = ⟨.small, off⟩
  blocks : ∀ b ∈ lay.blocks, usage (b.page - g.first) = ⟨.large, b.count⟩

def Layout.Roomy (lay : Layout) : Prop := ∀ b ∈ lay.blocks, 0 < b.count ∧ b.size ≤ b.count * 4096

theorem held_zone (member : z ∈ lay.zones) : (⟨z, g.cnt⟩ : Extent) ∈ lay.held g :=
  List.mem_append_left _ (List.mem_map_of_mem member)

theorem held_block {b : Block} (member : b ∈ lay.blocks) : b.extent ∈ lay.held g :=
  List.mem_append_right _ (List.mem_append_left _ (List.mem_map_of_mem member))

theorem Marked.frame {usage usage' : Nat → Memusage} (marked : Marked g lay usage) (roomy : lay.Roomy)
    (same : ∀ e ∈ lay.held g, ∀ x, e.Holds x → usage' (x - g.first) = usage (x - g.first)) : Marked g lay usage' where
  zones z member off less := by
    rw [same _ (held_zone member) (z + off) ⟨Nat.le_add_right .., Nat.add_lt_add_left less z⟩]
    exact marked.zones z member off less
  blocks b member := by
    have positive := (roomy b member).1
    rw [same _ (held_block member) b.page ⟨Nat.le_refl _, Nat.lt_add_of_pos_right positive⟩]
    exact marked.blocks b member

theorem taken_cons_self (c : Chunk) (chunks : List Chunk) : taken (c :: chunks) c.zone = c.ptr :: taken chunks c.zone := by
  simp [taken]

theorem taken_cons_ne (c : Chunk) (chunks : List Chunk) (other : z ≠ c.zone) : taken (c :: chunks) z = taken chunks z := by
  simp [taken, other.symm]

theorem taken_perm {chunks chunks' : List Chunk} (same : chunks.Perm chunks') (z : Nat) :
    (taken chunks z).Perm (taken chunks' z) := (same.filter _).map _

theorem mem_taken {chunks : List Chunk} {c : Chunk} (member : c ∈ chunks) : c.ptr ∈ taken chunks c.zone :=
  List.mem_map_of_mem (List.mem_filter.mpr ⟨member, decide_eq_true rfl⟩)

theorem setUsage_outside {usage : Nat → Memusage} {first i n : Nat} {kup : Nat → Memusage}
    (outside : i < first ∨ first + n ≤ i) : RtSlab.setUsage usage first kup n i = usage i := by
  induction n with
  | zero => rfl
  | succ n ih =>
    rw [RtSlab.setUsage, update_of_ne (by omega)]
    exact ih (by omega)

theorem setUsage_inside {usage : Nat → Memusage} {first off n : Nat} {kup : Nat → Memusage} (inside : off < n) :
    RtSlab.setUsage usage first kup n (first + off) = kup off := by
  induction n with
  | zero => exact absurd inside (Nat.not_lt_zero _)
  | succ n ih =>
    rw [RtSlab.setUsage]
    by_cases last : off = n
    · rw [last, update_self]
    · rw [update_of_ne (by omega)]
      exact ih (by omega)

section
variable (exact : Exact g.first g.last (pages ++ e :: lay.held g))
include exact

theorem apart_held (member : f ∈ lay.held g) (mine : e.Holds x) : ¬f.Holds x := by
  have split : pages ++ e :: lay.held g = (pages ++ [e]) ++ lay.held g := by simp
  rw [split] at exact
  exact exact.apart (List.mem_append_right _ List.mem_cons_self) member mine

theorem ground_held (member : f ∈ e :: lay.held g) (holds : f.Holds x) : g.first ≤ x ∧ x < g.last :=
  exact.within (List.mem_append_right _ member) holds

theorem Marked.other {usage : Nat → Memusage} (usage' : Nat → Memusage) (marked : Marked g lay usage) (roomy : lay.Roomy)
    (same : ∀ i, usage' i ≠ usage i → ∃ x, e.Holds x ∧ i = x - g.first) : Marked g lay usage' := by
  refine marked.frame roomy fun f member x holds => ?_
  by_contra changed
  obtain ⟨y, mine, place⟩ := same _ changed
  have here := ground_held exact (List.mem_cons_of_mem _ member) holds
  have there := ground_held exact List.mem_cons_self mine
  have equal : x = y := by omega
  exact apart_held exact member mine (equal ▸ holds)

end

/-! ## The heap -/

structure Zone.Opened (zone : Zone) (z cnt : Nat) (taken : List Nat) : Prop extends zone.Sound z cnt taken where
  base : zone.baseptr = z * 4096 + chunkOffset zone.chunksize

structure Inv (g : Ground) (slab : RtSlab) (lay : Layout) : Prop where
  start : slab.heapStart = g.first * 4096
  stop : slab.heapEnd = g.last * 4096
  zonePages : slab.zonePageCnt = g.cnt
  zoneSize : slab.zoneSize = g.cnt * 4096
  limit : slab.zoneLimit = 8192 ∨ slab.zoneLimit = 16384
  limitZone : slab.zoneLimit * 4 ≤ g.cnt * 4096
  memusage : slab.memusage = some g.mem.start
  exact : Exact g.first g.last (slab.pageList ++ lay.held g)
  coalesced : Coalesced slab.pageList
  lists : Listed slab.zoneArray slab.zone lay.zones slab.zoneFree
  once : lay.zones.Nodup
  freeCnt : slab.zoneFreeCnt = slab.zoneFree.length
  opened : ∀ z ∈ lay.zones, z ∉ slab.zoneFree → (slab.zone z).Opened z g.cnt (taken lay.chunks z)
  homes : ∀ c ∈ lay.chunks, c.zone ∈ lay.zones ∧ c.zone ∉ slab.zoneFree ∧ c.size ≤ (slab.zone c.zone).chunksize
  marked : Marked g lay slab.usage
  roomy : lay.Roomy

section
variable {g : Ground} {slab slab' : RtSlab} {lay : Layout} {pages list : List Extent} {page npages z : Nat}

theorem heapStart_index (inv : Inv g slab lay) (page : Nat) : slab.btokup (page * 4096) = page - g.first := by
  rw [RtSlab.btokup, inv.start, ← Nat.sub_mul, Nat.mul_div_cancel _ (by decide)]

theorem Inv.addUsed (inv : Inv g slab lay) (size : Nat) : Inv g (slab.addUsed size) lay := { inv with }

theorem Inv.setUsed (inv : Inv g slab lay) (used : UInt32) : Inv g { slab with used := used } lay := { inv with }

theorem Inv.cut (inv : Inv g slab lay) (found : pageAlloc npages slab.pageList = some (page, list)) :
    Exact g.first g.last (list ++ ⟨page, npages⟩ :: lay.held g) ∧ Coalesced list := by
  refine ⟨?_, pageAlloc_coalesced inv.coalesced found⟩
  have recut := (pageAlloc_recut found).append (Recut.refl (lay.held g))
  have moved : (⟨page, npages⟩ :: list ++ lay.held g).Perm (list ++ ⟨page, npages⟩ :: lay.held g) :=
    List.perm_middle.symm
  exact inv.exact.recut (recut.trans (Recut.perm moved))

end

theorem pageCount_eq (size : UInt32) :
    ((size + 4095) &&& ~~~4095).toNat >>> 12 = (size.toNat + 4095) % 2 ^ 32 / 4096 := by
  have mask : (~~~4095 : UInt32).toNat = 2 ^ 32 - 2 ^ 12 := by decide
  have ones : (2 ^ 32 - 2 ^ 12) >>> 12 = 2 ^ 20 - 1 := by decide
  have four : (4095 : UInt32).toNat = 4095 := rfl
  rw [UInt32.toNat_and, mask, UInt32.toNat_add, four, Nat.shiftRight_and_distrib, ones, Nat.and_two_pow_sub_one_eq_mod,
    Nat.shiftRight_eq_div_pow]
  have small : (size.toNat + 4095) % 2 ^ 32 / 2 ^ 12 < 2 ^ 20 := by
    have less : (size.toNat + 4095) % 2 ^ 32 < 2 ^ 32 := Nat.mod_lt _ (by decide)
    omega
  exact Nat.mod_eq_of_lt small

theorem pages_of_size (size : UInt32) :
    ((size + 4095) &&& ~~~4095).toNat >>> 12 = 0 ∨
      size.toNat ≤ ((size + 4095) &&& ~~~4095).toNat >>> 12 * 4096 := by
  have word := size.toNat_lt
  rw [pageCount_eq]
  omega

section
variable {g : Ground} {slab slab' : RtSlab} {lay : Layout} {page npages z : Nat}

theorem rtSlabPageAlloc_cases (slab : RtSlab) (npages : Nat) :
    slab.rtSlabPageAlloc npages = (slab, none) ∨ npages ≠ 0 ∧ ∃ page list,
      pageAlloc npages slab.pageList = some (page, list) ∧
        slab.rtSlabPageAlloc npages = ({ slab with pageList := list }, some page) := by
  unfold RtSlab.rtSlabPageAlloc
  by_cases zero : npages = 0
  · exact .inl (if_pos zero)
  · rw [if_neg zero]
    cases found : pageAlloc npages slab.pageList with
    | none => exact .inl rfl
    | some cut => exact .inr ⟨zero, cut.1, cut.2, rfl, rfl⟩

theorem Inv.allocLarge (inv : Inv g slab lay) (size : UInt32) {want : Nat} (enough : want ≤ size.toNat) :
    slab.allocLarge size = (slab, none) ∨ ∃ slab' b, slab.allocLarge size = (slab', some (b.page * 4096)) ∧
      b.size = want ∧ Inv g slab' { lay with blocks := b :: lay.blocks } := by
  unfold RtSlab.allocLarge
  dsimp only
  obtain refused | ⟨nonzero, page, list, found, done⟩ :=
    rtSlabPageAlloc_cases slab (((size + 4095) &&& ~~~4095).toNat >>> 12)
  · rw [refused]
    exact .inl rfl
  · rw [done]
    have room := (pages_of_size size).resolve_left nonzero
    obtain ⟨exact, coalesced⟩ := inv.cut found
    generalize ((size + 4095) &&& ~~~4095).toNat >>> 12 = count at *
    have index : ({ slab with pageList := list } : RtSlab).btokup (page * 4096) = page - g.first :=
      heapStart_index inv page
    have mine : (⟨page, count⟩ : Extent).Holds page := ⟨Nat.le_refl _, Nat.lt_add_of_pos_right (Nat.pos_of_ne_zero nonzero)⟩
    dsimp only
    rw [index]
    refine .inr ⟨_, ⟨page, count, want⟩, rfl, rfl, Inv.addUsed ?_ _⟩
    refine { inv with exact := ?_, coalesced := coalesced, marked := ?_, roomy := ?_ }
    · refine exact.recut (Recut.perm ?_)
      refine List.Perm.append_left list ?_
      exact List.perm_middle.symm
    · have others := Marked.other exact (update slab.usage (page - g.first) ⟨.large, count⟩) inv.marked inv.roomy
        fun i changed => by
          refine ⟨page, mine, ?_⟩
          by_contra other
          exact changed (update_of_ne other ..)
      refine ⟨others.zones, fun b member => ?_⟩
      rcases List.mem_cons.mp member with rfl | old
      · exact update_self ..
      · exact others.blocks b old
    · intro b member
      rcases List.mem_cons.mp member with rfl | old
      · exact ⟨Nat.pos_of_ne_zero nonzero, Nat.le_trans enough room⟩
      · exact inv.roomy b old

/-! ## Chunks -/

theorem Zone.Opened.perm {zone : Zone} {cnt : Nat} {taken taken' : List Nat} (opened : zone.Opened z cnt taken)
    (same : taken.Perm taken') : zone.Opened z cnt taken' :=
  { opened.toSound.perm same with base := opened.base }

theorem Inv.rezone (inv : Inv g slab lay) (zoned : z ∈ lay.zones) (isOpen : z ∉ slab.zoneFree) {zn : Zone}
    {zoneArray : Nat → List Nat} {chunks : List Chunk}
    (lists : Listed zoneArray (update slab.zone z zn) lay.zones slab.zoneFree)
    (opened : zn.Opened z g.cnt (taken chunks z))
    (others : ∀ y, y ≠ z → (taken lay.chunks y).Perm (taken chunks y))
    (homes : ∀ c ∈ chunks, c.zone = z ∧ c.size ≤ zn.chunksize ∨ c ∈ lay.chunks ∧ c.zone ≠ z) :
    Inv g { slab with zoneArray := zoneArray, zone := update slab.zone z zn } { lay with chunks := chunks } := by
  refine { inv with lists := lists, opened := fun y member free => ?_, homes := fun c member => ?_, marked := ?_ }
  · dsimp only
    by_cases own : y = z
    · rw [own, update_self]
      exact opened
    · rw [update_of_ne own]
      exact (inv.opened y member free).perm (others y own)
  · dsimp only
    rcases homes c member with ⟨home, fits⟩ | ⟨old, other⟩
    · rw [home, update_self]
      exact ⟨zoned, isOpen, fits⟩
    · rw [update_of_ne other]
      exact inv.homes c old
  · exact ⟨inv.marked.zones, inv.marked.blocks⟩

/-- The chunk that an allocation of `n` bytes gives out: chunk `k` of zone `z`. -/
def chunkAt (z k n : Nat) : Nat := z * 4096 + chunkOffset (zoneindex n).2 + k * (zoneindex n).2

theorem opened_chunk {zone : Zone} {cnt n : Nat} {taken : List Nat} (opened : zone.Opened z cnt taken)
    (size : zone.chunksize = (zoneindex n).2) (k : Nat) : zone.chunk k = chunkAt z k n := by
  rw [Zone.chunk, opened.base, size, chunkAt]

theorem Inv.allocChunk (inv : Inv g slab lay) {n want : Nat} {next : List Nat} (small : n < 16384) (positive : 0 < n)
    (enough : want ≤ n) (list : slab.zoneArray (zoneindex n).1 = z :: next) :
    ∃ slab' k, slab.allocChunk (zoneindex n).1 (zoneindex n).2 z next = some (slab', some (chunkAt z k n)) ∧
      Inv g slab' { lay with chunks := ⟨z, chunkAt z k n, want⟩ :: lay.chunks } := by
  have listed : z ∈ slab.zoneArray (zoneindex n).1 := list ▸ List.mem_cons_self
  obtain ⟨zoned, isOpen, index, free⟩ := (inv.lists.listed _ z).mp listed
  have opened := inv.opened z zoned isOpen
  have size : (slab.zone z).chunksize = (zoneindex n).2 := by
    rw [opened.size, index, zoneindex_size small positive]
  have fits : want ≤ (slab.zone z).chunksize := Nat.le_trans enough (size ▸ zoneindex_ge n)
  have nodup : (z :: next).Nodup := list ▸ inv.lists.once (zoneindex n).1
  -- the zone leaves its list with its last free chunk
  have lists : ∀ zn : Zone, zn.zoneindex = (slab.zone z).zoneindex → zn.nfree = (slab.zone z).nfree - 1 →
      Listed (if (slab.zone z).nfree - 1 = 0 then update slab.zoneArray (zoneindex n).1 next
        else slab.zoneArray) (update slab.zone z zn) lay.zones slab.zoneFree := by
    intro zn sameIndex less
    split
    case isTrue last =>
      refine inv.lists.unhang index (fun y => ?_) (List.nodup_cons.mp nodup).2 (.inl (less.trans last))
        (fun _ _ => .rfl) inv.lists.shutZones inv.lists.shutOnce
      rw [list, List.mem_cons]
      refine ⟨fun member => ⟨.inr member, ?_⟩, fun both => both.1.resolve_left both.2⟩
      rintro rfl
      exact (List.nodup_cons.mp nodup).1 member
    case isFalse more => exact inv.lists.same sameIndex (by omega)
  have others : ∀ p y, y ≠ z → (taken lay.chunks y).Perm (taken (⟨z, p, want⟩ :: lay.chunks) y) := by
    intro p y other
    rw [taken_cons_ne ⟨z, p, want⟩ _ other]
  have homes : ∀ p, ∀ c ∈ (⟨z, p, want⟩ :: lay.chunks : List Chunk),
      c.zone = z ∧ c.size ≤ (slab.zone z).chunksize ∨ c ∈ lay.chunks ∧ c.zone ≠ z := by
    intro p c member
    by_cases home : c.zone = z
    · refine .inl ⟨home, ?_⟩
      rcases List.mem_cons.mp member with rfl | old
      · exact fits
      · exact home ▸ (inv.homes c old).2.2
    · refine .inr ⟨?_, home⟩
      exact (List.mem_cons.mp member).resolve_left fun new => home (new ▸ rfl)
  have mine : ∀ p, taken (⟨z, p, want⟩ :: lay.chunks) z = p :: taken lay.chunks z := fun p => taken_cons_self ⟨z, p, want⟩ _
  unfold RtSlab.allocChunk
  dsimp only
  rw [if_neg (not_not.mpr free)]
  split
  case isTrue more =>
    have fresh := opened.fresh more
    have place : (slab.zone z).baseptr + ((slab.zone z).uindex + 1) * (zoneindex n).2 =
        chunkAt z ((slab.zone z).uindex + 1) n := by
      rw [← opened_chunk opened size, Zone.chunk, size]
    rw [place]
    refine ⟨_, (slab.zone z).uindex + 1, rfl, Inv.addUsed ?_ _⟩
    refine inv.rezone zoned isOpen (lists _ rfl rfl) ⟨?_, opened.base⟩ (others _) (homes _)
    rw [mine, ← opened_chunk opened size]
    exact fresh
  case isFalse last =>
    have count := opened.count
    cases freechunk : (slab.zone z).freechunk with
    | nil =>
      rw [freechunk, List.length_nil] at count
      omega
    | cons chunk rest =>
      obtain ⟨k, -, rfl⟩ : ∃ k ≤ (slab.zone z).uindex, chunk = (slab.zone z).chunk k := by
        have member : chunk ∈ (slab.zone z).chunks := opened.chunks.mem_iff.mp (by rw [freechunk]; simp)
        obtain ⟨k, less, same⟩ := List.mem_map.mp member
        exact ⟨k, Nat.lt_succ_iff.mp (List.mem_range.mp less), same.symm⟩
      have again := opened.again freechunk
      rw [opened_chunk opened size] at again ⊢
      refine ⟨_, k, rfl, Inv.addUsed ?_ _⟩
      refine inv.rezone zoned isOpen (lists _ rfl rfl) ⟨?_, opened.base⟩ (others _) (homes _)
      rw [mine]
      exact again

/-! ## Zones -/

theorem Inv.addZone (inv : Inv g slab lay) {list : List Extent} (found : pageAlloc g.cnt slab.pageList = some (z, list)) :
    Inv g { slab with
      pageList := list
      usage := RtSlab.setUsage slab.usage (slab.btokup (z * 4096)) (fun off => ⟨.small, off⟩) slab.zonePageCnt
      zoneFree := z :: slab.zoneFree
      zoneFreeCnt := slab.zoneFreeCnt + 1 } { lay with zones := z :: lay.zones } := by
  obtain ⟨exact, coalesced⟩ := inv.cut found
  have pages := g.pages
  have mine : ∀ off < g.cnt, (⟨z, g.cnt⟩ : Extent).Holds (z + off) :=
    fun off less => ⟨Nat.le_add_right .., Nat.add_lt_add_left less z⟩
  have within : g.first ≤ z := by
    have own := mine 0 (by omega)
    exact (ground_held exact List.mem_cons_self own).1
  have new : z ∉ lay.zones := fun member => apart_held exact (held_zone member) (mine 0 (by omega)) (mine 0 (by omega))
  have cnt := inv.zonePages
  rw [heapStart_index inv]
  have others := Marked.other exact (RtSlab.setUsage slab.usage (z - g.first) (fun off => ⟨.small, off⟩) slab.zonePageCnt)
    inv.marked inv.roomy fun i changed => by
      have inside : z - g.first ≤ i ∧ i < z - g.first + g.cnt := by
        by_contra out
        exact changed (setUsage_outside (by omega))
      refine ⟨i + g.first, ⟨?_, ?_⟩, by omega⟩
      · dsimp only
        omega
      · dsimp only
        omega
  refine { inv with exact := exact, coalesced := coalesced, lists := inv.lists.cons new,
                    once := List.nodup_cons.mpr ⟨new, inv.once⟩, freeCnt := ?_, opened := ?_, homes := ?_,
                    marked := ⟨?_, others.blocks⟩, roomy := inv.roomy }
  · dsimp only
    rw [List.length_cons, inv.freeCnt]
  · intro y member isOpen
    rw [List.mem_cons, not_or] at isOpen
    exact inv.opened y ((List.mem_cons.mp member).resolve_left isOpen.1) isOpen.2
  · intro c member
    obtain ⟨zoned, isOpen, fits⟩ := inv.homes c member
    refine ⟨List.mem_cons_of_mem _ zoned, ?_, fits⟩
    rw [List.mem_cons, not_or]
    exact ⟨fun same => new (same ▸ zoned), isOpen⟩
  · intro y member off less
    rcases List.mem_cons.mp member with rfl | old
    · rw [Nat.sub_add_comm within]
      exact setUsage_inside (cnt ▸ less)
    · exact others.zones y old off less

theorem Inv.openZone (inv : Inv g slab lay) {n want : Nat} {rest : List Nat} (free : slab.zoneFree = z :: rest)
    (small : n < slab.zoneLimit) (positive : 0 < n) (enough : want ≤ n) :
    ∃ slab', ({ slab with zoneFree := rest, zoneFreeCnt := slab.zoneFreeCnt - 1 } : RtSlab).openZone (zoneindex n).1
        (zoneindex n).2 z = (slab', some (chunkAt z 0 n)) ∧
      Inv g slab' { lay with chunks := ⟨z, chunkAt z 0 n, want⟩ :: lay.chunks } := by
  have shut : z ∈ slab.zoneFree := free ▸ List.mem_cons_self
  have zoned := inv.lists.shutZones z shut
  have once : (z :: rest).Nodup := free ▸ inv.lists.shutOnce
  have fits : n < 16384 := by
    have either := inv.limit
    omega
  have empty : taken lay.chunks z = [] := by
    rw [taken, List.map_eq_nil_iff, List.filter_eq_nil_iff]
    intro c member home
    exact (inv.homes c member).2.1 (of_decide_eq_true home ▸ shut)
  have size := zoneindex_size fits positive
  have whole : (zoneindex n).2 ≤ slab.zoneLimit := zoneindex_le inv.limit small
  have limit := inv.limitZone
  have sound := zone_sound_open (z := z) (zoneindex_lt fits positive)
    (by rw [← size]; omega : chunkSize (zoneindex n).1 * 4 ≤ g.cnt * 4096) g.pages
  rw [← size] at sound
  have mine : taken (⟨z, chunkAt z 0 n, want⟩ :: lay.chunks) z = [chunkAt z 0 n] := by
    rw [taken_cons_self ⟨z, chunkAt z 0 n, want⟩, empty]
  unfold RtSlab.openZone
  dsimp only
  refine ⟨_, rfl, Inv.addUsed ?_ _⟩
  rw [← inv.zoneSize] at sound
  have off : ∀ j, z ∉ slab.zoneArray j := fun j listed => ((inv.lists.listed j z).mp listed).2.1 shut
  have lists : ∀ zn : Zone, zn.zoneindex = (zoneindex n).1 → 0 < zn.nfree → Listed
      (update slab.zoneArray (zoneindex n).1 (z :: slab.zoneArray (zoneindex n).1))
      (update slab.zone z zn) lay.zones rest := fun zn index more =>
    inv.lists.hang zoned off index more (List.nodup_cons.mp once).1
      (fun y other => by rw [free, List.mem_cons, or_iff_right other]) (List.nodup_cons.mp once).2
  have more : 0 < (slab.zoneSize - chunkOffset (zoneindex n).2) / (zoneindex n).2 - 1 := by
    have many := sound.many
    dsimp only at many
    omega
  refine { inv with lists := lists _ rfl more, freeCnt := ?_, opened := ?_, homes := ?_, marked := ⟨inv.marked.zones, inv.marked.blocks⟩ }
  · have count := inv.freeCnt
    rw [free, List.length_cons] at count
    dsimp only
    omega
  · intro y member isOpen
    dsimp only at isOpen ⊢
    by_cases own : y = z
    · rw [own, update_self, mine]
      exact ⟨sound, rfl⟩
    · rw [update_of_ne own, taken_cons_ne ⟨z, chunkAt z 0 n, want⟩ _ own]
      refine inv.opened y member ?_
      rw [free, List.mem_cons, not_or]
      exact ⟨own, isOpen⟩
  · intro c member
    dsimp only
    rcases List.mem_cons.mp member with rfl | old
    · dsimp only
      rw [update_self]
      exact ⟨zoned, (List.nodup_cons.mp once).1, Nat.le_trans enough (zoneindex_ge n)⟩
    · obtain ⟨home, isOpen, fit⟩ := inv.homes c old
      rw [free, List.mem_cons, not_or] at isOpen
      rw [update_of_ne isOpen.1]
      exact ⟨home, isOpen.2, fit⟩

end

end RtThread.Slab
