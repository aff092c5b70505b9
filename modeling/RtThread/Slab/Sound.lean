import RtThread.Slab.Runs

/-! The alignment of what `rt_slab_alloc` returns for a power of two, and what holds of a slab heap in every state that
a run of calls reaches. -/

set_option autoImplicit false
namespace RtThread.Slab
open Lib

/-- In every heap and after every run of calls, what `rt_slab_alloc` returns for the size is a multiple of it. -/
def AlwaysAligned (size : UInt32) : Prop :=
  ∀ slab s slab' p, Fresh slab → Relation.ReflTransGen Session.Step ⟨slab, []⟩ s →
    s.slab.rtSlabAlloc size = some (slab', some p) → size.toNat ∣ p

/-- The offset of the first chunk and the distance of the chunks are multiples of a power of two up to the page size. -/
theorem chunks_aligned : ∀ k ≤ 12, 2 ^ k ∣ 4096 ∧ 2 ^ k ∣ chunkOffset (zoneindex (2 ^ k)).2 ∧
    2 ^ k ∣ (zoneindex (2 ^ k)).2 := by decide

section
variable {limit n p k : Nat} {slab : RtSlab} {size : UInt32}

theorem Placed.dvd (placed : Placed limit (2 ^ k) p) (small : 2 ^ k ≤ 4096) (below : 4096 < limit) : 2 ^ k ∣ p := by
  have page : (4096 : Nat) = 2 ^ 12 := by decide
  have le : k ≤ 12 := (Nat.pow_le_pow_iff_right (by decide)).mp (page ▸ small)
  obtain ⟨pages, offset, step⟩ := chunks_aligned k le
  rw [Placed, if_pos (Nat.lt_of_le_of_lt small below)] at placed
  obtain ⟨z, j, rfl⟩ := placed
  exact Nat.dvd_add (Nat.dvd_add (pages.mul_left z) offset) (step.mul_left j)

theorem alloc_first {page count : Nat} (pages : slab.pageList = [⟨page, count⟩]) (large : slab.zoneLimit ≤ size.toNat)
    (whole : size.toNat = n * 4096) (positive : 0 < n) (most : n < 2 ^ 20 - 1) (room : n ≤ count) :
    ∃ slab', slab.rtSlabAlloc size = some (slab', some (page * 4096)) := by
  have nonzero : size ≠ 0 := by
    rintro rfl
    rw [UInt32.toNat_zero] at whole
    omega
  have number : ((size + 4095) &&& ~~~4095).toNat >>> 12 = n := by
    rw [pageCount_eq]
    omega
  have found : ∃ list, pageAlloc n slab.pageList = some (page, list) := by
    rw [pages, pageAlloc]
    by_cases more : count > n
    · exact ⟨_, if_pos more⟩
    · rw [if_neg more, if_pos (Nat.le_antisymm (Nat.le_of_not_lt more) room)]
      exact ⟨[], rfl⟩
  obtain ⟨list, found⟩ := found
  unfold RtSlab.rtSlabAlloc RtSlab.allocLarge RtSlab.rtSlabPageAlloc
  dsimp only
  rw [if_neg nonzero, if_pos large, number, if_neg (Nat.ne_of_gt positive), found]
  exact ⟨_, rfl⟩

end

/-! ## Heaps whose first free page is odd -/

theorem fitZoneSize_small {limsize : Nat} (small : limsize / 1024 ≤ 65536) :
    RtSlab.fitZoneSize limsize zallocMinZoneSize = 32768 := by
  have start : zallocMinZoneSize = 32768 := by decide
  have twice : 32768 <<< 1 = 65536 := by decide
  rw [start, RtSlab.fitZoneSize, twice, if_neg fun so => Nat.not_lt.mpr small so.2.2]

/-- The pages of a heap that has `n` of them free from an odd page on. -/
def oddPages (n : Nat) : Nat := n + n / 512 + 2

def oddStart (n : Nat) : Nat := memusagePages (oddPages n) % 2 + 2

section
variable {n : Nat} {size : UInt32}

theorem oddHeap_alloc (whole : size.toNat = n * 4096) (some : 2 ≤ n) (most : n ≤ 2 ^ 19) (usage : Nat → Memusage)
    (zone : Nat → Zone) :
    Region (oddStart n * 4096) ((oddPages n + 1) * 4096) ∧ ∃ slab slab',
      RtSlab.rtSlabInit (oddStart n * 4096) ((oddPages n + 1) * 4096) usage zone = Option.some slab ∧
        slab.rtSlabAlloc size =
          Option.some (slab', Option.some ((oddStart n + 1 + memusagePages (oddPages n)) * 4096)) := by
  have start : oddStart n ≤ 3 := by
    unfold oddStart
    omega
  have pages : oddPages n ≤ 2 ^ 20 - 8 := by
    unfold oddPages
    omega
  have room : memusagePages (oddPages n) + n ≤ oddPages n := by
    unfold memusagePages sizeofMemusage oddPages
    omega
  refine ⟨⟨by unfold sizeofSlab; omega, by omega⟩, ?_⟩
  have begins : ((oddStart n * 4096 + 7) / 8 * 8 + sizeofSlab + 4095) / 4096 = oddStart n + 1 := by
    unfold sizeofSlab
    omega
  have ends : (oddStart n * 4096 + (oddPages n + 1) * 4096) / 4096 = oddStart n + 1 + oddPages n := by omega
  have made : RtSlab.rtSlabInit (oddStart n * 4096) ((oddPages n + 1) * 4096) usage zone = _ := rtSlabInit_eq begins ends
  rw [if_neg (by omega), Nat.add_sub_cancel_left] at made
  have limit : (freshSlab (oddStart n + 1) (oddStart n + 1 + oddPages n)
      (RtSlab.fitZoneSize (oddPages n * 4096) zallocMinZoneSize) usage zone).zoneLimit ≤ size.toNat := by
    by_cases few : n < 4
    · have small : oddPages n * 4096 / 1024 ≤ 65536 := by
        unfold oddPages
        omega
      rw [fitZoneSize_small small]
      have least : (freshSlab (oddStart n + 1) (oddStart n + 1 + oddPages n) 32768 usage zone).zoneLimit = 8192 := rfl
      omega
    · have either := (zoneLimit_cases (fitZoneSize_cases (oddPages n * 4096))).1
      dsimp only [freshSlab] at either ⊢
      omega
  have list : (freshSlab (oddStart n + 1) (oddStart n + 1 + oddPages n)
      (RtSlab.fitZoneSize (oddPages n * 4096) zallocMinZoneSize) usage zone).pageList =
        [⟨oddStart n + 1 + memusagePages (oddPages n), oddPages n - memusagePages (oddPages n)⟩] := by
    dsimp only [freshSlab]
    rw [Nat.add_sub_cancel_left, if_pos (by omega)]
  obtain ⟨slab', done⟩ := alloc_first list limit whole (by omega) (by omega) (by omega)
  exact ⟨_, slab', made, done⟩

theorem oddHeap_odd (n : Nat) : (oddStart n + 1 + memusagePages (oddPages n)) % 2 = 1 := by
  unfold oddStart
  omega

theorem misaligned_of_large {k : Nat} (power : size.toNat = 2 ^ k) (large : 4096 < size.toNat) : ¬AlwaysAligned size := by
  have page : (4096 : Nat) = 2 ^ 12 := by decide
  have word := size.toNat_lt
  have above : 12 < k := (Nat.pow_lt_pow_iff_right (by decide)).mp (page ▸ power ▸ large)
  have below : k < 32 := (Nat.pow_lt_pow_iff_right (by decide)).mp (power ▸ word)
  obtain ⟨j, rfl⟩ : ∃ j, k = j + 1 + 12 := ⟨k - 13, by omega⟩
  have whole : size.toNat = 2 ^ (j + 1) * 4096 := by rw [power, Nat.pow_add, page]
  have some : 2 ≤ 2 ^ (j + 1) := Nat.le_self_pow (Nat.succ_ne_zero j) 2
  have most : 2 ^ (j + 1) ≤ 2 ^ 19 := Nat.pow_le_pow_right (by decide) (by omega)
  obtain ⟨region, slab, slab', made, done⟩ :=
    oddHeap_alloc whole some most (fun _ => ⟨.free, 0⟩) fun _ => ⟨0, 0, 0, 0, 0, 0, 0, []⟩
  intro aligned
  have multiple := aligned slab ⟨slab, []⟩ slab' _ ⟨_, _, _, _, region, made⟩ .refl done
  rw [whole] at multiple
  have pages := Nat.dvd_of_mul_dvd_mul_right (by decide) multiple
  have two : 2 ∣ oddStart (2 ^ (j + 1)) + 1 + memusagePages (oddPages (2 ^ (j + 1))) :=
    (Dvd.intro_left (2 ^ j) rfl).trans pages
  have odd := oddHeap_odd (2 ^ (j + 1))
  omega

end

/-- A power of two is always aligned just if it is no larger than RT_MM_PAGE_SIZE. -/
theorem slab_alloc_aligned {size : UInt32} (power : ∃ k, size.toNat = 2 ^ k) : AlwaysAligned size ↔ size.toNat ≤ 4096 := by
  obtain ⟨k, power⟩ := power
  constructor
  · intro aligned
    by_contra large
    exact misaligned_of_large power (Nat.lt_of_not_le large) aligned
  · intro small slab s slab' p fresh run call
    obtain ⟨g, inv, -⟩ := fresh.inv
    have kept := Session.Kept.run inv rfl run
    obtain ⟨slab₁, result, done, -, placed⟩ := kept.alloc size
    cases call.symm.trans done
    obtain ⟨lay, here, -⟩ := kept
    have limit := here.limit
    rw [power] at placed small ⊢
    exact (placed p rfl).dvd small (by omega)

theorem slab_alloc_aligned_page : AlwaysAligned 4096 ↔ (4096 : UInt32).toNat ≤ 4096 :=
  slab_alloc_aligned ⟨12, by decide⟩

theorem slab_alloc_misaligned : ¬AlwaysAligned 8192 ∧ ∃ slab slab',
    RtSlab.rtSlabInit 0x3000 0x5000 (fun _ => ⟨.free, 0⟩) (fun _ => ⟨0, 0, 0, 0, 0, 0, 0, []⟩) = some slab ∧
      slab.rtSlabAlloc 8192 = some (slab', some 0x5000) ∧ ¬(8192 : UInt32).toNat ∣ 0x5000 := by
  refine ⟨misaligned_of_large (by decide : (8192 : UInt32).toNat = 2 ^ 13) (by decide), ?_⟩
  have whole : (8192 : UInt32).toNat = 2 * 4096 := by decide
  obtain ⟨-, slab, slab', made, done⟩ := oddHeap_alloc whole (by decide) (by decide) (fun _ => ⟨.free, 0⟩)
    fun _ => ⟨0, 0, 0, 0, 0, 0, 0, []⟩
  exact ⟨slab, slab', made, done, by decide⟩

/-! ## Runs -/

def RtSlab.room (slab : RtSlab) (ptr : Nat) : Nat :=
  let kup := slab.usage (slab.btokup (ptr / 4096 * 4096))
  if kup.type = .large then kup.size * 4096 else (slab.zone (ptr / 4096 - kup.size)).chunksize

/-- The bytes from `a` on for `n` and from `b` on for `m` are apart. -/
def Apart (a n b m : Nat) : Prop := a + n ≤ b ∨ b + m ≤ a

structure Sound (slab : RtSlab) (live : List (Nat × Nat)) (zones : List Nat) (blocks : List Extent) : Prop where
  enough : ∀ a ∈ live, a.2 ≤ slab.room a.1
  apart : live.Pairwise fun a b => Apart a.1 (slab.room a.1) b.1 (slab.room b.1)
  inside : ∀ a ∈ live, slab.heapStart ≤ a.1 ∧ a.1 + slab.room a.1 ≤ slab.heapEnd
  memusage : ∃ page, slab.memusage = some page ∧ ∀ a ∈ live,
    Apart a.1 (slab.room a.1) (page * 4096) ((slab.heapEnd - slab.heapStart) / 4096 * sizeofMemusage)
  headers : ∀ a ∈ live, ∀ z ∈ zones, Apart a.1 (slab.room a.1) (z * 4096) sizeofZone
  homes : ∀ a ∈ live, (∃ b ∈ blocks, a.1 = b.start * 4096 ∧ slab.room a.1 = b.count * 4096) ∨
    ∃ z ∈ zones, z * 4096 ≤ a.1 ∧ a.1 + slab.room a.1 ≤ z * 4096 + slab.zoneSize
  zoneArray : ∀ i, ∀ z ∈ slab.zoneArray i, z ∈ zones ∧ (slab.zone z).zoneindex = i ∧
    (slab.zone z).chunksize = chunkSize i ∧ 0 < (slab.zone z).nfree ∧
    (slab.zone z).nfree = (slab.zone z).nmax - 1 - (slab.zone z).uindex + (slab.zone z).freechunk.length
  zoneFree : ∀ z ∈ slab.zoneFree, z ∈ zones
  zonesUsed : ∀ z ∈ zones, z ∈ slab.zoneFree ∨ z ∈ slab.zoneArray (slab.zone z).zoneindex ∨
    ∃ a ∈ live, z * 4096 ≤ a.1 ∧ a.1 + slab.room a.1 ≤ z * 4096 + slab.zoneSize
  blocksUsed : ∀ b ∈ blocks, ∃ a ∈ live, a.1 = b.start * 4096 ∧ slab.room a.1 = b.count * 4096
  coalesced : Coalesced slab.pageList
  zonesApart : ∀ e ∈ slab.pageList, ∀ z ∈ zones, Apart e.start e.count z slab.zonePageCnt
  blocksApart : ∀ e ∈ slab.pageList, ∀ b ∈ blocks, Apart e.start e.count b.start b.count
  total : places slab.pageList + zones.length * slab.zonePageCnt + places blocks +
    memusagePages ((slab.heapEnd - slab.heapStart) / 4096) = (slab.heapEnd - slab.heapStart) / 4096

section
variable {g : Ground} {slab : RtSlab} {lay : Layout} {b : Block} {c : Chunk} {z : Nat}

section
variable (inv : Inv g slab lay)
include inv

theorem Inv.room_block (member : b ∈ lay.blocks) : slab.room (b.page * 4096) = b.count * 4096 := by
  unfold RtSlab.room
  dsimp only
  rw [Nat.mul_div_cancel _ (by decide), heapStart_index inv, inv.marked.blocks b member, if_pos rfl]

theorem Inv.room_chunk (member : c ∈ lay.chunks) :
    slab.room c.ptr = (slab.zone c.zone).chunksize := by
  obtain ⟨off, usage, home⟩ := inv.chunkHome member
  unfold RtSlab.room
  dsimp only
  rw [usage, if_neg PageType.noConfusion, home]

theorem Inv.chunk_inside (member : c ∈ lay.chunks) :
    c.zone * 4096 + sizeofZone ≤ c.ptr ∧ c.ptr + slab.room c.ptr ≤ (c.zone + g.cnt) * 4096 := by
  obtain ⟨zoned, isOpen, -⟩ := inv.homes c member
  have opened := inv.opened c.zone zoned isOpen
  obtain ⟨k, le, same⟩ := opened.taken_chunk (mem_taken member)
  rw [inv.room_chunk member, same]
  exact opened.inside (Nat.lt_of_le_of_lt le opened.room)

theorem Inv.held_apart :
    (slab.pageList ++ lay.held g).Pairwise fun e f => ∀ x, e.Holds x → ¬f.Holds x :=
  pairwise_of_hits inv.exact.le_one

theorem Inv.pages_apart {e f : Extent} (free : e ∈ slab.pageList) (held : f ∈ lay.held g)
    (positive : 0 < f.count) : Apart e.start e.count f.start f.count :=
  apart_of_holds (fun _ => inv.exact.apart free held) (inv.coalesced.positive e free) positive

end

theorem Apart.pages {a n b m : Nat} (apart : Apart a n b m) : Apart (a * 4096) (n * 4096) (b * 4096) (m * 4096) := by
  unfold Apart at apart ⊢
  omega

theorem Apart.within {a n b m a' n' : Nat} (apart : Apart a n b m) (low : a ≤ a') (high : a' + n' ≤ a + n) :
    Apart a' n' b m := by
  unfold Apart at apart ⊢
  omega

theorem Apart.symm {a n b m : Nat} (apart : Apart a n b m) : Apart b m a n := Or.symm apart

theorem Inv.zone_block (inv : Inv g slab lay) (zoned : z ∈ lay.zones) (member : b ∈ lay.blocks) :
    Apart z g.cnt b.page b.count := by
  have held := (List.pairwise_append.mp inv.held_apart).2.1
  have cross := (List.pairwise_append.mp held).2.2 _ (List.mem_map_of_mem zoned) _
    (List.mem_append_left _ (List.mem_map_of_mem member))
  exact apart_of_holds cross (Nat.lt_of_lt_of_le (by decide) g.pages) (inv.roomy b member).1

theorem Inv.zone_zone (inv : Inv g slab lay) {y : Nat} (zoned : z ∈ lay.zones) (other : y ∈ lay.zones) (ne : z ≠ y) :
    Apart z g.cnt y g.cnt := by
  have held := (List.pairwise_append.mp inv.held_apart).2.1
  have zones := List.pairwise_map.mp (List.pairwise_append.mp held).1
  have symm : Std.Symm fun a b : Nat => ∀ x, (⟨a, g.cnt⟩ : Extent).Holds x → ¬(⟨b, g.cnt⟩ : Extent).Holds x :=
    ⟨fun _ _ apart x here there => apart x there here⟩
  have cross := zones.forall zoned other ne
  have positive : 0 < g.cnt := Nat.lt_of_lt_of_le (by decide) g.pages
  exact apart_of_holds cross positive positive

theorem Inv.blocks_apart (inv : Inv g slab lay) : lay.blocks.Pairwise fun b c => Apart b.page b.count c.page c.count := by
  have held := (List.pairwise_append.mp inv.held_apart).2.1
  have rest := (List.pairwise_append.mp held).2.1
  have blocks := List.pairwise_map.mp (List.pairwise_append.mp rest).1
  refine blocks.imp_of_mem fun {b c} first second cross => ?_
  have apart := apart_of_holds cross (inv.roomy b first).1 (inv.roomy c second).1
  exact apart

theorem Inv.memusage_apart (inv : Inv g slab lay) {e : Extent}
    (member : e ∈ lay.zones.map (⟨·, g.cnt⟩) ++ lay.blocks.map Block.extent) (first : 0 < e.count)
    (second : 0 < g.mem.count) : Apart e.start e.count g.mem.start g.mem.count := by
  have held := (List.pairwise_append.mp inv.held_apart).2.1
  rw [Layout.held, ← List.append_assoc] at held
  exact apart_of_holds ((List.pairwise_append.mp held).2.2 e member g.mem List.mem_cons_self) first second

theorem chunks_distinct {chunks : List Chunk} (once : ∀ c ∈ chunks, (taken chunks c.zone).Nodup) :
    chunks.Pairwise fun c d => c.zone = d.zone → c.ptr ≠ d.ptr := by
  induction chunks with
  | nil => exact .nil
  | cons c rest ih =>
    refine List.pairwise_cons.mpr ⟨fun d member same => ?_, ih fun d member => ?_⟩
    · have new := once c List.mem_cons_self
      rw [taken_cons_self] at new
      rintro equal
      refine (List.nodup_cons.mp new).1 ?_
      rw [same, equal]
      exact mem_taken member
    · have new := once d (List.mem_cons_of_mem c member)
      by_cases own : d.zone = c.zone
      · rw [own, taken_cons_self] at new
        rw [own]
        exact (List.nodup_cons.mp new).2
      · rwa [taken_cons_ne c rest own] at new

theorem Inv.chunks_apart (inv : Inv g slab lay) :
    lay.chunks.Pairwise fun c d => Apart c.ptr (slab.room c.ptr) d.ptr (slab.room d.ptr) := by
  have distinct := chunks_distinct fun c member => by
    obtain ⟨zoned, isOpen, -⟩ := inv.homes c member
    exact (List.nodup_append.mp (inv.opened c.zone zoned isOpen).nodup).2.1
  refine distinct.imp_of_mem fun {c d} first second ne => ?_
  obtain ⟨zoned, isOpen, -⟩ := inv.homes c first
  by_cases same : c.zone = d.zone
  · have opened := inv.opened c.zone zoned isOpen
    obtain ⟨j, -, here⟩ := opened.taken_chunk (mem_taken first)
    obtain ⟨k, -, there⟩ := opened.taken_chunk (same ▸ mem_taken second)
    rw [inv.room_chunk first, inv.room_chunk second, ← same, here, there]
    rcases Nat.lt_trichotomy j k with before | equal | behind
    · exact .inl (Zone.chunk_behind _ before)
    · exact absurd (by rw [here, there, equal]) (ne same)
    · exact .inr (Zone.chunk_behind _ behind)
  · have apart := (inv.zone_zone zoned (inv.homes d second).1 same).pages
    have low := inv.chunk_inside first
    have high := inv.chunk_inside second
    rw [Nat.add_mul] at low high
    have one := apart.within (by omega) low.2
    exact (one.symm.within (by omega) high.2).symm

theorem Inv.live_apart (inv : Inv g slab lay) :
    lay.live.Pairwise fun a b => Apart a.1 (slab.room a.1) b.1 (slab.room b.1) := by
  refine List.pairwise_append.mpr ⟨?_, ?_, fun a block d chunk => ?_⟩
  · refine List.pairwise_map.mpr (inv.blocks_apart.imp_of_mem fun first second apart => ?_)
    dsimp only [Block.grant]
    rw [inv.room_block first, inv.room_block second]
    exact apart.pages
  · exact List.pairwise_map.mpr inv.chunks_apart
  · obtain ⟨b, first, rfl⟩ := List.mem_map.mp block
    obtain ⟨c, second, rfl⟩ := List.mem_map.mp chunk
    have apart := (inv.zone_block (inv.homes c second).1 first).pages
    have inside := inv.chunk_inside second
    rw [Nat.add_mul] at inside
    dsimp only [Block.grant, Chunk.grant]
    rw [inv.room_block first]
    exact (apart.within (by omega) inside.2).symm

/-! ## What is live -/

theorem mem_live {lay : Layout} {a : Nat × Nat} (member : a ∈ lay.live) :
    (∃ b ∈ lay.blocks, b.grant = a) ∨ ∃ c ∈ lay.chunks, c.grant = a := by
  rw [← List.mem_map, ← List.mem_map, ← List.mem_append]
  exact member

theorem Inv.enough (inv : Inv g slab lay) {a : Nat × Nat} (member : a ∈ lay.live) : a.2 ≤ slab.room a.1 := by
  obtain ⟨b, held, rfl⟩ | ⟨c, held, rfl⟩ := mem_live member
  · dsimp only [Block.grant]
    rw [inv.room_block held]
    exact (inv.roomy b held).2
  · dsimp only [Chunk.grant]
    rw [inv.room_chunk held]
    exact (inv.homes c held).2.2

theorem Inv.heap (inv : Inv g slab lay) : (slab.heapEnd - slab.heapStart) / 4096 = g.last - g.first := by
  rw [inv.start, inv.stop, ← Nat.sub_mul, Nat.mul_div_cancel _ (by decide)]

theorem Inv.pages_of_live (inv : Inv g slab lay) {a : Nat × Nat} (member : a ∈ lay.live) :
    ∃ e ∈ lay.zones.map (⟨·, g.cnt⟩) ++ lay.blocks.map Block.extent, 0 < e.count ∧ e.start * 4096 ≤ a.1 ∧
      a.1 + slab.room a.1 ≤ e.start * 4096 + e.count * 4096 := by
  obtain ⟨b, held, rfl⟩ | ⟨c, held, rfl⟩ := mem_live member
  · refine ⟨b.extent, List.mem_append_right _ (List.mem_map_of_mem held), (inv.roomy b held).1, Nat.le_refl _, ?_⟩
    dsimp only [Block.grant, Block.extent]
    rw [inv.room_block held]
  · have inside := inv.chunk_inside held
    rw [Nat.add_mul] at inside
    refine ⟨⟨c.zone, g.cnt⟩, List.mem_append_left _ (List.mem_map_of_mem (inv.homes c held).1),
      Nat.lt_of_lt_of_le (by decide) g.pages, Nat.le_trans (Nat.le_add_right ..) inside.1, inside.2⟩

theorem Inv.live_inside (inv : Inv g slab lay) {a : Nat × Nat} (member : a ∈ lay.live) :
    slab.heapStart ≤ a.1 ∧ a.1 + slab.room a.1 ≤ slab.heapEnd := by
  obtain ⟨e, held, positive, low, high⟩ := inv.pages_of_live member
  have all : e ∈ slab.pageList ++ lay.held g := by
    rw [Layout.held, ← List.append_assoc (lay.zones.map _)]
    exact List.mem_append_right _ (List.mem_append_left _ held)
  have inside := inv.exact.inside all positive
  rw [inv.start, inv.stop]
  omega

theorem memusagePages_ge (npages : Nat) : npages * sizeofMemusage ≤ memusagePages npages * 4096 := by
  unfold memusagePages sizeofMemusage
  omega

theorem Inv.live_memusage (inv : Inv g slab lay) (array : g.mem.count = memusagePages (g.last - g.first))
    {a : Nat × Nat} (member : a ∈ lay.live) :
    Apart a.1 (slab.room a.1) (g.mem.start * 4096) ((slab.heapEnd - slab.heapStart) / 4096 * sizeofMemusage) := by
  obtain ⟨e, held, positive, low, high⟩ := inv.pages_of_live member
  have all : e ∈ slab.pageList ++ lay.held g := by
    rw [Layout.held, ← List.append_assoc (lay.zones.map _)]
    exact List.mem_append_right _ (List.mem_append_left _ held)
  have inside := inv.exact.inside all positive
  have some := memusagePages_le (by omega : 0 < g.last - g.first)
  have apart := ((inv.memusage_apart held positive (array ▸ some.1)).pages).within low high
  rw [inv.heap]
  rw [array] at apart
  exact (apart.symm.within (Nat.le_refl _) (Nat.add_le_add_left (memusagePages_ge _) _)).symm

theorem Apart.header {cnt b m : Nat} (apart : Apart (z * 4096) (cnt * 4096) b m) (pages : 8 ≤ cnt) :
    Apart b m (z * 4096) sizeofZone := by
  unfold Apart sizeofZone at *
  omega

section
variable (inv : Inv g slab lay)
include inv

theorem Inv.live_headers {a : Nat × Nat} (member : a ∈ lay.live) (zoned : z ∈ lay.zones) :
    Apart a.1 (slab.room a.1) (z * 4096) sizeofZone := by
  obtain ⟨b, held, rfl⟩ | ⟨c, held, rfl⟩ := mem_live member
  · dsimp only [Block.grant]
    rw [inv.room_block held]
    exact (inv.zone_block zoned held).pages.header g.pages
  · have inside := inv.chunk_inside held
    rw [Nat.add_mul] at inside
    by_cases own : c.zone = z
    · subst own
      exact .inr inside.1
    · have apart := (inv.zone_zone (inv.homes c held).1 zoned own).pages
      have first := apart.within (Nat.le_trans (Nat.le_add_right ..) inside.1) inside.2
      exact first.symm.header g.pages

theorem Inv.live_homes {a : Nat × Nat} (member : a ∈ lay.live) :
    (∃ b ∈ lay.blocks.map Block.extent, a.1 = b.start * 4096 ∧ slab.room a.1 = b.count * 4096) ∨
      ∃ z ∈ lay.zones, z * 4096 ≤ a.1 ∧ a.1 + slab.room a.1 ≤ z * 4096 + slab.zoneSize := by
  obtain ⟨b, held, rfl⟩ | ⟨c, held, rfl⟩ := mem_live member
  · exact .inl ⟨b.extent, List.mem_map_of_mem held, rfl, inv.room_block held⟩
  · have inside := inv.chunk_inside held
    rw [Nat.add_mul, ← inv.zoneSize] at inside
    exact .inr ⟨c.zone, (inv.homes c held).1, Nat.le_trans (Nat.le_add_right ..) inside.1, inside.2⟩

theorem Inv.zones_used (zoned : z ∈ lay.zones) :
    z ∈ slab.zoneFree ∨ z ∈ slab.zoneArray (slab.zone z).zoneindex ∨
      ∃ a ∈ lay.live, z * 4096 ≤ a.1 ∧ a.1 + slab.room a.1 ≤ z * 4096 + slab.zoneSize := by
  by_cases shut : z ∈ slab.zoneFree
  · exact .inl shut
  by_cases free : 0 < (slab.zone z).nfree
  · exact .inr (.inl ((inv.lists.listed _ z).mpr ⟨zoned, shut, rfl, free⟩))
  · have full := (inv.opened z zoned shut).full (Nat.eq_zero_of_not_pos free)
    obtain ⟨c, member, -⟩ := List.mem_map.mp full
    obtain ⟨held, home⟩ := List.mem_filter.mp member
    obtain rfl := of_decide_eq_true home
    have inside := inv.chunk_inside held
    rw [Nat.add_mul, ← inv.zoneSize] at inside
    exact .inr (.inr ⟨c.grant, List.mem_append_right _ (List.mem_map_of_mem held),
      Nat.le_trans (Nat.le_add_right ..) inside.1, inside.2⟩)

theorem Inv.total (array : g.mem.count = memusagePages (g.last - g.first)) :
    places slab.pageList + lay.zones.length * slab.zonePageCnt + places (lay.blocks.map Block.extent) +
      memusagePages ((slab.heapEnd - slab.heapStart) / 4096) = (slab.heapEnd - slab.heapStart) / 4096 := by
  have sum := inv.exact.places
  have zones : places (lay.zones.map (⟨·, g.cnt⟩)) = lay.zones.length * g.cnt := by
    simp [places, Function.comp_def]
  rw [Layout.held, places_append, places_append, places_append, zones, places_cons, places_nil, array] at sum
  rw [inv.heap, inv.zonePages]
  omega

theorem Inv.sound (array : g.mem.count = memusagePages (g.last - g.first))
    {live : List (Nat × Nat)} (same : lay.live.Perm live) : Sound slab live lay.zones (lay.blocks.map Block.extent) where
  enough a member := inv.enough (same.mem_iff.mpr member)
  apart := (same.pairwise_iff Apart.symm).mp inv.live_apart
  inside a member := inv.live_inside (same.mem_iff.mpr member)
  memusage := ⟨g.mem.start, inv.memusage, fun a member => inv.live_memusage array (same.mem_iff.mpr member)⟩
  headers a member z zoned := inv.live_headers (same.mem_iff.mpr member) zoned
  homes a member := inv.live_homes (same.mem_iff.mpr member)
  zoneArray i z member := by
    obtain ⟨zoned, isOpen, index, free⟩ := (inv.lists.listed i z).mp member
    have opened := inv.opened z zoned isOpen
    exact ⟨zoned, index, index ▸ opened.size, free, opened.count⟩
  zoneFree := inv.lists.shutZones
  zonesUsed z zoned := by
    obtain shut | listed | ⟨a, member, inside⟩ := inv.zones_used zoned
    · exact .inl shut
    · exact .inr (.inl listed)
    · exact .inr (.inr ⟨a, same.mem_iff.mp member, inside⟩)
  blocksUsed e member := by
    obtain ⟨b, held, rfl⟩ := List.mem_map.mp member
    have listed := List.mem_append_left (lay.chunks.map Chunk.grant) (List.mem_map_of_mem (f := Block.grant) held)
    exact ⟨b.grant, same.mem_iff.mp listed, rfl, inv.room_block held⟩
  coalesced := inv.coalesced
  zonesApart e free z zoned := by
    rw [inv.zonePages]
    exact inv.pages_apart free (held_zone zoned) (Nat.lt_of_lt_of_le (by decide) g.pages)
  blocksApart e free f member := by
    obtain ⟨b, held, rfl⟩ := List.mem_map.mp member
    exact inv.pages_apart free (held_block held) (inv.roomy b held).1
  total := inv.total array

end

end

end RtThread.Slab
