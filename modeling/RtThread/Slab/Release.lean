import RtThread.Slab.Heap

/-! The calls of a slab heap: what each allocates and releases, and that none of them fails. -/

set_option autoImplicit false
namespace RtThread.Slab
open Lib
open Function (update)

def Block.grant (b : Block) : Nat × Nat := (b.page * 4096, b.size)

def Chunk.grant (c : Chunk) : Nat × Nat := (c.ptr, c.size)

def Layout.live (lay : Layout) : List (Nat × Nat) := lay.blocks.map Block.grant ++ lay.chunks.map Chunk.grant

/-- Where an allocation of `n` bytes can be: chunk `k` of a zone below the limit, and else at the start of a page. -/
def Placed (limit n p : Nat) : Prop := if n < limit then ∃ z k, p = chunkAt z k n else ∃ page, p = page * 4096

/-- The heap and its holdings after a call that allocated `p`, or nothing. -/
structure Allocated (g : Ground) (live : List (Nat × Nat)) (limit n want : Nat) (slab' : RtSlab) (result : Option Nat) :
    Prop where
  refused : result = none → ∃ lay', Inv g slab' lay' ∧ lay'.live = live
  granted : ∀ p, result = some p →
    Placed limit n p ∧ ∃ lay', Inv g slab' lay' ∧ lay'.live.Perm ((p, want) :: live)

section
variable {g : Ground} {slab slab' : RtSlab} {lay : Layout} {pages list : List Extent} {page npages z : Nat}

theorem Allocated.none (inv : Inv g slab lay) (limit n want : Nat) :
    Allocated g lay.live limit n want slab Option.none where
  refused _ := ⟨lay, inv, rfl⟩
  granted p so := by cases so

theorem Allocated.some {limit n want p : Nat} {lay' : Layout} (placed : Placed limit n p) (inv : Inv g slab' lay')
    (live : lay'.live.Perm ((p, want) :: lay.live)) : Allocated g lay.live limit n want slab' (Option.some p) where
  refused so := by cases so
  granted q so := by
    cases so
    exact ⟨placed, lay', inv, live⟩

theorem live_block (lay : Layout) (b : Block) :
    ({ lay with blocks := b :: lay.blocks } : Layout).live.Perm (b.grant :: lay.live) := .refl _

theorem live_chunk (lay : Layout) (c : Chunk) :
    ({ lay with chunks := c :: lay.chunks } : Layout).live.Perm (c.grant :: lay.live) := List.perm_middle

theorem Inv.newZone (inv : Inv g slab lay) {n want : Nat} (small : n < slab.zoneLimit) (positive : 0 < n)
    (enough : want ≤ n) :
    ∃ slab' result, (match slab.takeZone with
        | (slab, none) => (slab, none)
        | (slab, some z) => slab.openZone (zoneindex n).1 (zoneindex n).2 z) = (slab', result) ∧
      Allocated g lay.live slab.zoneLimit n want slab' result := by
  have placed : ∀ z, Placed slab.zoneLimit n (chunkAt z 0 n) := fun z => by
    rw [Placed, if_pos small]
    exact ⟨z, 0, rfl⟩
  unfold RtSlab.takeZone
  cases free : slab.zoneFree with
  | cons z rest =>
    obtain ⟨slab', done, inv'⟩ := inv.openZone free small positive enough
    exact ⟨slab', _, done, .some (placed z) inv' (live_chunk lay ⟨z, chunkAt z 0 n, want⟩)⟩
  | nil =>
    obtain refused | ⟨-, z, list, found, done⟩ := rtSlabPageAlloc_cases slab (slab.zoneSize / 4096)
    · dsimp only
      rw [refused]
      exact ⟨slab, none, rfl, .none inv ..⟩
    · dsimp only
      rw [done]
      have pages : slab.zoneSize / 4096 = g.cnt := by rw [inv.zoneSize, Nat.mul_div_cancel _ (by decide)]
      have added := inv.addZone (pages ▸ found)
      obtain ⟨slab', opened, inv'⟩ := added.openZone rfl small positive enough
      exact ⟨slab', _, opened, .some (placed z) inv' (live_chunk lay ⟨z, chunkAt z 0 n, want⟩)⟩

theorem Inv.alloc (inv : Inv g slab lay) (size : UInt32) {want : Nat} (enough : want ≤ size.toNat) :
    ∃ slab' result, slab.rtSlabAlloc size = some (slab', result) ∧
      Allocated g lay.live slab.zoneLimit size.toNat want slab' result := by
  unfold RtSlab.rtSlabAlloc
  by_cases zero : size = 0
  · rw [if_pos zero]
    exact ⟨slab, none, rfl, .none inv ..⟩
  have positive : 0 < size.toNat := by
    rw [Nat.pos_iff_ne_zero]
    exact fun none => zero (UInt32.toNat_inj.mp none)
  rw [if_neg zero]
  by_cases large : size.toNat ≥ slab.zoneLimit
  · rw [if_pos large]
    obtain refused | ⟨slab', b, done, asked, inv'⟩ := inv.allocLarge size enough
    · rw [refused]
      exact ⟨slab, none, rfl, .none inv ..⟩
    · rw [done]
      have live := live_block lay b
      rw [Block.grant, asked] at live
      refine ⟨slab', _, rfl, .some ?_ inv' live⟩
      rw [Placed, if_neg (Nat.not_lt.mpr large)]
      exact ⟨b.page, rfl⟩
  have small : size.toNat < slab.zoneLimit := Nat.lt_of_not_le large
  have fits : size.toNat < 16384 := by
    have either := inv.limit
    omega
  rw [if_neg large]
  dsimp only
  rw [if_neg (not_not.mpr (zoneindex_lt fits positive))]
  cases first : slab.zoneArray (zoneindex size.toNat).1 with
  | cons z next =>
    obtain ⟨slab', k, done, inv'⟩ := inv.allocChunk fits positive enough first
    refine ⟨slab', _, done, .some ?_ inv' (live_chunk lay ⟨z, chunkAt z k size.toNat, want⟩)⟩
    rw [Placed, if_pos small]
    exact ⟨z, k, rfl⟩
  | nil =>
    obtain ⟨slab', result, done, allocated⟩ := inv.newZone small positive enough
    refine ⟨slab', result, ?_, allocated⟩
    rw [← done]
    dsimp only
    rcases slab.takeZone with ⟨slab₁, _ | z⟩ <;> rfl

theorem zoneindex_word (size : UInt32) : (UInt32.ofNat (zoneindex size.toNat).2).toNat = (zoneindex size.toNat).2 := by
  have word : (zoneindex size.toNat).2 < 2 ^ 32 := by
    by_cases small : size.toNat < 16384
    · exact Nat.lt_of_le_of_lt (zoneindex_le (.inr rfl) small) (by decide)
    · have same : (zoneindex size.toNat).2 = size.toNat := by
        unfold zoneindex
        rw [if_neg (by omega), if_neg (by omega), if_neg (by omega), if_neg small]
      rw [same]
      exact size.toNat_lt
  rw [UInt32.toNat_ofNat', Nat.mod_eq_of_lt word]

/-! ## Pages that are released -/

theorem pages_release {first last : Nat} {e : Extent} {held : List Extent} (exact : Exact first last (pages ++ e :: held))
    (coalesced : Coalesced pages) (positive : 0 < e.count) :
    ∃ list, pageFree e.start e.count pages = some list ∧ Exact first last (list ++ held) ∧ Coalesced list := by
  have outside : Outside e.start e.count pages := fun f member =>
    apart_of_holds (fun _ => exact.apart member List.mem_cons_self) (coalesced.positive f member) positive
  obtain ⟨list, done, freed⟩ := pageFree_freed coalesced outside positive
  refine ⟨list, done, exact.recut ?_, (freed 0).coalesced⟩
  have moved : (pages ++ e :: held).Perm ((e :: pages) ++ held) := List.perm_middle
  exact (Recut.perm moved).trans ((freed 0).recut.append (.refl held))

theorem rtSlabPageFree_eq (slab : RtSlab) (positive : 0 < page) (count : 0 < npages) :
    slab.rtSlabPageFree (page * 4096) npages =
      (pageFree page npages slab.pageList).map fun list => { slab with pageList := list } := by
  have valid : ¬(page * 4096 = 0 ∨ page * 4096 % 4096 ≠ 0 ∨ npages = 0) := by omega
  rw [RtSlab.rtSlabPageFree, if_neg valid, Nat.mul_div_cancel _ (by decide)]

theorem held_erase_block {b : Block} (member : b ∈ lay.blocks) :
    (lay.held g).Perm (b.extent :: ({ lay with blocks := lay.blocks.erase b } : Layout).held g) := by
  have blocks := (List.perm_cons_erase member).map Block.extent
  exact ((blocks.append_right [g.mem]).append_left _).trans List.perm_middle

theorem held_erase_zone (member : z ∈ lay.zones) :
    (lay.held g).Perm (⟨z, g.cnt⟩ :: ({ lay with zones := lay.zones.erase z } : Layout).held g) :=
  ((List.perm_cons_erase member).map fun y => (⟨y, g.cnt⟩ : Extent)).append_right _

theorem Inv.freeLarge (inv : Inv g slab lay) {b : Block} (member : b ∈ lay.blocks) :
    ∃ slab', slab.rtSlabFree (some (b.page * 4096)) = some slab' ∧
      Inv g slab' { lay with blocks := lay.blocks.erase b } := by
  have exact := inv.exact.recut (Recut.perm ((held_erase_block member).append_left slab.pageList))
  have positive := (inv.roomy b member).1
  have mine : b.extent.Holds b.page := ⟨Nat.le_refl _, Nat.lt_add_of_pos_right positive⟩
  have within := ground_held exact List.mem_cons_self mine
  have index : slab.btokup (b.page * 4096 / 4096 * 4096) = b.page - g.first := by
    rw [Nat.mul_div_cancel _ (by decide), heapStart_index inv]
  have usage := inv.marked.blocks b member
  unfold RtSlab.rtSlabFree
  dsimp only
  rw [index, usage, if_pos rfl, RtSlab.freeLarge]
  dsimp only
  rw [usage, rtSlabPageFree_eq _ (Nat.lt_of_lt_of_le g.positive within.1) positive]
  obtain ⟨list, done, exact', coalesced⟩ := pages_release exact inv.coalesced positive
  dsimp only [Block.extent] at done ⊢
  rw [done]
  have left : ∀ {c}, c ∈ lay.blocks.erase b → c ∈ lay.blocks := List.mem_of_mem_erase
  have marked : Marked g { lay with blocks := lay.blocks.erase b } slab.usage :=
    ⟨inv.marked.zones, fun c kept => inv.marked.blocks c (left kept)⟩
  refine ⟨_, rfl, { inv with exact := exact', coalesced := coalesced, marked := ?_, roomy := ?_ }⟩
  · refine Marked.other exact _ marked (fun c kept => inv.roomy c (left kept)) fun i changed => ⟨b.page, mine, ?_⟩
    by_contra other
    exact changed (Function.update_of_ne other ..)
  · exact fun c kept => inv.roomy c (left kept)

theorem Inv.dropZone (inv : Inv g slab lay) {rest : List Nat} (free : slab.zoneFree = z :: rest) :
    ∃ slab', ({ slab with
        zoneFree := rest
        zoneFreeCnt := slab.zoneFreeCnt - 1
        usage := RtSlab.setUsage slab.usage (slab.btokup (z * 4096)) (fun _ => ⟨.free, 0⟩) slab.zonePageCnt } :
          RtSlab).rtSlabPageFree (z * 4096) (slab.zoneSize / 4096) = some slab' ∧
      Inv g slab' { lay with zones := lay.zones.erase z } := by
  have lists := inv.lists
  rw [free] at lists
  have zoned := lists.shutZones z List.mem_cons_self
  have exact := inv.exact.recut (Recut.perm ((held_erase_zone zoned).append_left slab.pageList))
  have pages : 0 < g.cnt := Nat.lt_of_lt_of_le (by decide) g.pages
  have own : (⟨z, g.cnt⟩ : Extent).Holds z := ⟨Nat.le_refl _, Nat.lt_add_of_pos_right pages⟩
  have within := ground_held exact List.mem_cons_self own
  have count : slab.zoneSize / 4096 = g.cnt := by rw [inv.zoneSize, Nat.mul_div_cancel _ (by decide)]
  have cnt := inv.zonePages
  rw [count, heapStart_index inv, rtSlabPageFree_eq _ (Nat.lt_of_lt_of_le g.positive within.1) pages]
  obtain ⟨list, done, exact', coalesced⟩ := pages_release exact inv.coalesced pages
  dsimp only at done ⊢
  rw [done]
  have kept : ∀ {y}, y ∈ lay.zones.erase z ↔ y ≠ z ∧ y ∈ lay.zones := inv.once.mem_erase_iff
  have marked : Marked g { lay with zones := lay.zones.erase z } slab.usage :=
    ⟨fun y member => inv.marked.zones y (kept.mp member).2, inv.marked.blocks⟩
  have others := Marked.other exact (RtSlab.setUsage slab.usage (z - g.first) (fun _ => ⟨.free, 0⟩) slab.zonePageCnt)
    marked inv.roomy fun i changed => by
      have inside : z - g.first ≤ i ∧ i < z - g.first + g.cnt := by
        by_contra out
        exact changed (setUsage_outside (by omega))
      refine ⟨i + g.first, ⟨?_, ?_⟩, by omega⟩
      · dsimp only
        omega
      · dsimp only
        omega
  refine ⟨_, rfl, { inv with exact := exact', coalesced := coalesced, lists := lists.erase inv.once,
                             once := inv.once.erase z, freeCnt := ?_, opened := ?_, homes := ?_, marked := others,
                             roomy := inv.roomy }⟩
  · have count := inv.freeCnt
    rw [free, List.length_cons] at count
    dsimp only
    omega
  · intro y member isOpen
    obtain ⟨other, old⟩ := kept.mp member
    refine inv.opened y old ?_
    rw [free, List.mem_cons, not_or]
    exact ⟨other, isOpen⟩
  · intro c member
    obtain ⟨home, isOpen, fits⟩ := inv.homes c member
    rw [free, List.mem_cons, not_or] at isOpen
    exact ⟨kept.mpr ⟨isOpen.1, home⟩, isOpen.2, fits⟩

section
variable (inv : Inv g slab lay) (zoned : z ∈ lay.zones) (isOpen : z ∉ slab.zoneFree)
include inv zoned isOpen

theorem Inv.shutZone (empty : taken lay.chunks z = []) (zn : Zone) :
    Inv g { slab with
      zoneArray := update slab.zoneArray (slab.zone z).zoneindex
        ((slab.zoneArray (slab.zone z).zoneindex).erase z)
      zone := update slab.zone z zn
      zoneFree := z :: slab.zoneFree
      zoneFreeCnt := slab.zoneFreeCnt + 1 } lay := by
  have once := inv.lists.once (slab.zone z).zoneindex
  have lists : Listed (update slab.zoneArray (slab.zone z).zoneindex
      ((slab.zoneArray (slab.zone z).zoneindex).erase z)) (update slab.zone z zn) lay.zones (z :: slab.zoneFree) :=
    inv.lists.unhang rfl (fun y => once.mem_erase_iff.trans and_comm) (once.erase z) (.inr List.mem_cons_self)
      (fun y other => by rw [List.mem_cons, or_iff_right other])
      (List.forall_mem_cons.mpr ⟨zoned, inv.lists.shutZones⟩) (List.nodup_cons.mpr ⟨isOpen, inv.lists.shutOnce⟩)
  refine { inv with lists := lists, freeCnt := ?_, opened := ?_, homes := ?_,
                    marked := ⟨inv.marked.zones, inv.marked.blocks⟩ }
  · dsimp only
    rw [List.length_cons, inv.freeCnt]
  · intro y member other
    dsimp only at other ⊢
    rw [List.mem_cons, not_or] at other
    rw [Function.update_of_ne other.1]
    exact inv.opened y member other.2
  · intro c member
    obtain ⟨home, before, fits⟩ := inv.homes c member
    have other : c.zone ≠ z := by
      intro own
      have some := mem_taken member
      rw [own, empty] at some
      cases some
    dsimp only
    rw [Function.update_of_ne other, List.mem_cons, not_or]
    exact ⟨home, ⟨other, before⟩, fits⟩

theorem Inv.retireZone (all : (slab.zone z).nfree = (slab.zone z).nmax) :
    ∃ slab' lay', slab.retireZone z = some slab' ∧ Inv g slab' lay' ∧ lay'.live = lay.live := by
  have opened := inv.opened z zoned isOpen
  have many := opened.many
  have listed := (inv.lists.listed (slab.zone z).zoneindex z).mpr ⟨zoned, isOpen, rfl, by omega⟩
  have shut := inv.shutZone zoned isOpen (opened.whole all) { slab.zone z with magic := 0xffffffff }
  unfold RtSlab.retireZone
  dsimp only
  rw [unlinkZone_eq listed]
  dsimp only
  split
  · obtain ⟨slab', done, dropped⟩ := shut.dropZone rfl
    exact ⟨slab', _, done, dropped, rfl⟩
  · exact ⟨_, lay, rfl, shut, rfl⟩

theorem Inv.settle {whole : Prop}
    [Decidable whole] (all : whole → (slab.zone z).nfree = (slab.zone z).nmax) :
    ∃ slab' lay', (if whole then slab.retireZone z else some slab) = some slab' ∧ Inv g slab' lay' ∧
      lay'.live = lay.live := by
  split
  case isTrue so => exact inv.retireZone zoned isOpen (all so)
  case isFalse => exact ⟨slab, lay, rfl, inv, rfl⟩

end

/-! ## The pointers of the client -/

theorem Inv.chunkHome (inv : Inv g slab lay) {c : Chunk} (member : c ∈ lay.chunks) :
    ∃ off, slab.usage (slab.btokup (c.ptr / 4096 * 4096)) = ⟨.small, off⟩ ∧ c.ptr / 4096 - off = c.zone := by
  obtain ⟨zoned, isOpen, fits⟩ := inv.homes c member
  have opened := inv.opened c.zone zoned isOpen
  obtain ⟨k, le, same⟩ := opened.taken_chunk (mem_taken member)
  have inside := opened.inside (Nat.lt_of_le_of_lt le opened.room)
  have positive := opened.positive
  rw [← same] at inside
  have page : c.ptr / 4096 = c.zone + (c.ptr / 4096 - c.zone) := by omega
  have less : c.ptr / 4096 - c.zone < g.cnt := by omega
  refine ⟨c.ptr / 4096 - c.zone, ?_, by omega⟩
  rw [heapStart_index inv, ← inv.marked.zones c.zone zoned _ less, ← page]

theorem Inv.freeChunk (inv : Inv g slab lay) {c : Chunk} (member : c ∈ lay.chunks) :
    ∃ slab' lay', slab.rtSlabFree (some c.ptr) = some slab' ∧ Inv g slab' lay' ∧
      lay'.live = ({ lay with chunks := lay.chunks.erase c } : Layout).live := by
  obtain ⟨zoned, isOpen, fits⟩ := inv.homes c member
  obtain ⟨off, usage, home⟩ := inv.chunkHome member
  have opened := inv.opened c.zone zoned isOpen
  have before : (slab.zone c.zone).Sound c.zone g.cnt (c.ptr :: taken (lay.chunks.erase c) c.zone) := by
    rw [← taken_cons_self]
    exact opened.toSound.perm (taken_perm (List.perm_cons_erase member) _)
  have given : ({ slab.zone c.zone with
      freechunk := c.ptr :: (slab.zone c.zone).freechunk
      nfree := (slab.zone c.zone).nfree + 1 } : Zone).Opened c.zone g.cnt (taken (lay.chunks.erase c) c.zone) :=
    ⟨before.give, opened.base⟩
  -- a zone without a free chunk was on no list
  have lists : ∀ zn : Zone, zn.zoneindex = (slab.zone c.zone).zoneindex → zn.nfree = (slab.zone c.zone).nfree + 1 →
      Listed (if (slab.zone c.zone).nfree = 0 then
          update slab.zoneArray (slab.zone c.zone).zoneindex
            (c.zone :: slab.zoneArray (slab.zone c.zone).zoneindex)
        else slab.zoneArray) (update slab.zone c.zone zn) lay.zones slab.zoneFree := by
    intro zn index more
    split
    case isTrue full =>
      refine inv.lists.hang zoned (fun j listed => ?_) index (by omega) isOpen (fun _ _ => .rfl) inv.lists.shutOnce
      have free := ((inv.lists.listed j _).mp listed).2.2.2
      omega
    case isFalse some => exact inv.lists.same index (by omega)
  have others : ∀ y, y ≠ c.zone → (taken lay.chunks y).Perm (taken (lay.chunks.erase c) y) := by
    intro y other
    rw [← taken_cons_ne c (lay.chunks.erase c) other]
    exact taken_perm (List.perm_cons_erase member) y
  have homes : ∀ d ∈ lay.chunks.erase c,
      d.zone = c.zone ∧ d.size ≤ (slab.zone c.zone).chunksize ∨ d ∈ lay.chunks ∧ d.zone ≠ c.zone := by
    intro d kept
    have old := List.mem_of_mem_erase kept
    by_cases same : d.zone = c.zone
    · exact .inl ⟨same, same ▸ (inv.homes d old).2.2⟩
    · exact .inr ⟨old, same⟩
  have hung := lists { slab.zone c.zone with
    freechunk := c.ptr :: (slab.zone c.zone).freechunk
    nfree := (slab.zone c.zone).nfree + 1 } rfl rfl
  have put := (inv.rezone zoned isOpen hung given others homes).setUsed
    (slab.used - UInt32.ofNat (slab.zone c.zone).chunksize)
  unfold RtSlab.rtSlabFree
  dsimp only
  rw [usage, if_neg PageType.noConfusion, home, RtSlab.freeChunk]
  dsimp only
  rw [if_neg (not_not.mpr opened.magic)]
  refine put.settle zoned isOpen fun all => ?_
  dsimp only
  rw [Function.update_self]
  exact all.1

theorem Inv.free (inv : Inv g slab lay) {p n : Nat} (member : (p, n) ∈ lay.live) :
    ∃ slab' lay', slab.rtSlabFree (some p) = some slab' ∧ Inv g slab' lay' ∧ lay.live.Perm ((p, n) :: lay'.live) := by
  rcases List.mem_append.mp member with block | chunk
  · obtain ⟨b, held, same⟩ := List.mem_map.mp block
    cases same
    obtain ⟨slab', done, inv'⟩ := inv.freeLarge held
    refine ⟨slab', _, done, inv', ?_⟩
    exact ((List.perm_cons_erase held).map Block.grant).append_right _
  · obtain ⟨c, held, same⟩ := List.mem_map.mp chunk
    cases same
    obtain ⟨slab', lay', done, inv', live⟩ := inv.freeChunk held
    refine ⟨slab', lay', done, inv', ?_⟩
    rw [live]
    exact (((List.perm_cons_erase held).map Chunk.grant).append_left _).trans List.perm_middle

theorem Inv.resize (inv : Inv g slab lay) {c : Chunk} (member : c ∈ lay.chunks) {n : Nat}
    (fits : n ≤ (slab.zone c.zone).chunksize) :
    Inv g slab { lay with chunks := ⟨c.zone, c.ptr, n⟩ :: lay.chunks.erase c } := by
  have same : ∀ y, (taken lay.chunks y).Perm (taken (⟨c.zone, c.ptr, n⟩ :: lay.chunks.erase c) y) := by
    intro y
    have resized : taken (⟨c.zone, c.ptr, n⟩ :: lay.chunks.erase c) y = taken (c :: lay.chunks.erase c) y := by
      by_cases own : c.zone = y
      · subst own
        exact (taken_cons_self ⟨c.zone, c.ptr, n⟩ _).trans (taken_cons_self c _).symm
      · rw [taken_cons_ne _ _ (Ne.symm own), taken_cons_ne ⟨c.zone, c.ptr, n⟩ _ (Ne.symm own)]
    rw [resized]
    exact taken_perm (List.perm_cons_erase member) y
  refine { inv with opened := fun y zoned isOpen => (inv.opened y zoned isOpen).perm (same y), homes := ?_,
                    marked := ⟨inv.marked.zones, inv.marked.blocks⟩ }
  intro d kept
  rcases List.mem_cons.mp kept with rfl | old
  · obtain ⟨zoned, isOpen, -⟩ := inv.homes c member
    exact ⟨zoned, isOpen, fits⟩
  · exact inv.homes d (List.mem_of_mem_erase old)

/-- What is allocated after `rt_slab_realloc` of a live pointer: a new pointer takes the place of the old one, and
RT_NULL leaves it, but for a request of size zero. -/
def moved (live : List (Nat × Nat)) (entry : Nat × Nat) (size : Nat) : Option Nat → List (Nat × Nat)
  | some q => (q, size) :: live.erase entry
  | none => if size = 0 then live.erase entry else live

theorem Inv.move (inv : Inv g slab lay) {p n want : Nat} (member : (p, n) ∈ lay.live) (size : UInt32)
    (enough : want ≤ size.toNat) (positive : want ≠ 0) :
    ∃ slab' result lay', (match slab.rtSlabAlloc size with
        | none => none
        | some (slab, none) => some (slab, none)
        | some (slab, some nptr) => (slab.rtSlabFree (some p)).map fun slab => (slab, some nptr)) = some (slab', result) ∧
      Inv g slab' lay' ∧ lay'.live.Perm (moved lay.live (p, n) want result) := by
  obtain ⟨slab₁, result, done, allocated⟩ := inv.alloc size enough
  rw [done]
  cases result with
  | none =>
    obtain ⟨lay', inv', live⟩ := allocated.refused rfl
    refine ⟨slab₁, none, lay', rfl, inv', ?_⟩
    rw [moved, if_neg positive, live]
  | some q =>
    obtain ⟨-, lay₁, inv₁, live₁⟩ := allocated.granted q rfl
    obtain ⟨slab', lay', released, inv', live'⟩ := inv₁.free (live₁.mem_iff.mpr (List.mem_cons_of_mem _ member))
    dsimp only
    rw [released]
    refine ⟨slab', some q, lay', rfl, inv', ?_⟩
    have swapped : ((p, n) :: lay'.live).Perm ((p, n) :: (q, want) :: lay.live.erase (p, n)) :=
      live'.symm.trans (live₁.trans (((List.perm_cons_erase member).cons _).trans (.swap ..)))
    exact swapped.cons_inv

theorem Inv.realloc (inv : Inv g slab lay) {p n : Nat} (member : (p, n) ∈ lay.live) (size : UInt32) :
    ∃ slab' result lay', slab.rtSlabRealloc (some p) size = some (slab', result) ∧ Inv g slab' lay' ∧
      lay'.live.Perm (moved lay.live (p, n) size.toNat result) := by
  unfold RtSlab.rtSlabRealloc
  dsimp only
  by_cases zero : size = 0
  · obtain ⟨slab', lay', done, inv', live⟩ := inv.free member
    rw [if_pos zero, done]
    refine ⟨slab', none, lay', rfl, inv', ?_⟩
    rw [moved, zero, if_pos UInt32.toNat_zero]
    exact (live.symm.trans (List.perm_cons_erase member)).cons_inv
  have positive : size.toNat ≠ 0 := fun none => zero (UInt32.toNat_inj.mp none)
  rw [if_neg zero]
  rcases List.mem_append.mp member with block | chunk
  · obtain ⟨b, held, same⟩ := List.mem_map.mp block
    cases same
    have index : slab.btokup (b.page * 4096 / 4096 * 4096) = b.page - g.first := by
      rw [Nat.mul_div_cancel _ (by decide), heapStart_index inv]
    rw [index, inv.marked.blocks b held]
    exact inv.move member size (Nat.le_refl _) positive
  · obtain ⟨c, held, same⟩ := List.mem_map.mp chunk
    cases same
    obtain ⟨zoned, isOpen, -⟩ := inv.homes c held
    obtain ⟨off, usage, home⟩ := inv.chunkHome held
    rw [usage]
    dsimp only
    rw [home, if_neg (not_not.mpr (inv.opened c.zone zoned isOpen).magic)]
    by_cases stays : (slab.zone c.zone).chunksize = (zoneindex size.toNat).2
    · rw [if_pos stays]
      have inv' := inv.resize held (stays ▸ zoneindex_ge size.toNat)
      refine ⟨slab, some c.ptr, _, rfl, inv', ?_⟩
      have grown := (live_chunk { lay with chunks := lay.chunks.erase c } ⟨c.zone, c.ptr, size.toNat⟩)
      refine grown.trans (List.Perm.cons _ ?_)
      have split : lay.live.Perm (c.grant :: ({ lay with chunks := lay.chunks.erase c } : Layout).live) :=
        (((List.perm_cons_erase held).map Chunk.grant).append_left _).trans List.perm_middle
      exact (split.symm.trans (List.perm_cons_erase member)).cons_inv
    · rw [if_neg stays]
      refine inv.move member _ ?_ positive
      rw [zoneindex_word]
      exact zoneindex_ge _

end

end RtThread.Slab
