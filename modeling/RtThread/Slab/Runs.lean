import RtThread.Slab.Release

/-! Runs of calls on a slab heap, from its initialisation on. -/

set_option autoImplicit false
namespace RtThread.Slab
open Lib

/-! ## Initialisation -/

/-- The pages of the memusage array of a heap of `npages` pages. -/
def memusagePages (npages : Nat) : Nat := (npages * sizeofMemusage + 4095) / 4096

/-- The heap of the pages from `first` to `last` before a call. -/
def freshSlab (first last zoneSize : Nat) (usage : Nat → Memusage) (zone : Nat → Zone) : RtSlab :=
  { heapStart := first * 4096
    heapEnd := last * 4096
    memusage := some first
    usage := usage
    zoneArray := fun _ => []
    zoneFree := []
    zoneFreeCnt := 0
    zoneSize := zoneSize
    zoneLimit := if zoneSize / 4 > zallocZoneLimit then zallocZoneLimit else zoneSize / 4
    zonePageCnt := zoneSize / 4096
    pageList :=
      if last - first > memusagePages (last - first) then
        [⟨first + memusagePages (last - first), last - first - memusagePages (last - first)⟩]
      else []
    zone := zone
    used := 0
    max := 0 }

section
variable {first last limsize beginAddr size : Nat} {usage : Nat → Memusage} {zone : Nat → Zone} {slab : RtSlab}

theorem memusagePages_le {npages : Nat} (positive : 0 < npages) :
    0 < memusagePages npages ∧ memusagePages npages ≤ npages := by
  unfold memusagePages sizeofMemusage
  omega

theorem pageAlloc_memusage (room : first < last) :
    pageAlloc (memusagePages (last - first)) [⟨first, last - first⟩] =
      some (first, if last - first > memusagePages (last - first) then
        [⟨first + memusagePages (last - first), last - first - memusagePages (last - first)⟩] else []) := by
  have le := (memusagePages_le (Nat.sub_pos_of_lt room)).2
  rw [pageAlloc]
  split
  case isTrue more => rfl
  case isFalse some =>
    rw [if_pos (Nat.le_antisymm (Nat.le_of_not_lt some) le)]

theorem fitZoneSize_cases (limsize : Nat) :
    RtSlab.fitZoneSize limsize zallocMinZoneSize = 32768 ∨ RtSlab.fitZoneSize limsize zallocMinZoneSize = 65536 ∨
      RtSlab.fitZoneSize limsize zallocMinZoneSize = 131072 := by
  have start : zallocMinZoneSize = 32768 := by decide
  have twice : 32768 <<< 1 = 65536 := by decide
  have again : 65536 <<< 1 = 131072 := by decide
  have most : ¬131072 < zallocMaxZoneSize := by decide
  have last : RtSlab.fitZoneSize limsize 131072 = 131072 := by
    rw [RtSlab.fitZoneSize, if_neg fun so => most so.2.1]
  have second : RtSlab.fitZoneSize limsize 65536 = 65536 ∨ RtSlab.fitZoneSize limsize 65536 = 131072 := by
    rw [RtSlab.fitZoneSize, again]
    split
    · exact .inr last
    · exact .inl rfl
  rw [start, RtSlab.fitZoneSize, twice]
  split
  · exact .inr second
  · exact .inl rfl

theorem zoneLimit_cases {zoneSize : Nat} (sizes : zoneSize = 32768 ∨ zoneSize = 65536 ∨ zoneSize = 131072) :
    let zoneLimit := if zoneSize / 4 > zallocZoneLimit then zallocZoneLimit else zoneSize / 4
    (zoneLimit = 8192 ∨ zoneLimit = 16384) ∧ zoneLimit * 4 ≤ zoneSize / 4096 * 4096 := by
  rcases sizes with rfl | rfl | rfl <;> decide

theorem rtSlabInit_eq (begins : ((beginAddr + 7) / 8 * 8 + sizeofSlab + 4095) / 4096 = first)
    (ends : (beginAddr + size) / 4096 = last) :
    RtSlab.rtSlabInit beginAddr size usage zone =
      if first ≥ last then none
      else some (freshSlab first last (RtSlab.fitZoneSize ((last - first) * 4096) zallocMinZoneSize) usage zone) := by
  have positive : 0 < first := by
    rw [← begins]
    unfold sizeofSlab
    omega
  unfold RtSlab.rtSlabInit
  extract_lets slab startAddr beginAlign endAlign limsize npages zoneSize zoneLimit made memory
  have low : beginAlign = first * 4096 := congrArg (· * 4096) begins
  have high : endAlign = last * 4096 := congrArg (· * 4096) ends
  by_cases small : first ≥ last
  · rw [if_pos small, low, high, if_pos (Nat.mul_le_mul_right _ small)]
  have room : first < last := Nat.lt_of_not_le small
  have inside : ¬beginAlign ≥ endAlign := by omega
  have bytes : limsize = (last - first) * 4096 := by
    rw [Nat.sub_mul, ← low, ← high]
  have count : npages = last - first := by
    rw [← Nat.mul_div_cancel (last - first) (by decide : 0 < 4096), ← bytes]
  have pages : memory / 4096 = memusagePages (last - first) := by
    rw [memusagePages, ← count]
    exact Nat.mul_div_cancel _ (by decide)
  have some := (memusagePages_le (Nat.sub_pos_of_lt room)).1
  have whole : pageFree first (last - first) made.pageList = Option.some [⟨first, last - first⟩] := rfl
  rw [if_neg small, if_neg inside, low, count, rtSlabPageFree_eq _ positive (Nat.sub_pos_of_lt room), whole, pages,
    Option.map_some, Option.map_some, RtSlab.rtSlabPageAlloc, if_neg (Nat.ne_of_gt some)]
  dsimp only
  rw [pageAlloc_memusage room]
  simp only [made, zoneLimit, zoneSize, bytes, low, high, freshSlab]

theorem freshSlab_inv {zoneSize : Nat} (positive : 0 < first) (room : first < last)
    (sizes : zoneSize = 32768 ∨ zoneSize = 65536 ∨ zoneSize = 131072) :
    ∃ g, Inv g (freshSlab first last zoneSize usage zone) ⟨[], [], []⟩ ∧
      g.mem.count = memusagePages (g.last - g.first) := by
  have le := memusagePages_le (Nat.sub_pos_of_lt room)
  have pages : 8 ≤ zoneSize / 4096 := by omega
  have recut := pageAlloc_recut (pageAlloc_memusage room)
  have whole : Exact first last [⟨first, last - first⟩] := by
    refine ⟨fun x => ?_, by simp⟩
    have holds : (⟨first, last - first⟩ : Extent).Holds x ↔ first ≤ x ∧ x < last := by
      simp only [Extent.Holds]
      omega
    simp only [hits_cons, hits_nil, holds, Nat.zero_add]
  refine ⟨⟨first, last, zoneSize / 4096, ⟨first, memusagePages (last - first)⟩, positive, pages⟩, ?_, rfl⟩
  refine { start := rfl, stop := rfl, zonePages := rfl, zoneSize := ?_, limit := ?_, limitZone := ?_, memusage := rfl,
           exact := ?_, coalesced := ?_, lists := ⟨?_, ?_, ?_, .nil⟩, once := .nil, freeCnt := rfl, opened := ?_,
           homes := ?_, marked := ⟨?_, ?_⟩, roomy := ?_ }
  · dsimp only [freshSlab]
    omega
  · exact (zoneLimit_cases sizes).1
  · exact (zoneLimit_cases sizes).2
  · exact whole.recut (recut.trans (Recut.perm (List.perm_append_singleton _ _).symm))
  · dsimp only [freshSlab]
    split
    case isTrue more =>
      have some : 0 < last - first - memusagePages (last - first) := Nat.sub_pos_of_lt more
      exact Coalesced.nil.cons some fun f member => absurd member List.not_mem_nil
    case isFalse => exact .nil
  · exact fun i => .nil
  · intro i z
    exact iff_of_false List.not_mem_nil fun so => List.not_mem_nil so.1
  all_goals
    intro z member
    cases member

end

/-- A region whose ends `rt_slab_init` computes without a wrap. -/
structure Region (beginAddr size : Nat) : Prop where
  start : (beginAddr + 7) / 8 * 8 + sizeofSlab + 4095 < 2 ^ 32
  stop : beginAddr + size < 2 ^ 32

/-- A heap as `rt_slab_init` returns it, whatever the memory held before. -/
def Fresh (slab : RtSlab) : Prop :=
  ∃ beginAddr size usage zone, Region beginAddr size ∧ RtSlab.rtSlabInit beginAddr size usage zone = some slab

theorem Fresh.inv {slab : RtSlab} (fresh : Fresh slab) :
    ∃ g, Inv g slab ⟨[], [], []⟩ ∧ g.mem.count = memusagePages (g.last - g.first) := by
  obtain ⟨beginAddr, size, usage, zone, -, made⟩ := fresh
  rw [rtSlabInit_eq rfl rfl] at made
  split at made
  case isTrue => cases made
  case isFalse room =>
    cases made
    refine freshSlab_inv ?_ (Nat.lt_of_not_le room) (fitZoneSize_cases _)
    unfold sizeofSlab
    omega

/-! ## Sessions -/

structure Session where
  slab : RtSlab
  live : List (Nat × Nat)

def granted (live : List (Nat × Nat)) (size : Nat) : Option Nat → List (Nat × Nat)
  | some p => (p, size) :: live
  | none => live

inductive Session.Step : Session → Session → Prop where
  | alloc {s : Session} {slab : RtSlab} {result : Option Nat} (size : UInt32)
      (call : s.slab.rtSlabAlloc size = some (slab, result)) : Step s ⟨slab, granted s.live size.toNat result⟩
  | reallocNull {s : Session} {slab : RtSlab} {result : Option Nat} (size : UInt32)
      (call : s.slab.rtSlabRealloc none size = some (slab, result)) : Step s ⟨slab, granted s.live size.toNat result⟩
  | realloc {s : Session} {slab : RtSlab} {result : Option Nat} {p n : Nat} (size : UInt32)
      (held : (p, n) ∈ s.live) (call : s.slab.rtSlabRealloc (some p) size = some (slab, result)) :
      Step s ⟨slab, moved s.live (p, n) size.toNat result⟩
  | freeNull {s : Session} {slab : RtSlab} (call : s.slab.rtSlabFree none = some slab) : Step s ⟨slab, s.live⟩
  | free {s : Session} {slab : RtSlab} {p n : Nat} (held : (p, n) ∈ s.live)
      (call : s.slab.rtSlabFree (some p) = some slab) : Step s ⟨slab, s.live.erase (p, n)⟩

def Session.Kept (g : Ground) (s : Session) : Prop := ∃ lay, Inv g s.slab lay ∧ lay.live.Perm s.live

theorem moved_perm {live live' : List (Nat × Nat)} (same : live.Perm live') (entry : Nat × Nat) (size : Nat)
    (result : Option Nat) : (moved live entry size result).Perm (moved live' entry size result) := by
  cases result with
  | some q => exact (same.erase entry).cons _
  | none =>
    simp only [moved]
    split
    · exact same.erase entry
    · exact same

namespace Session.Kept
variable {g : Ground} {s s' : Session}

theorem alloc (kept : s.Kept g) (size : UInt32) :
    ∃ slab result, s.slab.rtSlabAlloc size = some (slab, result) ∧
      Kept g ⟨slab, granted s.live size.toNat result⟩ ∧ ∀ p ∈ result, Placed s.slab.zoneLimit size.toNat p := by
  obtain ⟨lay, inv, live⟩ := kept
  obtain ⟨slab, result, done, allocated⟩ := inv.alloc size (Nat.le_refl _)
  refine ⟨slab, result, done, ?_, fun p given => (allocated.granted p given).1⟩
  cases result with
  | none =>
    obtain ⟨lay', inv', live'⟩ := allocated.refused rfl
    exact ⟨lay', inv', live' ▸ live⟩
  | some p =>
    obtain ⟨-, lay', inv', live'⟩ := allocated.granted p rfl
    exact ⟨lay', inv', live'.trans (live.cons _)⟩

theorem realloc (kept : s.Kept g) {p n : Nat} (held : (p, n) ∈ s.live) (size : UInt32) :
    ∃ slab result, s.slab.rtSlabRealloc (some p) size = some (slab, result) ∧
      Kept g ⟨slab, moved s.live (p, n) size.toNat result⟩ := by
  obtain ⟨lay, inv, live⟩ := kept
  obtain ⟨slab, result, lay', done, inv', live'⟩ := inv.realloc (live.mem_iff.mpr held) size
  exact ⟨slab, result, done, lay', inv', live'.trans (moved_perm live _ _ _)⟩

theorem free (kept : s.Kept g) {p n : Nat} (held : (p, n) ∈ s.live) :
    ∃ slab, s.slab.rtSlabFree (some p) = some slab ∧ Kept g ⟨slab, s.live.erase (p, n)⟩ := by
  obtain ⟨lay, inv, live⟩ := kept
  obtain ⟨slab, lay', done, inv', live'⟩ := inv.free (live.mem_iff.mpr held)
  refine ⟨slab, done, lay', inv', ?_⟩
  have split : ((p, n) :: lay'.live).Perm ((p, n) :: s.live.erase (p, n)) :=
    live'.symm.trans (live.trans (List.perm_cons_erase held))
  exact split.cons_inv

theorem step (kept : s.Kept g) (taken : Session.Step s s') : s'.Kept g := by
  cases taken with
  | alloc size call | reallocNull size call =>
    obtain ⟨slab, result, done, kept', -⟩ := kept.alloc size
    cases call.symm.trans done
    exact kept'
  | realloc size held call =>
    obtain ⟨slab, result, done, kept'⟩ := kept.realloc held size
    cases call.symm.trans done
    exact kept'
  | freeNull call =>
    cases call
    exact kept
  | free held call =>
    obtain ⟨slab, done, kept'⟩ := kept.free held
    cases call.symm.trans done
    exact kept'

theorem run {slab : RtSlab} {lay : Layout} (inv : Inv g slab lay) (empty : lay.live = [])
    (run : Relation.ReflTransGen Session.Step ⟨slab, []⟩ s) : s.Kept g := by
  induction run with
  | refl => exact ⟨lay, inv, by rw [empty]⟩
  | tail _ taken ih => exact ih.step taken

end Session.Kept

end RtThread.Slab
