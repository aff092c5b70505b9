import RtThread.Slab.Allocator
import Mathlib.Data.List.Range

/-! One zone of the slab allocator: its chunk size, its chunks, and the lists that zones are on. -/

set_option autoImplicit false
namespace RtThread.Slab
open Lib
open Function (update update_of_ne update_self)

/-- The chunk size of the zones in `zone_array[i]`. -/
def chunkSize (i : Nat) : Nat :=
  if i < 16 then 8 * (i + 1)
  else if i < 24 then 16 * (i - 7)
  else if i < 32 then 32 * (i - 15)
  else if i < 40 then 64 * (i - 23)
  else if i < 48 then 128 * (i - 31)
  else if i < 56 then 256 * (i - 39)
  else if i < 64 then 512 * (i - 47)
  else 1024 * (i - 55)

section
variable {n i size : Nat}

theorem chunkSize_pos (i : Nat) : 0 < chunkSize i := by
  unfold chunkSize
  repeat' split
  all_goals omega

theorem zoneindex_ge (n : Nat) : n ≤ (zoneindex n).2 := by
  unfold zoneindex
  repeat' split
  all_goals simp only
  all_goals omega

theorem zoneindex_lt (small : n < 16384) (positive : 0 < n) : (zoneindex n).1 < rtSlabNzones := by
  unfold zoneindex rtSlabNzones
  repeat' split
  all_goals simp only
  all_goals omega

theorem zoneindex_size (small : n < 16384) (positive : 0 < n) : (zoneindex n).2 = chunkSize (zoneindex n).1 := by
  unfold zoneindex
  repeat' split
  all_goals simp only [chunkSize]
  all_goals repeat' split
  all_goals omega

theorem zoneindex_le {limit : Nat} (either : limit = 8192 ∨ limit = 16384) (less : n < limit) :
    (zoneindex n).2 ≤ limit := by
  unfold zoneindex
  repeat' split
  all_goals simp only
  all_goals omega

theorem chunkOffset_ge (positive : 0 < size) : sizeofZone ≤ chunkOffset size := by
  unfold chunkOffset
  split
  · have whole := Nat.div_add_mod (sizeofZone + size - 1) size
    have rest := Nat.mod_lt (sizeofZone + size - 1) positive
    rw [Nat.mul_comm] at whole
    omega
  · decide

theorem chunkOffset_le (positive : 0 < size) : chunkOffset size ≤ size + 40 := by
  unfold chunkOffset
  split
  · have below := Nat.div_mul_le_self (sizeofZone + size - 1) size
    simp only [sizeofZone] at below ⊢
    omega
  · simp only [sizeofZone]
    omega

end

/-! ## Chunks -/

def Zone.chunk (zone : Zone) (k : Nat) : Nat := zone.baseptr + k * zone.chunksize

theorem Zone.chunk_behind (zone : Zone) {j k : Nat} (before : j < k) :
    zone.chunk j + zone.chunksize ≤ zone.chunk k := by
  have mul : (j + 1) * zone.chunksize ≤ k * zone.chunksize := Nat.mul_le_mul_right _ before
  rw [Nat.succ_mul] at mul
  rw [Zone.chunk, Zone.chunk]
  omega

def Zone.chunks (zone : Zone) : List Nat := (List.range (zone.uindex + 1)).map zone.chunk

/-- A zone of `cnt` pages from `z` on: every chunk up to `z_uindex` is either free or taken. -/
structure Zone.Sound (zone : Zone) (z cnt : Nat) (taken : List Nat) : Prop where
  magic : zone.magic = zallocSlabMagic
  index : zone.zoneindex < rtSlabNzones
  size : zone.chunksize = chunkSize zone.zoneindex
  room : zone.uindex < zone.nmax
  many : 2 ≤ zone.nmax
  count : zone.nfree = zone.nmax - 1 - zone.uindex + zone.freechunk.length
  low : z * 4096 + sizeofZone ≤ zone.baseptr
  high : zone.baseptr + zone.nmax * zone.chunksize ≤ (z + cnt) * 4096
  chunks : (zone.freechunk ++ taken).Perm zone.chunks

namespace Zone.Sound
variable {zone : Zone} {z cnt c k : Nat} {taken rest : List Nat}

section
variable (sound : zone.Sound z cnt taken)
include sound

theorem positive : 0 < zone.chunksize := by
  rw [sound.size]
  exact chunkSize_pos _

theorem inside (less : k < zone.nmax) :
    z * 4096 + sizeofZone ≤ zone.chunk k ∧ zone.chunk k + zone.chunksize ≤ (z + cnt) * 4096 := by
  have low := sound.low
  have high := sound.high
  have mul : (k + 1) * zone.chunksize ≤ zone.nmax * zone.chunksize := Nat.mul_le_mul_right _ less
  rw [Nat.succ_mul] at mul
  rw [Zone.chunk]
  omega

theorem injective : Function.Injective zone.chunk := by
  intro j k same
  exact Nat.eq_of_mul_eq_mul_right sound.positive (Nat.add_left_cancel same)

theorem nodup : (zone.freechunk ++ taken).Nodup :=
  sound.chunks.nodup_iff.mpr (List.nodup_range.map sound.injective)

theorem taken_chunk (member : c ∈ taken) : ∃ k ≤ zone.uindex, c = zone.chunk k := by
  have listed := sound.chunks.mem_iff.mp (List.mem_append_right zone.freechunk member)
  obtain ⟨k, less, same⟩ := List.mem_map.mp listed
  exact ⟨k, Nat.lt_succ_iff.mp (List.mem_range.mp less), same.symm⟩

theorem full (none : zone.nfree = 0) : zone.chunk 0 ∈ taken := by
  have count := sound.count
  have empty : zone.freechunk = [] := List.length_eq_zero_iff.mp (by omega)
  have chunks := sound.chunks
  rw [empty, List.nil_append] at chunks
  exact chunks.mem_iff.mpr (List.mem_map_of_mem (List.mem_range.mpr (Nat.succ_pos _)))

theorem whole (all : zone.nfree = zone.nmax) : taken = [] := by
  have count := sound.count
  have room := sound.room
  have length := sound.chunks.length_eq
  rw [Zone.chunks, List.length_append, List.length_map, List.length_range] at length
  exact List.length_eq_zero_iff.mp (by omega)

theorem fresh (more : zone.uindex + 1 ≠ zone.nmax) :
    ({ zone with nfree := zone.nfree - 1, uindex := zone.uindex + 1 } : Zone).Sound z cnt
      (zone.chunk (zone.uindex + 1) :: taken) := by
  have room := sound.room
  have count := sound.count
  refine { sound with room := ?_, count := ?_, chunks := ?_ }
  · simp only
    omega
  · simp only
    omega
  · have chunks : (zone.chunk (zone.uindex + 1) :: (zone.freechunk ++ taken)).Perm
        (zone.chunks ++ [zone.chunk (zone.uindex + 1)]) :=
      (sound.chunks.cons _).trans (List.perm_append_singleton _ _).symm
    have grown : zone.chunks ++ [zone.chunk (zone.uindex + 1)] =
        ({ zone with nfree := zone.nfree - 1, uindex := zone.uindex + 1 } : Zone).chunks := by
      simp only [Zone.chunks, List.range_succ (n := zone.uindex + 1), List.map_append]
      rfl
    rw [← grown]
    exact List.perm_middle.trans chunks

theorem again (free : zone.freechunk = c :: rest) :
    ({ zone with nfree := zone.nfree - 1, freechunk := rest } : Zone).Sound z cnt (c :: taken) := by
  have count := sound.count
  have chunks := sound.chunks
  rw [free] at count chunks
  refine { sound with count := ?_, chunks := List.perm_middle.trans chunks }
  rw [List.length_cons] at count
  simp only
  omega

end

theorem give (sound : zone.Sound z cnt (c :: taken)) :
    ({ zone with freechunk := c :: zone.freechunk, nfree := zone.nfree + 1 } : Zone).Sound z cnt taken := by
  have count := sound.count
  refine { sound with count := ?_, chunks := List.perm_middle.symm.trans sound.chunks }
  simp only [List.length_cons]
  omega

end Zone.Sound

theorem Zone.Sound.perm {zone : Zone} {z cnt : Nat} {taken taken' : List Nat} (sound : zone.Sound z cnt taken)
    (same : taken.Perm taken') : zone.Sound z cnt taken' :=
  { sound with chunks := (same.symm.append_left zone.freechunk).trans sound.chunks }

theorem zone_sound_open {z cnt zi : Nat} (index : zi < rtSlabNzones) (small : chunkSize zi * 4 ≤ cnt * 4096)
    (pages : 8 ≤ cnt) :
    ({ magic := zallocSlabMagic, zoneindex := zi, nmax := (cnt * 4096 - chunkOffset (chunkSize zi)) / chunkSize zi,
       nfree := (cnt * 4096 - chunkOffset (chunkSize zi)) / chunkSize zi - 1,
       baseptr := z * 4096 + chunkOffset (chunkSize zi), uindex := 0, chunksize := chunkSize zi,
       freechunk := [] } : Zone).Sound z cnt [z * 4096 + chunkOffset (chunkSize zi) + 0 * chunkSize zi] := by
  have positive := chunkSize_pos zi
  have low := chunkOffset_ge positive
  have high := chunkOffset_le positive
  have many : 2 ≤ (cnt * 4096 - chunkOffset (chunkSize zi)) / chunkSize zi := by
    rw [Nat.le_div_iff_mul_le positive]
    omega
  have below := Nat.div_mul_le_self (cnt * 4096 - chunkOffset (chunkSize zi)) (chunkSize zi)
  constructor
  · rfl
  · exact index
  · rfl
  · simp only
    omega
  · exact many
  · simp
  · simp only
    omega
  · simp only
    omega
  · exact .refl _

/-! ## Lists of zones -/

structure Listed (array : Nat → List Nat) (zone : Nat → Zone) (zones shut : List Nat) : Prop where
  once : ∀ i, (array i).Nodup
  listed : ∀ i z, z ∈ array i ↔ z ∈ zones ∧ z ∉ shut ∧ (zone z).zoneindex = i ∧ 0 < (zone z).nfree
  shutZones : ∀ z ∈ shut, z ∈ zones
  shutOnce : shut.Nodup

namespace Listed
variable {array : Nat → List Nat} {zone : Nat → Zone} {zones shut list : List Nat} {z i : Nat} {zn : Zone}

theorem same (lists : Listed array zone zones shut) (index : zn.zoneindex = (zone z).zoneindex)
    (free : 0 < zn.nfree ↔ 0 < (zone z).nfree) : Listed array (update zone z zn) zones shut where
  once := lists.once
  shutZones := lists.shutZones
  shutOnce := lists.shutOnce
  listed j y := by
    rw [lists.listed]
    by_cases own : y = z
    · subst own
      rw [update_self, index, free]
    · rw [update_of_ne own]

theorem hang {shut' : List Nat} (lists : Listed array zone zones shut) (zoned : z ∈ zones)
    (off : ∀ j, z ∉ array j) (index : zn.zoneindex = i) (free : 0 < zn.nfree) (opened : z ∉ shut')
    (others : ∀ y, y ≠ z → (y ∈ shut' ↔ y ∈ shut)) (shutOnce : shut'.Nodup) :
    Listed (update array i (z :: array i)) (update zone z zn) zones shut' where
  once j := by
    by_cases own : j = i
    · subst own
      rw [update_self]
      exact List.nodup_cons.mpr ⟨off j, lists.once j⟩
    · rw [update_of_ne own]
      exact lists.once j
  shutZones y member := by
    by_cases own : y = z
    · rw [own]
      exact zoned
    · exact lists.shutZones y ((others y own).mp member)
  shutOnce := shutOnce
  listed j y := by
    by_cases own : y = z
    · subst own
      rw [update_self, index]
      by_cases here : j = i
      · subst here
        rw [update_self]
        exact ⟨fun _ => ⟨zoned, opened, rfl, free⟩, fun _ => List.mem_cons_self⟩
      · rw [update_of_ne here]
        exact ⟨fun member => absurd member (off j), fun so => absurd so.2.2.1.symm here⟩
    · have before := lists.listed j y
      rw [update_of_ne own (f := zone), others y own, ← before]
      by_cases here : j = i
      · subst here
        rw [update_self, List.mem_cons]
        exact ⟨fun either => either.resolve_left own, .inr⟩
      · rw [update_of_ne here]

theorem unhang {shut' : List Nat} (lists : Listed array zone zones shut) (index : (zone z).zoneindex = i)
    (left : ∀ y, y ∈ list ↔ y ∈ array i ∧ y ≠ z) (once : list.Nodup) (gone : zn.nfree = 0 ∨ z ∈ shut')
    (others : ∀ y, y ≠ z → (y ∈ shut' ↔ y ∈ shut)) (shutZones : ∀ y ∈ shut', y ∈ zones) (shutOnce : shut'.Nodup) :
    Listed (update array i list) (update zone z zn) zones shut' where
  once j := by
    by_cases own : j = i
    · subst own
      rw [update_self]
      exact once
    · rw [update_of_ne own]
      exact lists.once j
  shutZones := shutZones
  shutOnce := shutOnce
  listed j y := by
    have before := lists.listed j y
    by_cases own : y = z
    · subst own
      rw [update_self]
      have out : ¬(y ∈ zones ∧ y ∉ shut' ∧ zn.zoneindex = j ∧ 0 < zn.nfree) := by
        rintro ⟨-, opened, -, free⟩
        rcases gone with none | closed
        · omega
        · exact opened closed
      refine ⟨fun member => ?_, fun so => absurd so out⟩
      by_cases here : j = i
      · subst here
        rw [update_self] at member
        exact absurd rfl ((left y).mp member).2
      · rw [update_of_ne here] at member
        exact absurd ((before.mp member).2.2.1.symm.trans index) here
    · rw [update_of_ne own (f := zone), others y own, ← before]
      by_cases here : j = i
      · subst here
        rw [update_self, left]
        exact ⟨fun so => so.1, fun member => ⟨member, own⟩⟩
      · rw [update_of_ne here]

theorem cons (lists : Listed array zone zones shut) (new : z ∉ zones) :
    Listed array zone (z :: zones) (z :: shut) where
  once := lists.once
  shutZones y member := by
    rcases List.mem_cons.mp member with rfl | old
    · exact List.mem_cons_self
    · exact List.mem_cons_of_mem _ (lists.shutZones y old)
  shutOnce := List.nodup_cons.mpr ⟨fun member => new (lists.shutZones z member), lists.shutOnce⟩
  listed j y := by
    rw [lists.listed]
    by_cases own : y = z
    · subst own
      exact ⟨fun so => absurd so.1 new, fun so => absurd List.mem_cons_self so.2.1⟩
    · rw [List.mem_cons, List.mem_cons, or_iff_right own, or_iff_right own]

theorem erase (lists : Listed array zone zones (z :: shut)) (once : zones.Nodup) :
    Listed array zone (zones.erase z) shut where
  once := lists.once
  shutZones y member := by
    have other : y ≠ z := fun same => (List.nodup_cons.mp lists.shutOnce).1 (same ▸ member)
    exact (List.mem_erase_of_ne other).mpr (lists.shutZones y (List.mem_cons_of_mem _ member))
  shutOnce := (List.nodup_cons.mp lists.shutOnce).2
  listed j y := by
    rw [lists.listed]
    by_cases own : y = z
    · subst own
      exact ⟨fun so => absurd List.mem_cons_self so.2.1, fun so => absurd so.1 once.not_mem_erase⟩
    · rw [List.mem_cons, or_iff_right own, List.mem_erase_of_ne own]

end Listed

theorem unlinkZone_eq {z : Nat} {list : List Nat} (member : z ∈ list) : unlinkZone z list = some (list.erase z) := by
  induction list with
  | nil => cases member
  | cons y rest ih =>
    rw [unlinkZone]
    by_cases own : y = z
    · rw [if_pos own, own, List.erase_cons_head]
    · have later : z ∈ rest := List.mem_of_ne_of_mem (Ne.symm own) member
      rw [if_neg own, ih later, List.erase_cons_tail (by simpa using own)]
      rfl

end RtThread.Slab
