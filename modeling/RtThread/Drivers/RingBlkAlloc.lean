import RtThread.Drivers.RingBlkList
import RtThread.Lib.Ascending
import RtThread.Lib.Word

/-! Where the blocks of a ring block buffer lie: inside the buffer, and apart from one another. -/

set_option autoImplicit false
namespace RtThread.Drivers
open Lib

def RbbBlk.start (block : RbbBlk) : Nat := block.buf.toNat

def RbbBlk.stop (block : RbbBlk) : Nat := block.buf.toNat + block.size.toNat

def Rbb.start (rbb : Rbb) (i : Nat) : Nat := (rbb.blkSet i).start

def Rbb.size (rbb : Rbb) (i : Nat) : Nat := (rbb.blkSet i).size.toNat

def Rbb.limit (rbb : Rbb) : Nat := rbb.buf.toNat + rbb.bufSize.toNat

variable {rbb rbb' : Rbb} {used free upper lower : List Nat} {i : Nat} {blkSize : UInt32}

structure Placed (rbb : Rbb) (upper lower free : List Nat) : Prop where
  lists : Lists rbb (upper ++ lower) free
  round : Round rbb.start rbb.size rbb.buf.toNat rbb.limit upper lower
  region : rbb.limit < 2 ^ 32

def Rbb.Sound (rbb : Rbb) : Prop := ∃ upper lower free, Placed rbb upper lower free

theorem field24_toNat (short : blkSize < 0x1000000) : (field24 blkSize).toNat = blkSize.toNat := by
  rw [field24, UInt32.toNat_mod]
  exact Nat.mod_eq_of_lt (UInt32.lt_iff_toNat_lt.mp short)

/-! ## The place of a new block -/

section
variable {head tail : RbbBlk} {place : UInt32}

theorem fits_upper (region : rbb.limit < 2 ^ 32) (low : rbb.buf.toNat ≤ head.start) (order : head.start ≤ tail.start)
    (high : tail.stop ≤ rbb.limit) (found : fits rbb head tail blkSize = some place) :
    place.toNat = tail.stop ∧ tail.stop + blkSize.toNat ≤ rbb.limit ∨
      place = rbb.buf ∧ 0 < blkSize.toNat ∧ rbb.buf.toNat + blkSize.toNat ≤ head.start := by
  have before : head.buf ≤ tail.buf := UInt32.le_iff_toNat_le.mpr order
  have behind : (tail.buf + tail.size).toNat = tail.stop := add_toNat (Nat.lt_of_le_of_lt high region)
  have whole : (rbb.buf + rbb.bufSize).toNat = rbb.limit := add_toNat region
  have empty1 : (rbb.buf + rbb.bufSize - (tail.buf + tail.size)).toNat = rbb.limit - tail.stop := by
    rw [sub_toNat (by rw [behind, whole]; exact high), behind, whole]
  have empty2 : (head.buf - rbb.buf).toNat = head.start - rbb.buf.toNat := sub_toNat low
  rw [fits, if_pos before] at found
  dsimp only at found
  split at found
  case isTrue room =>
    cases found
    have room' := UInt32.le_iff_toNat_le.mp room
    exact Or.inl ⟨behind, by omega⟩
  case isFalse tight =>
    have tight' : ¬blkSize.toNat ≤ _ := fun le => tight (UInt32.le_iff_toNat_le.mpr le)
    split at found
    case isTrue room =>
      cases found
      have room' := UInt32.le_iff_toNat_le.mp room
      exact Or.inr ⟨rfl, by omega, by omega⟩
    case isFalse => cases found

theorem fits_lower (region : rbb.limit < 2 ^ 32) (order : tail.start < head.start) (high : tail.stop ≤ head.start)
    (inside : head.start ≤ rbb.limit) (found : fits rbb head tail blkSize = some place) :
    place.toNat = tail.stop ∧ tail.stop + blkSize.toNat ≤ head.start := by
  have after : ¬head.buf ≤ tail.buf := fun le => Nat.not_le.mpr order (UInt32.le_iff_toNat_le.mp le)
  have behind : (tail.buf + tail.size).toNat = tail.stop :=
    add_toNat (Nat.lt_of_le_of_lt (Nat.le_trans high inside) region)
  have empty1 : (head.buf - (tail.buf + tail.size)).toNat = head.start - tail.stop := by
    rw [sub_toNat (by rw [behind]; exact high), behind]
    rfl
  rw [fits, if_neg after] at found
  dsimp only at found
  split at found
  case isTrue room =>
    cases found
    have room' := UInt32.le_iff_toNat_le.mp room
    exact ⟨behind, by omega⟩
  case isFalse => cases found

end

/-! ## Calls -/

inductive RbbCall where
  | alloc (blkSize : UInt32)
  | put (i : Nat)
  | get
  | free (i : Nat)
  deriving DecidableEq

def rbbPerform (rbb : Rbb) : RbbCall → Option Rbb
  | .alloc blkSize => (rtRbbBlkAlloc rbb blkSize).map (·.1)
  | .put i => rtRbbBlkPut rbb i
  | .get => (rtRbbBlkGet rbb).map (·.1)
  | .free i => rtRbbBlkFree rbb i

namespace Rbb

def Permits (rbb : Rbb) : RbbCall → Prop
  | .alloc blkSize => blkSize < 0x1000000
  | .put i => i < rbb.blkMaxNum ∧ (rbb.blkSet i).status = .inited
  | .get => True
  | .free i => i < rbb.blkMaxNum ∧ (rbb.blkSet i).status ≠ .unused

def Full (rbb : Rbb) : Prop :=
  ∃ head tail, rbb.next .blkList = some (.blk head) ∧ rbb.tail = .blk tail ∧
    (rbb.blkSet tail).start < (rbb.blkSet head).start ∧ (rbb.blkSet tail).stop = (rbb.blkSet head).start

/-- A block that is given out while no other is in use has its room in the buffer, and none of no bytes is given
out while the buffer is full. -/
def Meets (rbb : Rbb) : RbbCall → Prop
  | .alloc blkSize => rbb.next .freeList ≠ none →
      (rbb.next .blkList = none → blkSize ≤ rbb.bufSize) ∧ (rbb.Full → blkSize ≠ 0)
  | _ => True

def Step (rbb rbb' : Rbb) : Prop := ∃ call, rbb.Permits call ∧ rbb.Meets call ∧ rbbPerform rbb call = some rbb'

end Rbb

/-! ## Steps -/

theorem Placed.place (placed : Placed rbb upper lower free) (upper' lower' : List Nat) {buf : UInt32}
    (out : i ∉ upper ++ lower) (fresh : i ∉ free) (below : i < rbb.blkMaxNum) (short : blkSize < 0x1000000)
    (same : upper ++ lower ++ [i] = upper' ++ lower')
    (new : ∀ start size : Nat → Nat, start i = buf.toNat → size i = blkSize.toNat →
      (∀ j ∈ upper ++ lower, start j = rbb.start j ∧ size j = rbb.size j) →
      Round start size rbb.buf.toNat rbb.limit upper lower → Round start size rbb.buf.toNat rbb.limit upper' lower') :
    (Drivers.place rbb i buf blkSize).Sound := by
  obtain ⟨lists, -, blkSet⟩ := placed.lists.place out fresh below buf blkSize
  have own : (Drivers.place rbb i buf blkSize).blkSet i = { status := .inited, buf, size := field24 blkSize } := by
    rw [blkSet, Function.update_self]
  have others : ∀ j ∈ upper ++ lower, (Drivers.place rbb i buf blkSize).start j = rbb.start j ∧
      (Drivers.place rbb i buf blkSize).size j = rbb.size j := by
    intro j inside
    have other : j ≠ i := fun equal => out (equal ▸ inside)
    have kept : (Drivers.place rbb i buf blkSize).blkSet j = rbb.blkSet j := by
      rw [blkSet, Function.update_of_ne other]
    simp only [Rbb.start, Rbb.size, kept, and_self]
  refine ⟨upper', lower', free, ?_, ?_, placed.region⟩
  · rw [← same]
    exact lists
  · refine new _ _ ?_ ?_ others (placed.round.congr others)
    · rw [Rbb.start, own]
      rfl
    · rw [Rbb.size, own]
      exact field24_toNat short

theorem Placed.setStatus (placed : Placed rbb upper lower free) (inside : i ∈ upper ++ lower) {status : RbbStatus}
    (busy : status ≠ .unused) : Placed (rbb.setStatus i status) upper lower free where
  lists := placed.lists.setBlk inside busy
  round := by
    apply placed.round.congr
    intro j _
    have read : (rbb.setStatus i status).blkSet j =
      Function.update rbb.blkSet i { rbb.blkSet i with status } j := rfl
    simp only [Rbb.start, Rbb.size, read, RbbBlk.start]
    by_cases own : j = i
    · subst own
      simp
    · rw [Function.update_of_ne own]
      exact ⟨rfl, rfl⟩
  region := placed.region

theorem Placed.grow {head tail : Nat} (placed : Placed rbb upper lower free) (first : upper.head? = some head)
    (last : rbb.tail = .blk tail) (full : rbb.Full → blkSize ≠ 0) (out : i ∉ upper ++ lower) (fresh : i ∉ free)
    (below : i < rbb.blkMaxNum) (short : blkSize < 0x1000000) {buf : UInt32}
    (found : fits rbb (rbb.blkSet head) (rbb.blkSet tail) blkSize = some buf) : (Drivers.place rbb i buf blkSize).Sound := by
  obtain ⟨xs, rfl⟩ : ∃ xs, upper = head :: xs := List.head?_eq_some_iff.mp first
  have asc := placed.round.ascending
  have headIn := placed.round.inside (List.mem_append_left lower List.mem_cons_self)
  have newest := placed.lists.tail
  rw [last] at newest
  rcases List.eq_nil_or_concat' lower with rfl | ⟨ys, c, rfl⟩
  · -- the newest block is the last one of `upper`
    obtain ⟨zs, l, cut⟩ : ∃ zs l, head :: xs = zs ++ [l] :=
      (List.eq_nil_or_concat' (head :: xs)).resolve_left (List.cons_ne_nil _ _)
    obtain rfl : tail = l := by
      rw [List.append_nil, cut, List.map_append, List.map_singleton, lastNode_concat] at newest
      cases newest
      rfl
    have member : tail ∈ head :: xs := by rw [cut]; simp
    have tailIn := placed.round.inside (List.mem_append_left [] member)
    have order : rbb.start head ≤ rbb.start tail := by
      rcases List.mem_cons.mp member with rfl | after
      · exact Nat.le_refl _
      · have behind := (asc.2.inside after).1
        omega
    rcases fits_upper placed.region headIn.1 order tailIn.2 found with ⟨behind, room⟩ | ⟨front, some, room⟩
    · refine placed.place (head :: xs ++ [i]) [] out fresh below short (by simp) ?_
      intro start size own length same round
      rw [cut] at round ⊢
      obtain ⟨place, stop⟩ := same tail (List.mem_append_left _ member)
      refine round.extend ?_ ?_
      · rw [place, stop, own, behind]
        exact Nat.le_refl _
      · rw [own, length, behind]
        exact room
    · refine placed.place (head :: xs) [i] out fresh below short (by simp) ?_
      intro start size own length same round
      obtain ⟨place, -⟩ := same head (by simp)
      refine round.wrap ?_ ?_ ?_
      · rw [own, front]
      · rw [length]
        exact some
      · rw [own, length, place, front]
        exact room
  · -- the newest block is the last one of `lower`
    obtain rfl : tail = c := by
      rw [← List.append_assoc, List.map_append, List.map_singleton, lastNode_concat] at newest
      cases newest
      rfl
    have order : rbb.start tail < rbb.start head := placed.round.behind tail (by simp) head (by simp)
    have high : rbb.start tail + rbb.size tail ≤ rbb.start head := by
      rw [List.append_assoc] at asc
      obtain ⟨mid, -, -, above, -⟩ := asc.split
      exact above
    obtain ⟨behind, room⟩ := fits_lower placed.region order high
      (Nat.le_trans (Nat.le_add_right _ _) headIn.2) found
    refine placed.place (head :: xs) (ys ++ [tail] ++ [i]) out fresh below short (by simp) ?_
    intro start size own length same round
    obtain ⟨headPlace, -⟩ := same head (by simp)
    obtain ⟨tailPlace, tailStop⟩ := same tail (by simp)
    have stop : (rbb.blkSet tail).stop = rbb.start tail + rbb.size tail := rfl
    have less : buf.toNat < rbb.start head := by
      rcases Nat.lt_or_ge buf.toNat (rbb.start head) with less | reached
      · exact less
      · -- the buffer is full, so that only a block of no bytes fits
        have touches : (rbb.blkSet tail).stop = rbb.start head := by omega
        exfalso
        apply full ⟨head, tail, placed.lists.usedList.first, last, order, touches⟩
        apply eq_zero_iff.mpr
        have start : (rbb.blkSet head).start = rbb.start head := rfl
        omega
    refine round.fill ?_ ?_ ?_
    · rw [tailPlace, tailStop, own, behind]
      exact Nat.le_refl _
    · rw [own, headPlace]
      exact less
    · rw [own, length, headPlace, behind]
      exact room

theorem Placed.alloc (placed : Placed rbb upper lower free) (short : blkSize < 0x1000000)
    (meets : rbb.Meets (.alloc blkSize)) :
    ∃ rbb' block, rtRbbBlkAlloc rbb blkSize = some (rbb', block) ∧ rbb'.Sound ∧ SameBuffer rbb rbb' := by
  rw [rtRbbBlkAlloc, if_pos short]
  rcases placed.lists.findEmpty with ⟨-, none⟩ | ⟨i, rest, rbb₁, rfl, found, lists, same, blkSet, out, fresh, below⟩
  · rw [none]
    exact ⟨rbb, _, rfl, ⟨_, _, _, placed⟩, SameBuffer.refl rbb⟩
  · rw [found]
    dsimp only
    have left : rbb.next .freeList ≠ none := by
      have first : rbb.next .freeList = some (.blk i) := placed.lists.freeList.first
      rw [first]
      exact Option.some_ne_none _
    obtain ⟨alone, full⟩ := meets left
    have limit : rbb₁.limit = rbb.limit := by rw [Rbb.limit, same.buf, same.bufSize, Rbb.limit]
    have placed₁ : Placed rbb₁ upper lower rest := by
      refine ⟨lists, ?_, by rw [limit]; exact placed.region⟩
      rw [limit, same.buf]
      exact placed.round.congr fun j _ => by rw [Rbb.start, Rbb.size, blkSet]; exact ⟨rfl, rfl⟩
    have below₁ : i < rbb₁.blkMaxNum := by rw [same.blkMaxNum]; exact below
    have first : rbb.next .blkList = ((upper ++ lower).map SNode.blk).head? := placed.lists.usedList.first
    have first₁ : rbb₁.next .blkList = ((upper ++ lower).map SNode.blk).head? := lists.usedList.first
    cases upper with
    | nil =>
      obtain rfl := placed.round.first rfl
      have empty₁ : rbb₁.next .blkList = none := first₁
      have room := UInt32.le_iff_toNat_le.mp (alone first)
      rw [empty₁]
      refine ⟨_, _, rfl, ?_, same.trans ⟨rfl, rfl, rfl⟩⟩
      refine placed₁.place [i] [] out fresh below₁ short rfl ?_
      intro start size own length _ _
      apply Round.single
      · exact Nat.le_of_eq own.symm
      · rw [own, length, limit, same.buf]
        exact Nat.add_le_add_left room _
    | cons head xs =>
      have head₁ : rbb₁.next .blkList = some (.blk head) := first₁
      obtain ⟨tail, newest⟩ : ∃ tail, rbb₁.tail = .blk tail := by
        have member := lastNode_mem (SNode.blk head) ((xs ++ lower).map SNode.blk)
        have newest : rbb₁.tail = lastNode (SNode.blk head) ((xs ++ lower).map SNode.blk) := lists.tail
        rw [← newest] at member
        rcases List.mem_cons.mp member with own | inside
        · exact ⟨head, own⟩
        · obtain ⟨j, -, own⟩ := List.mem_map.mp inside
          exact ⟨j, own.symm⟩
      have full₁ : rbb₁.Full → blkSize ≠ 0 := by
        rintro ⟨h, t, front, back, order, touches⟩
        rw [blkSet] at order touches
        refine full ⟨h, t, first.trans (first₁.symm.trans front), ?_, order, touches⟩
        rw [placed.lists.tail, ← lists.tail]
        exact back
      rw [head₁, newest]
      dsimp only [SNode.entry]
      cases room : fits rbb₁ (rbb₁.blkSet head) (rbb₁.blkSet tail) blkSize with
      | none => exact ⟨rbb₁, _, rfl, ⟨_, _, _, placed₁⟩, same⟩
      | some buf =>
        have sound := placed₁.grow rfl newest full₁ out fresh below₁ short room
        exact ⟨_, _, rfl, sound, same.trans ⟨rfl, rfl, rfl⟩⟩

theorem Placed.release (placed : Placed rbb upper lower free) (inside : i ∈ upper ++ lower) :
    ∃ rbb', rtRbbBlkFree rbb i = some rbb' ∧ rbb'.Sound ∧ SameBuffer rbb rbb' := by
  obtain ⟨before, after, cut⟩ := List.append_of_mem inside
  have lists := placed.lists
  rw [cut] at lists
  obtain ⟨rbb', code, lists', same, blkSet⟩ := lists.release
  obtain ⟨upper', lower', rest, round⟩ := placed.round.erase cut
  have limit : rbb'.limit = rbb.limit := by rw [Rbb.limit, same.buf, same.bufSize, Rbb.limit]
  refine ⟨rbb', code, ⟨upper', lower', i :: free, ?_, ?_, by rw [limit]; exact placed.region⟩, same⟩
  · rw [← rest]
    exact lists'
  · rw [limit, same.buf]
    apply round.congr
    intro j _
    simp only [Rbb.start, Rbb.size, blkSet, RbbBlk.start]
    by_cases own : j = i
    · subst own
      simp
    · rw [Function.update_of_ne own]
      exact ⟨rfl, rfl⟩

theorem Rbb.Sound.step (sound : rbb.Sound) (call : RbbCall) (permits : rbb.Permits call) (meets : rbb.Meets call) :
    ∃ rbb', rbbPerform rbb call = some rbb' ∧ rbb'.Sound ∧ SameBuffer rbb rbb' := by
  obtain ⟨upper, lower, free, placed⟩ := sound
  cases call with
  | alloc blkSize =>
    obtain ⟨rbb', block, code, sound, same⟩ := placed.alloc permits meets
    exact ⟨rbb', by rw [rbbPerform, code]; rfl, sound, same⟩
  | put i =>
    obtain ⟨below, inited⟩ := permits
    have inside := (placed.lists.status i below).mp (by rw [inited]; decide)
    refine ⟨_, if_pos inited, ⟨_, _, _, placed.setStatus inside (by decide)⟩, ⟨rfl, rfl, rfl⟩⟩
  | get =>
    have short := placed.lists.length_used
    obtain ⟨found, code, member⟩ := findPut_returns placed.lists.usedList.links rbb.loopFuel (Nat.le_succ_of_le short)
    rw [rbbPerform, rtRbbBlkGet, code]
    cases found with
    | none => exact ⟨rbb, rfl, ⟨_, _, _, placed⟩, SameBuffer.refl rbb⟩
    | some i =>
      exact ⟨_, rfl, ⟨_, _, _, placed.setStatus (member i rfl) (by decide)⟩, ⟨rfl, rfl, rfl⟩⟩
  | free i =>
    obtain ⟨below, busy⟩ := permits
    exact placed.release ((placed.lists.status i below).mp busy)

/-! ## Runs -/

def RbbBlk.Covers (block : RbbBlk) (a : Nat) : Prop := block.start ≤ a ∧ a < block.stop

/-- The blocks on `blk_list` lie inside the buffer, and no two of them share a byte. -/
def Rbb.WellPlaced (rbb : Rbb) : Prop :=
  ∃ blocks : List Nat, Segment rbb.next (rbb.next .blkList) (blocks.map .blk) none ∧
    (∀ i ∈ blocks, rbb.buf.toNat ≤ (rbb.blkSet i).start ∧ (rbb.blkSet i).stop ≤ rbb.limit) ∧
    blocks.Pairwise fun i j => ∀ a, ¬((rbb.blkSet i).Covers a ∧ (rbb.blkSet j).Covers a)

theorem Rbb.Sound.wellPlaced (sound : rbb.Sound) : rbb.WellPlaced := by
  obtain ⟨upper, lower, free, placed⟩ := sound
  refine ⟨upper ++ lower, placed.lists.usedList.links, fun i member => placed.round.inside member, ?_⟩
  apply placed.round.apart.imp
  rintro i j apart a ⟨⟨low, high⟩, low', high'⟩
  have stop : ∀ k, (rbb.blkSet k).stop = rbb.start k + rbb.size k := fun _ => rfl
  have start : ∀ k, (rbb.blkSet k).start = rbb.start k := fun _ => rfl
  rw [stop] at high high'
  rw [start] at low low'
  omega

variable {buf bufSize : UInt32} {blkSet : Nat → RbbBlk} {next : SNode → Option SNode} {blkMaxNum : Nat}

theorem sound_init (region : buf.toNat + bufSize.toNat < 2 ^ 32) :
    (rtRbbInit buf bufSize blkSet next blkMaxNum).Sound ∧
      (rtRbbInit buf bufSize blkSet next blkMaxNum).limit = buf.toNat + bufSize.toNat := by
  obtain ⟨rbb, free, rfl, lists, start, size, -⟩ := Lists.init buf bufSize blkSet next blkMaxNum
  have limit : (rtRbbInit buf bufSize blkSet next blkMaxNum).limit = buf.toNat + bufSize.toNat := by
    rw [Rbb.limit, start, size]
  refine ⟨⟨[], [], free, lists, ⟨?_, by simp, by simp⟩, by rw [limit]; exact region⟩, limit⟩
  exact Nat.le_add_right _ _

/-- In a run whose steps all meet the condition, the blocks are well placed in every state reached, the buffer is
the one given at first, and the next call returns. -/
theorem rbb_wellPlaced (region : buf.toNat + bufSize.toNat < 2 ^ 32)
    (run : Relation.ReflTransGen Rbb.Step (rtRbbInit buf bufSize blkSet next blkMaxNum) rbb) :
    rbb.WellPlaced ∧ rbb.buf = buf ∧ rbb.bufSize = bufSize ∧
      ∀ call, rbb.Permits call → rbb.Meets call → (rbbPerform rbb call).isSome := by
  have reached : rbb.Sound ∧ SameBuffer (rtRbbInit buf bufSize blkSet next blkMaxNum) rbb := by
    induction run with
    | refl => exact ⟨(sound_init region).1, SameBuffer.refl _⟩
    | tail _ step ih =>
      obtain ⟨call, permits, meets, performed⟩ := step
      obtain ⟨rbb', code, sound, same⟩ := ih.1.step call permits meets
      rw [performed] at code
      cases code
      exact ⟨sound, ih.2.trans same⟩
  obtain ⟨-, -, rfl, -, start, size, -⟩ := Lists.init buf bufSize blkSet next blkMaxNum
  refine ⟨reached.1.wellPlaced, reached.2.buf.trans start, reached.2.bufSize.trans size, ?_⟩
  intro call permits meets
  obtain ⟨rbb', code, -⟩ := reached.1.step call permits meets
  rw [code]
  rfl

/-- A buffer of 100 bytes at 0x20000000 with eight blocks. -/
def smallRbb : Rbb := rtRbbInit 0x20000000 100 (fun _ => { status := .unused, size := 0, buf := 0 }) (fun _ => none) 8

def rbbRun (rbb : Rbb) (calls : List RbbCall) : Option Rbb := calls.foldlM rbbPerform rbb

theorem rbb_wellPlaced_small : ∃ rbb, rbbRun smallRbb [.alloc 60, .put 7, .get] = some rbb ∧ rbb.WellPlaced ∧
    (rbb.blkSet 7).status = .get ∧ (rbbPerform rbb (.alloc 40)).isSome := by
  have result : ((rbbPerform smallRbb (.alloc 60)).bind fun a => (rbbPerform a (.put 7)).bind fun b =>
      (rbbPerform b .get).map fun c => ((a.blkSet 7).status, (c.blkSet 7).status, c.next .blkList)) =
      some (.inited, .get, some (.blk 7)) := by decide +kernel
  obtain ⟨a, one, result⟩ := Option.bind_eq_some_iff.mp result
  obtain ⟨b, two, result⟩ := Option.bind_eq_some_iff.mp result
  obtain ⟨c, three, result⟩ := Option.map_eq_some_iff.mp result
  simp only [Prod.mk.injEq] at result
  obtain ⟨inited, got, list⟩ := result
  have calls : rbbRun smallRbb [.alloc 60, .put 7, .get] = some c := by
    simp [rbbRun, List.foldlM, one, two, three]
  have number : a.blkMaxNum = 8 := by
    have known : (rbbPerform smallRbb (.alloc 60)).map (·.blkMaxNum) = some 8 := by decide +kernel
    rw [one] at known
    exact Option.some.inj known
  have first : Rbb.Step smallRbb a := by
    refine ⟨.alloc 60, (by decide : (60 : UInt32) < 0x1000000), fun _ => ⟨fun _ => by decide, ?_⟩, one⟩
    exact fun _ => by decide
  have second : Rbb.Step a b := ⟨.put 7, ⟨by rw [number]; decide, inited⟩, trivial, two⟩
  have third : Rbb.Step b c := ⟨.get, trivial, trivial, three⟩
  have run := ((Relation.ReflTransGen.single first).tail second).tail third
  obtain ⟨placed, -, -, returns⟩ := rbb_wellPlaced (by decide) run
  refine ⟨c, calls, placed, got, returns (.alloc 40) (by decide : (40 : UInt32) < 0x1000000) fun _ => ⟨?_, fun _ => by decide⟩⟩
  rw [list]
  exact fun empty => by cases empty

/-- A block of 200 bytes is given out of a buffer of 100. And where the newest block ends at the oldest one, a block
of no bytes in between makes the list look as if the buffer had not been wrapped. -/
theorem rbb_overlapping :
    (∃ rbb, rbbRun smallRbb [.alloc 200] = some rbb ∧ ¬rbb.WellPlaced) ∧
      ∃ rbb, rbbRun smallRbb [.alloc 50, .alloc 50, .free 7, .alloc 50, .alloc 0, .alloc 50] = some rbb ∧
        ¬rbb.WellPlaced := by
  constructor
  · have result : (rbbRun smallRbb [.alloc 200]).map (fun rbb =>
        (rbb.next .blkList, rbb.limit, (rbb.blkSet 7).stop)) =
        some (some (.blk 7), 0x20000064, 0x200000C8) := by decide +kernel
    obtain ⟨rbb, code, result⟩ := Option.map_eq_some_iff.mp result
    simp only [Prod.mk.injEq] at result
    obtain ⟨list, limit, stop⟩ := result
    refine ⟨rbb, code, ?_⟩
    rintro ⟨blocks, links, inside, -⟩
    rw [list] at links
    cases blocks with
    | nil => cases links
    | cons i rest =>
      have first : i = 7 := by
        have same := links.1
        cases same
        rfl
      have high := (inside i List.mem_cons_self).2
      rw [first, limit, stop] at high
      exact absurd high (by decide)
  · have result : (rbbRun smallRbb
        [.alloc 50, .alloc 50, .free 7, .alloc 50, .alloc 0, .alloc 50]).map (fun rbb =>
        ([.blkList, .blk 6, .blk 7, .blk 5, .blk 4].map rbb.next, [6, 4].map fun i => (rbb.blkSet i).start,
          [6, 4].map fun i => (rbb.blkSet i).stop)) =
        some ([some (.blk 6), some (.blk 7), some (.blk 5), some (.blk 4), none], [0x20000032, 0x20000032],
          [0x20000064, 0x20000064]) := by decide +kernel
    obtain ⟨rbb, code, result⟩ := Option.map_eq_some_iff.mp result
    simp only [Prod.mk.injEq, List.map_cons, List.map_nil, List.cons.injEq, and_true] at result
    obtain ⟨⟨list, six, seven, five, four⟩, ⟨start, start'⟩, stop, stop'⟩ := result
    refine ⟨rbb, code, ?_⟩
    rintro ⟨blocks, links, -, apart⟩
    have known : Segment rbb.next (rbb.next .blkList) ([6, 7, 5, 4].map .blk) none :=
      ⟨list, six, seven, five, four⟩
    have whole : blocks.map SNode.blk = [6, 7, 5, 4].map SNode.blk := links.unique known
    have only : blocks = [6, 7, 5, 4] := by
      apply List.map_injective_iff.mpr _ whole
      intro i j same
      cases same
      rfl
    rw [only] at apart
    have pair := (List.pairwise_cons.mp apart).1 4 (by simp) 0x20000032
    rw [RbbBlk.Covers, RbbBlk.Covers, start, stop, start', stop'] at pair
    exact pair (by decide)

end RtThread.Drivers
