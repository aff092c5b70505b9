import RtThread.Ipc.Waits
import RtThread.Lib.Word
import Mathlib.Data.List.Range
import RtThread.Lib.Segment
import RtThread.Mem.SmallMemBlocks

/-! Memory pools (`mempool.c`): blocks of one size, chained through their own memory, the free ones on the chain, the
live ones with the address of the pool in front. -/

set_option autoImplicit false
namespace RtThread.Pools
open Ipc Lib

/-- `struct rt_mempool`, but for `suspend_thread`. -/
structure Mempool where
  startAddress : UInt32
  size : UInt32
  blockSize : UInt32
  blockList : UInt32
  blockTotalCount : UInt32
  blockFreeCount : UInt32

/-- A thread is in no call, or behind the `rt_schedule` of `rt_mp_alloc`. -/
inductive MpCall where
  | idle
  | waiting (time : Int32) (beforeSleep : UInt32)
  deriving DecidableEq

inductive MpEvent where
  | allocated (block : UInt32)
  | failed
  deriving DecidableEq

/-- The pool object is at `addr`. `stores` are the places of the pointers written so far, and `live` the blocks
that were given out and not given back. -/
structure MpWorld (T : Type) where
  mem : Nat → UInt8
  stores : List UInt32
  addr : UInt32
  mp : Mempool
  waits : Waits Unit T
  call : T → MpCall
  live : List UInt32

/-- `RT_ALIGN(size, RT_ALIGN_SIZE)` -/
def rtAlign (size : UInt32) : UInt32 := UInt32.ofNat (Mem.Config.board.rtAlign size.toNat)

/-- `RT_ALIGN_DOWN(size, RT_ALIGN_SIZE)` -/
def rtAlignDown (size : UInt32) : UInt32 := UInt32.ofNat (Mem.Config.board.rtAlignDown size.toNat)

def Mempool.stride (mp : Mempool) : UInt32 := mp.blockSize + 4

section
variable {T : Type} [DecidableEq T] (w : MpWorld T)

namespace MpWorld

/-- `*(rt_uint8_t **)a = value` -/
def store (a value : UInt32) : MpWorld T :=
  { w with mem := store32 w.mem a.toNat value, stores := a :: w.stores }

def load (a : UInt32) : UInt32 := load32 w.mem a.toNat

def goto (t : T) (call : MpCall) : MpWorld T := { w with call := Function.update w.call t call }

def setFree (blockFreeCount blockList : UInt32) : MpWorld T := { w with mp := { w.mp with blockFreeCount, blockList } }

end MpWorld

/-- The loop of `rt_mp_init` from `offset` on. -/
def initLinks (w : MpWorld T) (blockPtr stride : UInt32) : Nat → UInt32 → MpWorld T
  | 0, _ => w
  | count + 1, offset =>
    initLinks (w.store (blockPtr + offset * stride) (blockPtr + (offset + 1) * stride)) blockPtr stride count (offset + 1)

/-- `None` is a failed assertion. -/
def rtMpInit (start size blockSize : UInt32) : Option (MpWorld T) :=
  if start ≠ 0 ∧ size > 0 ∧ blockSize > 0 then
    let size := rtAlignDown size
    let blockSize := rtAlign blockSize
    let total := size / (blockSize + 4)
    let w := { w with
      mp := { startAddress := start, size, blockSize, blockList := start, blockTotalCount := total, blockFreeCount := total }
      waits := { w.waits with list := fun _ => [] } }
    let w := initLinks w start (blockSize + 4) total.toNat 0
    some (w.store (start + (total - 1) * (blockSize + 4)) 0)
  else none

/-- `rt_mp_alloc` behind its loop. `None` is a failed assertion. -/
def mpTake (t : T) : Option (MpWorld T × Option MpEvent) :=
  let blockPtr := w.mp.blockList
  if blockPtr ≠ 0 then
    let w := w.setFree (w.mp.blockFreeCount - 1) (w.load blockPtr)
    let w := w.store blockPtr w.addr
    some ({ w with live := (blockPtr + 4) :: w.live }.goto t .idle, some (.allocated (blockPtr + 4)))
  else none

/-- A thread is put in front of `suspend_thread`. -/
def mpSuspend (t : T) (time : Int32) : MpWorld T :=
  let waits := rtThreadSuspend (w.waits.setError t .ok) t
  let waits := { waits with list := fun q => t :: waits.list q }
  { w with waits := if time > 0 then waits.startTimer t else waits }

/-- The loop of `rt_mp_alloc`, from its test on. -/
def mpAllocLoop (t : T) (time : Int32) (beforeSleep tick : UInt32) : Option (MpWorld T × Option MpEvent) :=
  if w.mp.blockFreeCount = 0 then
    if time = 0 then some (w.goto t .idle, some .failed)
    else some ((mpSuspend w t time).goto t (.waiting time (if time > 0 then tick else beforeSleep)), none)
  else mpTake w t

def rtMpAlloc (t : T) (time : Int32) (tick : UInt32) : Option (MpWorld T × Option MpEvent) :=
  mpAllocLoop w t time 0 tick

/-- `rt_mp_alloc` behind its `rt_schedule`. -/
def mpAllocWoken (t : T) (time : Int32) (beforeSleep now tick : UInt32) : Option (MpWorld T × Option MpEvent) :=
  if (w.waits.thread t).error ≠ .ok then some (w.goto t .idle, some .failed)
  else if time > 0 then
    let time := (time.toUInt32 - (now - beforeSleep)).toInt32
    mpAllocLoop w t (if time < 0 then 0 else time) beforeSleep tick
  else mpAllocLoop w t time beforeSleep tick

/-- `None` is a block of another pool. -/
def rtMpFree (block : UInt32) : Option (MpWorld T) :=
  if block = 0 then some w
  else
    let blockPtr := block - 4
    if w.load blockPtr = w.addr then
      let w := (w.store blockPtr w.mp.blockList).setFree (w.mp.blockFreeCount + 1) blockPtr
      let w := { w with live := w.live.erase block }
      match w.waits.list () with
      | [] => some w
      | t :: _ => some { w with waits := rtThreadResume (w.waits.setError t .ok) t }
    else none

/-- What can happen next: a thread enters `rt_mp_alloc` or goes on in it, a live block is given back or written
to by its owner, or a thread timer expires. The tick counts of a step are arbitrary. -/
inductive MpAction (T : Type) where
  | alloc (t : T) (time : Int32) (tick : UInt32)
  | woken (t : T) (now tick : UInt32)
  | free (block : UInt32)
  | write (a : Nat) (byte : UInt8)
  | timeout (t : T)

def MpWorld.Permits : MpAction T → Prop
  | .alloc t _ _ => (w.waits.thread t).suspended = false ∧ w.call t = .idle
  | .woken t _ _ => (w.waits.thread t).suspended = false ∧ w.call t ≠ .idle
  | .free block => block ∈ w.live
  | .write a _ => ∃ block ∈ w.live, block.toNat ≤ a ∧ a < block.toNat + w.mp.blockSize.toNat
  | .timeout t => (w.waits.thread t).suspended ∧ (w.waits.thread t).timer

def mpPerform : MpAction T → Option (MpWorld T × Option MpEvent)
  | .alloc t time tick => rtMpAlloc w t time tick
  | .woken t now tick =>
    match w.call t with
    | .waiting time beforeSleep => mpAllocWoken w t time beforeSleep now tick
    | .idle => some (w, none)
  | .free block => (rtMpFree w block).map fun w => (w, none)
  | .write a byte => some ({ w with mem := Function.update w.mem a byte }, none)
  | .timeout t => some ({ w with waits := threadTimeout w.waits t }, none)

end

/-! ## Free and live blocks -/

/-- The block with index `k`. -/
def place (start stride : UInt32) (k : Nat) : UInt32 := start + UInt32.ofNat k * stride

/-- The first `total` blocks lie in front of `limit`. -/
structure Geometry (start stride : UInt32) (total limit : Nat) : Prop where
  positive : 0 < start.toNat
  wide : 4 ≤ stride.toNat
  fits : start.toNat + total * stride.toNat ≤ limit
  word : limit ≤ 2 ^ 32

section
variable {start stride : UInt32} {total limit j k : Nat}

theorem succ_mul_le (less : k < total) (stride : Nat) : k * stride + stride ≤ total * stride := by
  have le : (k + 1) * stride ≤ total * stride := Nat.mul_le_mul_right stride less
  rwa [Nat.succ_mul] at le

section
variable (geometry : Geometry start stride total limit)
include geometry

theorem Geometry.place_toNat (less : k < total) :
    (place start stride k).toNat = start.toNat + k * stride.toNat := by
  obtain ⟨positive, wide, fits, word⟩ := geometry
  have room := succ_mul_le less stride.toNat
  have index : k ≤ k * stride.toNat := Nat.le_mul_of_pos_right k (by omega)
  have own : (UInt32.ofNat k).toNat = k := UInt32.toNat_ofNat_of_lt' (by rw [UInt32.size]; omega)
  rw [place, UInt32.toNat_add, UInt32.toNat_mul, own, Nat.mod_eq_of_lt (a := k * stride.toNat) (by omega),
    Nat.mod_eq_of_lt (by omega)]

theorem Geometry.inside (less : k < total) :
    start.toNat ≤ (place start stride k).toNat ∧ (place start stride k).toNat + stride.toNat ≤ limit := by
  have room := succ_mul_le less stride.toNat
  have fits := geometry.fits
  rw [geometry.place_toNat less]
  omega

theorem Geometry.behind (before : j < k) (less : k < total) :
    (place start stride j).toNat + stride.toNat ≤ (place start stride k).toNat := by
  have room := succ_mul_le before stride.toNat
  rw [geometry.place_toNat less, geometry.place_toNat (Nat.lt_trans before less)]
  omega

theorem Geometry.apart (lessJ : j < total) (lessK : k < total)
    (differ : j ≠ k) : (place start stride j).toNat + stride.toNat ≤ (place start stride k).toNat ∨
      (place start stride k).toNat + stride.toNat ≤ (place start stride j).toNat := by
  rcases Nat.lt_or_gt_of_ne differ with before | behind
  · exact Or.inl (geometry.behind before lessK)
  · exact Or.inr (geometry.behind behind lessJ)

theorem Geometry.injective (lessJ : j < total) (lessK : k < total)
    (same : place start stride j = place start stride k) : j = k := by
  by_contra differ
  have wide := geometry.wide
  have apart := geometry.apart lessJ lessK differ
  rw [same] at apart
  omega

end

end

def Mempool.places (mp : Mempool) : List UInt32 :=
  (List.range mp.blockTotalCount.toNat).map (place mp.startAddress mp.stride)

def Mempool.limit (mp : Mempool) : Nat := mp.startAddress.toNat + mp.size.toNat

def Mempool.Fits (mp : Mempool) : Prop := Geometry mp.startAddress mp.stride mp.blockTotalCount.toNat mp.limit

section
variable {mp : Mempool} {p q : UInt32} {mem : Nat → UInt8}

theorem mem_places : p ∈ mp.places ↔ ∃ k < mp.blockTotalCount.toNat, place mp.startAddress mp.stride k = p := by
  simp [Mempool.places]

theorem Mempool.Fits.nodup (fits : mp.Fits) : mp.places.Nodup := by
  apply List.Nodup.map_on _ List.nodup_range
  intro j below k below' same
  exact fits.injective (List.mem_range.mp below) (List.mem_range.mp below') same

section
variable (fits : mp.Fits) (member : p ∈ mp.places)
include fits member

theorem Mempool.Fits.inside :
    mp.startAddress.toNat ≤ p.toNat ∧ p.toNat + mp.stride.toNat ≤ mp.limit := by
  obtain ⟨k, less, rfl⟩ := mem_places.mp member
  exact Geometry.inside fits less

theorem Mempool.Fits.apart (member' : q ∈ mp.places) (differ : p ≠ q) :
    p.toNat + mp.stride.toNat ≤ q.toNat ∨ q.toNat + mp.stride.toNat ≤ p.toNat := by
  obtain ⟨j, lessJ, rfl⟩ := mem_places.mp member
  obtain ⟨k, lessK, rfl⟩ := mem_places.mp member'
  exact Geometry.apart fits lessJ lessK fun same => differ (by rw [same])

theorem Mempool.Fits.ne_zero : p ≠ 0 := by
  rintro rfl
  have low := (fits.inside member).1
  have positive := fits.positive
  rw [UInt32.toNat_zero] at low
  omega

theorem Mempool.Fits.load_store (member' : q ∈ mp.places) (differ : q ≠ p)
    (value : UInt32) : load32 (store32 mem p.toNat value) q.toNat = load32 mem q.toNat := by
  have wide := fits.wide
  have apart := fits.apart member' member differ
  apply load32_apart
  omega

end

end

/-- `RT_NULL` is 0. -/
def ptr (value : UInt32) : Option UInt32 := if value = 0 then none else some value

variable {T : Type} {w : MpWorld T} {chain : List UInt32} {a : UInt32}

def MpWorld.next (w : MpWorld T) (a : UInt32) : Option UInt32 := ptr (w.load a)

/-- `chain` is the free chain, and with the live blocks it makes up the pool. -/
structure MpWorld.Holds (w : MpWorld T) (chain : List UInt32) : Prop where
  fits : w.mp.Fits
  stride : w.mp.stride.toNat = w.mp.blockSize.toNat + 4
  links : Segment w.next (ptr w.mp.blockList) chain none
  count : chain.length = w.mp.blockFreeCount.toNat
  blocks : (chain ++ w.live.map (· - 4)).Perm w.mp.places
  headers : ∀ block ∈ w.live, w.load (block - 4) = w.addr
  stores : ∀ a ∈ w.stores, a ∈ w.mp.places

namespace MpWorld.Holds

variable (holds : w.Holds chain)
include holds

theorem nodup : (chain ++ w.live.map (· - 4)).Nodup := holds.blocks.nodup_iff.mpr holds.fits.nodup

theorem chain_place (member : a ∈ chain) : a ∈ w.mp.places := holds.blocks.subset (List.mem_append_left _ member)

theorem live_place {block : UInt32} (member : block ∈ w.live) : block - 4 ∈ w.mp.places :=
  holds.blocks.subset (List.mem_append_right _ (List.mem_map_of_mem member))

theorem live_out {block : UInt32} (member : block ∈ w.live) : block - 4 ∉ chain := by
  intro inside
  exact (List.nodup_append.mp holds.nodup).2.2 _ inside _ (List.mem_map_of_mem member) rfl

theorem nil_iff : w.mp.blockFreeCount = 0 ↔ chain = [] := by
  rw [eq_zero_iff, ← holds.count, List.length_eq_zero_iff]

end MpWorld.Holds

end RtThread.Pools
