import RtThread.Flash.OnChip
import Mathlib.Algebra.Ring.Int.Defs
import Mathlib.Data.List.Forall2

/-! The partition layer of FAL: the table check of fal_partition_init and the bounds checks of
fal_partition_read, fal_partition_write and fal_partition_erase. -/

set_option autoImplicit false
namespace RtThread.Flash

def falDevNameMax : Nat := 24

inductive FlashOp where | read | write | erase
  deriving DecidableEq, Repr

structure FalFlashDev where
  name : List Char
  len : UInt32
  blkSize : UInt32
  -- what the device's operation returns for an offset and a size
  ops : FlashOp → Int32 → UInt32 → Int

structure FalPartition where
  name : List Char
  flashName : List Char
  offset : Int32
  len : UInt32

def falFlashDeviceFind (devices : List FalFlashDev) (name : List Char) : Option FalFlashDev :=
  devices.find? fun dev => name.take falDevNameMax == dev.name.take falDevNameMax

def checkAndUpdatePartCache (devices : List FalFlashDev) :
    List FalPartition → Option (List (Option FalFlashDev))
  | [] => some []
  | part :: rest =>
    match falFlashDeviceFind devices part.flashName with
    | none => (checkAndUpdatePartCache devices rest).map (none :: ·)
    | some dev =>
      if part.offset ≥ dev.len.toInt32 then none
      else (checkAndUpdatePartCache devices rest).map (some dev :: ·)

def Checked (devices : List FalFlashDev) (part : FalPartition) (cached : Option FalFlashDev) : Prop :=
  cached = falFlashDeviceFind devices part.flashName ∧
    ∀ dev, cached = some dev → part.offset < dev.len.toInt32

theorem checkAndUpdatePartCache_checked (devices : List FalFlashDev) (table : List FalPartition)
    (cache : List (Option FalFlashDev)) (accepted : checkAndUpdatePartCache devices table = some cache) :
    List.Forall₂ (Checked devices) table cache := by
  induction table generalizing cache with
  | nil =>
    cases accepted
    exact List.Forall₂.nil
  | cons part rest ih =>
    rw [checkAndUpdatePartCache] at accepted
    cases found : falFlashDeviceFind devices part.flashName with
    | none =>
      simp only [found, Option.map_eq_some_iff] at accepted
      obtain ⟨tail, below, rfl⟩ := accepted
      exact List.Forall₂.cons ⟨found.symm, by simp⟩ (ih tail below)
    | some dev =>
      simp only [found] at accepted
      by_cases out : part.offset ≥ dev.len.toInt32
      · rw [if_pos out] at accepted
        cases accepted
      · rw [if_neg out, Option.map_eq_some_iff] at accepted
        obtain ⟨tail, below, rfl⟩ := accepted
        have inside : part.offset < dev.len.toInt32 := Int32.not_le.mp out
        exact List.Forall₂.cons ⟨found.symm, by rintro _ ⟨⟩; exact inside⟩ (ih tail below)

structure Fal (devices : List FalFlashDev) where
  table : List FalPartition
  cache : List (Option FalFlashDev)
  checked : List.Forall₂ (Checked devices) table cache

def falPartitionInit (devices : List FalFlashDev) (table : List FalPartition) : Option (Fal devices) :=
  match accepted : checkAndUpdatePartCache devices table with
  | none => none
  | some cache => some ⟨table, cache, checkAndUpdatePartCache_checked devices table cache accepted⟩

section requests
variable {devices : List FalFlashDev} (fal : Fal devices)

abbrev Fal.Part := Fin fal.table.length

def Fal.part (i : fal.Part) : FalPartition := fal.table[i]

def flashDeviceFindByPart (i : fal.Part) : Option FalFlashDev :=
  fal.cache.get (i.cast fal.checked.length_eq)

structure FlashCall where
  dev : FalFlashDev
  op : FlashOp
  offset : Int32
  size : UInt32

structure Served where
  ret : Int
  calls : List FlashCall

def falPartitionOp (op : FlashOp) (i : fal.Part) (addr size : UInt32) : Served :=
  if addr + size > (fal.part i).len then ⟨-1, []⟩
  else
    match flashDeviceFindByPart fal i with
    | none => ⟨-1, []⟩
    | some dev =>
      let offset := ((fal.part i).offset.toUInt32 + addr).toInt32
      ⟨dev.ops op offset size, [⟨dev, op, offset, size⟩]⟩

def falPartitionRead (i : fal.Part) (addr size : UInt32) : Served :=
  falPartitionOp fal .read i addr size

def falPartitionWrite (i : fal.Part) (addr size : UInt32) : Served :=
  falPartitionOp fal .write i addr size

def falPartitionErase (i : fal.Part) (addr size : UInt32) : Served :=
  falPartitionOp fal .erase i addr size

def falPartitionEraseAll (i : fal.Part) : Served :=
  falPartitionErase fal i 0 (fal.part i).len

def falPartitionFind (name : List Char) : Option fal.Part :=
  (List.finRange fal.table.length).find? fun i => (fal.part i).name == name

def FlashCall.bytes (call : FlashCall) : Set Int :=
  {b | call.offset.toInt ≤ b ∧ b < call.offset.toInt + call.size.toNat}

def FlashCall.Inside (call : FlashCall) (part : FalPartition) : Prop :=
  ∀ b ∈ call.bytes, (part.offset.toInt ≤ b ∧ b < part.offset.toInt + part.len.toNat) ∧
    0 ≤ b ∧ b < call.dev.len.toNat

def Served.Contained (served : Served) (part : FalPartition) : Prop :=
  ∀ call ∈ served.calls, call.Inside part

/-- When a request of the partition layer reaches no device or only its own bytes: it is refused,
has no device, is empty, or its sum does not wrap and its bytes are a range of the device that a
`long` can name. -/
def Fits (i : fal.Part) (addr size : UInt32) : Prop :=
  (fal.part i).len < addr + size ∨ size = 0 ∨
    ∀ dev, flashDeviceFindByPart fal i = some dev →
      addr.toNat + size.toNat < 2 ^ 32 ∧ 0 ≤ (fal.part i).offset.toInt + addr.toNat ∧
        (fal.part i).offset.toInt + addr.toNat < 2 ^ 31 ∧
        (fal.part i).offset.toInt + addr.toNat + size.toNat ≤ dev.len.toNat

theorem asInt_eq (n : UInt32) :
    asInt n = if n.toNat < 2 ^ 31 then (n.toNat : Int) else n.toNat - 2 ^ 32 := by
  have value : asInt n = n.toBitVec.toInt := rfl
  have number : n.toBitVec.toNat = n.toNat := rfl
  rw [value, BitVec.toInt_eq_toNat_cond, number]
  split_ifs <;> omega

theorem falPartitionOp_refused (op : FlashOp) (i : fal.Part) (addr size : UInt32)
    (refused : (fal.part i).len < addr + size ∨ flashDeviceFindByPart fal i = none) :
    falPartitionOp fal op i addr size = ⟨-1, []⟩ := by
  rw [falPartitionOp]
  rcases refused with out | missing
  · rw [if_pos out]
  · simp only [missing, ite_self]

theorem falPartitionOp_served (op : FlashOp) (i : fal.Part) (addr size : UInt32) (dev : FalFlashDev)
    (accepted : ¬(fal.part i).len < addr + size) (found : flashDeviceFindByPart fal i = some dev) :
    (falPartitionOp fal op i addr size).calls =
      [⟨dev, op, ((fal.part i).offset.toUInt32 + addr).toInt32, size⟩] := by
  rw [falPartitionOp, if_neg accepted]
  simp only [found]

end requests

end RtThread.Flash
