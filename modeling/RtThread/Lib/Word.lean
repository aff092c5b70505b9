import Mathlib.Data.UInt

/-! Unsigned words of 16 and 32 bits as natural numbers, and those of 32 bits in a memory of bytes. -/

set_option autoImplicit false
namespace RtThread.Lib

theorem sub_toNat {a b : UInt32} (le : b.toNat ≤ a.toNat) : (a - b).toNat = a.toNat - b.toNat :=
  UInt32.toNat_sub_of_le _ _ (UInt32.le_iff_toNat_le.mpr le)

theorem add_toNat {a b : UInt32} (word : a.toNat + b.toNat < 2 ^ 32) : (a + b).toNat = a.toNat + b.toNat := by
  rw [UInt32.toNat_add]
  exact Nat.mod_eq_of_lt word

theorem eq_zero_iff {value : UInt32} : value = 0 ↔ value.toNat = 0 := by
  rw [← UInt32.toNat_inj]
  rfl

theorem min_toNat {a b : UInt32} : (if a < b then a else b).toNat = min a.toNat b.toNat := by
  split
  case isTrue less => exact (Nat.min_eq_left (Nat.le_of_lt (UInt32.lt_iff_toNat_lt.mp less))).symm
  case isFalse more =>
    have le : b.toNat ≤ a.toNat := Nat.le_of_not_lt fun less => more (UInt32.lt_iff_toNat_lt.mpr less)
    exact (Nat.min_eq_right le).symm

theorem uint16_succ {a b : UInt16} (less : a.toNat < b.toNat) : (a + 1).toNat = a.toNat + 1 := by
  have bound := b.toNat_lt
  have one : (1 : UInt16).toNat = 1 := rfl
  rw [UInt16.toNat_add, one, Nat.mod_eq_of_lt (by omega)]

theorem uint16_pred {a : UInt16} (positive : 0 < a.toNat) : (a - 1).toNat = a.toNat - 1 := by
  have bound := a.toNat_lt
  have one : (1 : UInt16).toNat = 1 := rfl
  rw [UInt16.toNat_sub, one]
  omega

theorem uint16_pos {a : UInt16} : a > 0 ↔ 0 < a.toNat := UInt16.lt_iff_toNat_lt

/-! ## In a memory of bytes, the low byte first -/

def load32 (mem : Nat → UInt8) (a : Nat) : UInt32 :=
  UInt32.ofNat ((mem a).toNat + 256 * (mem (a + 1)).toNat + 65536 * (mem (a + 2)).toNat + 16777216 * (mem (a + 3)).toNat)

def byteOf (value : UInt32) (k : Nat) : UInt8 := UInt8.ofNat (value.toNat / 256 ^ k)

def store32 (mem : Nat → UInt8) (a : Nat) (value : UInt32) : Nat → UInt8 :=
  fun b => if a ≤ b ∧ b < a + 4 then byteOf value (b - a) else mem b

variable {mem mem' : Nat → UInt8} {a b : Nat} {value : UInt32}

theorem load32_congr (same : ∀ k < 4, mem' (a + k) = mem (a + k)) : load32 mem' a = load32 mem a := by
  have zero := same 0 (by omega)
  rw [Nat.add_zero] at zero
  rw [load32, load32, zero, same 1 (by omega), same 2 (by omega), same 3 (by omega)]

theorem store32_other (out : b < a ∨ a + 4 ≤ b) : store32 mem a value b = mem b := by
  rw [store32, if_neg]
  omega

theorem byteOf_toNat (k : Nat) : (byteOf value k).toNat = value.toNat / 256 ^ k % 256 :=
  UInt8.toNat_ofNat'

theorem load32_store32 : load32 (store32 mem a value) a = value := by
  have byte : ∀ k < 4, store32 mem a value (a + k) = byteOf value k := by
    intro k less
    rw [store32, if_pos (by omega), Nat.add_sub_cancel_left]
  have zero := byte 0 (by omega)
  rw [Nat.add_zero] at zero
  have word := value.toNat_lt
  apply UInt32.toNat.inj
  rw [load32, zero, byte 1 (by omega), byte 2 (by omega), byte 3 (by omega)]
  simp only [byteOf_toNat, UInt32.toNat_ofNat']
  omega

theorem byteOf_load32 {k : Nat} (less : k < 4) : byteOf (load32 mem a) k = mem (a + k) := by
  have zero := (mem a).toNat_lt
  have one := (mem (a + 1)).toNat_lt
  have two := (mem (a + 2)).toNat_lt
  have three := (mem (a + 3)).toNat_lt
  apply UInt8.toNat.inj
  rw [byteOf_toNat, load32, UInt32.toNat_ofNat']
  obtain rfl | rfl | rfl | rfl : k = 0 ∨ k = 1 ∨ k = 2 ∨ k = 3 := by omega
  · simp only [Nat.add_zero, Nat.pow_zero, Nat.div_one]
    omega
  all_goals omega

theorem store32_bytes : store32 mem a value =
    Function.update (Function.update (Function.update (Function.update mem a (byteOf value 0)) (a + 1) (byteOf value 1))
      (a + 2) (byteOf value 2)) (a + 3) (byteOf value 3) := by
  funext b
  rw [store32]
  simp only [Function.update_apply]
  split
  case isTrue inside =>
    obtain rfl | rfl | rfl | rfl : b = a ∨ b = a + 1 ∨ b = a + 2 ∨ b = a + 3 := by omega
    all_goals simp
  case isFalse out =>
    rw [if_neg (by omega), if_neg (by omega), if_neg (by omega), if_neg (by omega)]

theorem load32_apart (apart : b + 4 ≤ a ∨ a + 4 ≤ b) : load32 (store32 mem a value) b = load32 mem b :=
  load32_congr fun k less => store32_other (by omega)

end RtThread.Lib
