import RtThread.Kservice.Truncation
import RtThread.Lib.Word
import Mathlib.Data.List.GetD

/-! What `rt_kprintf` hands to the console device. -/

set_option autoImplicit false
namespace RtThread.Kservice

def rtConsolebufSize : UInt32 := 128

/-- `length`, adjusted to the buffer -/
def clip (length : UInt32) : UInt32 := if length > rtConsolebufSize - 1 then rtConsolebufSize - 1 else length

/-- `rt_kprintf` with a console device: what it returns, and the bytes for `rt_device_write`. -/
def rtKprintf (rtLogBuf : UInt32) (fmt : CString) (args : VaList) (memory : Memory) : Int32 × List UInt8 :=
  let printed := rtVsnprintf rtLogBuf (rtConsolebufSize - 1) fmt args memory
  let length := clip printed.ret.toUInt32
  (length.toInt32, (List.range length.toNat).map fun i => printed.memory (rtLogBuf + UInt32.ofNat i))

/-- The device gets the first characters of the output, up to a capacity, and their number is returned. -/
def Hands (capacity : Nat) (rtLogBuf : UInt32) (fmt : CString) (args : VaList) : Prop :=
  ∀ memory, (rtKprintf rtLogBuf fmt args memory).2 = (complete args fmt).take capacity ∧
    (rtKprintf rtLogBuf fmt args memory).1.toInt = (rtKprintf rtLogBuf fmt args memory).2.length

variable {rtLogBuf : UInt32} {fmt : CString} {args : VaList} {memory : Memory}

/-- A NUL stands behind the last character that fits, unless the cursor has passed the end of the address space. -/
theorem logBuf_byte (place : rtLogBuf.toNat + 128 ≤ 2 ^ 32) (short : (complete args fmt).length < 2 ^ 32) {i : Nat}
    (inside : i < 127) :
    (rtVsnprintf rtLogBuf 127 fmt args memory).memory (rtLogBuf + UInt32.ofNat i) =
      if i = min (complete args fmt).length 126 ∧ rtLogBuf.toNat + (complete args fmt).length < 2 ^ 32 then 0
      else (complete args fmt).getD i (memory (rtLogBuf + UInt32.ofNat i)) := by
  have size : (127 : UInt32).toNat = 127 := rfl
  obtain ⟨limit, usable⟩ := @limit_flat rtLogBuf 127 (by rw [size]; omega)
  have a : (rtLogBuf + UInt32.ofNat i).toNat = rtLogBuf.toNat + i := by
    rw [UInt32.toNat_add, UInt32.toNat_ofNat']
    omega
  have index : (rtLogBuf + UInt32.ofNat i - rtLogBuf).toNat = i := by
    rw [UInt32.toNat_sub, a]
    omega
  have one : (limitOf rtLogBuf 127 - 1).toNat = rtLogBuf.toNat + 126 := by
    rw [UInt32.toNat_sub, limit, size, UInt32.toNat_one]
    omega
  have front : rtLogBuf + UInt32.ofNat i < limitOf rtLogBuf 127 := by
    rw [UInt32.lt_iff_toNat_lt, a, limit, size]
    omega
  rw [printed_memory memory short, usable, a, index, one, limit, size, if_pos front]
  refine if_congr ?_ rfl rfl
  split <;> omega

/-- What is handed over: as many bytes as there are characters, but at most 127. -/
theorem handed_eq (place : rtLogBuf.toNat + 128 ≤ 2 ^ 32) (short : (complete args fmt).length < 2 ^ 32) :
    (rtKprintf rtLogBuf fmt args memory).2 =
        (List.range (min (complete args fmt).length 127)).map (fun i =>
          if i = 126 ∧ rtLogBuf.toNat + (complete args fmt).length < 2 ^ 32 then 0 else (complete args fmt).getD i 0) ∧
      (rtKprintf rtLogBuf fmt args memory).1.toInt = (rtKprintf rtLogBuf fmt args memory).2.length := by
  have length : (clip (rtVsnprintf rtLogBuf 127 fmt args memory).ret.toUInt32).toNat =
      min (complete args fmt).length 127 := by
    have ret : (rtVsnprintf rtLogBuf 127 fmt args memory).ret.toUInt32 = UInt32.ofNat (complete args fmt).length := by
      simp only [rtVsnprintf, format_complete, foldl_put_str]
      rw [UInt32.add_comm, UInt32.add_sub_cancel, UInt32.toUInt32_toInt32]
    rw [ret, clip, Lib.min_toNat, UInt32.toNat_ofNat_of_lt' short]
    exact Nat.min_comm _ _
  unfold rtKprintf
  rw [show rtConsolebufSize - 1 = 127 from rfl]
  dsimp only
  rw [List.length_map, List.length_range]
  generalize clip (rtVsnprintf rtLogBuf 127 fmt args memory).ret.toUInt32 = n at length ⊢
  refine ⟨?_, ?_⟩
  · rw [length]
    refine List.map_congr_left fun i inside => ?_
    have less := List.mem_range.mp inside
    rw [logBuf_byte place short (by omega)]
    by_cases last : i = 126 ∧ rtLogBuf.toNat + (complete args fmt).length < 2 ^ 32
    · rw [if_pos last, if_pos ⟨by omega, last.2⟩]
    · rw [if_neg last, if_neg fun both => last ⟨by omega, both.2⟩, List.getD_eq_getElem _ _ (by omega),
        List.getD_eq_getElem _ _ (by omega)]
  · exact BitVec.toInt_eq_toNat_of_lt (show 2 * n.toNat < 2 ^ 32 by omega)

/-- The bytes are right just if there are at most 126, or if the capacity is reached at 127 and the last of them is a
NUL, as the terminator is. -/
theorem kprintf_hands_iff (capacity : Nat) (rtLogBuf : UInt32) (fmt : CString) (args : VaList) (least : 126 ≤ capacity)
    (place : rtLogBuf.toNat + 128 ≤ 2 ^ 32) (short : (complete args fmt).length < 2 ^ 32) :
    Hands capacity rtLogBuf fmt args ↔ (complete args fmt).length ≤ 126 ∨
      min capacity (complete args fmt).length = 127 ∧
        ((complete args fmt).getD 126 1 = 0 ∨ 2 ^ 32 ≤ rtLogBuf.toNat + (complete args fmt).length) := by
  have text (i : Nat) : (complete args fmt)[i]? =
      if i < (complete args fmt).length then some ((complete args fmt).getD i 0) else none := by
    split
    next less => rw [List.getElem?_eq_getElem less, List.getD_eq_getElem _ _ less]
    next out => exact List.getElem?_eq_none (Nat.le_of_not_lt out)
  have bytes (memory : Memory) (i : Nat) : (rtKprintf rtLogBuf fmt args memory).2[i]? =
      if i < min (complete args fmt).length 127 then
        some (if i = 126 ∧ rtLogBuf.toNat + (complete args fmt).length < 2 ^ 32 then 0 else (complete args fmt).getD i 0)
      else none := by
    rw [(handed_eq place short).1, List.getElem?_map]
    split
    next less => rw [List.getElem?_range less]; rfl
    next out => rw [List.getElem?_eq_none (by rw [List.length_range]; omega)]; rfl
  constructor
  · intro hands
    obtain ⟨same, -⟩ := hands fun _ => 0
    by_contra long
    have size := congrArg List.length same
    rw [(handed_eq place short).1, List.length_map, List.length_range, List.length_take] at size
    have last := congrArg (·[126]?) same
    have fits : 126 < capacity ∧ 126 < (complete args fmt).length := by omega
    rw [bytes, List.getElem?_take, text, if_pos fits.1, if_pos fits.2, if_pos (lt_min fits.2 (by decide)),
      Option.some.injEq] at last
    refine long (Or.inr ⟨by omega, ?_⟩)
    by_cases wraps : rtLogBuf.toNat + (complete args fmt).length < 2 ^ 32
    · rw [if_pos ⟨rfl, wraps⟩, List.getD_eq_getElem _ _ (by omega)] at last
      rw [List.getD_eq_getElem _ _ (by omega)]
      exact Or.inl last.symm
    · exact Or.inr (Nat.le_of_not_lt wraps)
  · intro right memory
    refine ⟨List.ext_getElem? fun i => ?_, (handed_eq place short).2⟩
    rw [bytes, List.getElem?_take, text]
    by_cases inside : i < min (complete args fmt).length 127
    · have fits : i < capacity ∧ i < (complete args fmt).length := by omega
      rw [if_pos inside, if_pos fits.1, if_pos fits.2, Option.some.injEq]
      split
      next last =>
        obtain few | ⟨-, nul | wraps⟩ := right
        · omega
        · rw [List.getD_eq_getElem _ _ (last.1 ▸ fits.2)] at nul
          rw [last.1, List.getD_eq_getElem _ _ (last.1 ▸ fits.2), nul]
        · omega
      next => rfl
    · rw [if_neg inside]
      split
      · exact (if_neg (by omega)).symm
      · rfl

/-- `"%c"` -/
def oneChar : CString := ⟨"%c".toList.map Char.toUInt8, by decide⟩

/-- `"%127c"` -/
def wideChar : CString := ⟨"%127c".toList.map Char.toUInt8, by decide⟩

def letterArgs : VaList := ⟨fun _ => 65, fun _ => ⟨[], nul_not_mem_nil⟩⟩

theorem kprintf_hands_char : Hands 126 0x20000000 oneChar letterArgs :=
  (kprintf_hands_iff 126 0x20000000 oneChar letterArgs (by decide) (by decide) (by decide +kernel)).mpr
    (Or.inl (by decide +kernel))

theorem kprintf_hands_nul : ¬∃ capacity, 126 ≤ capacity ∧ Hands capacity 0x20000000 wideChar letterArgs := by
  rintro ⟨capacity, least, hands⟩
  have size : (complete letterArgs wideChar).length = 127 := by decide +kernel
  have last : (complete letterArgs wideChar).getD 126 1 = 65 := by decide +kernel
  rw [kprintf_hands_iff capacity 0x20000000 wideChar letterArgs least (by decide) (by rw [size]; decide), size, last] at hands
  rcases hands with few | ⟨-, nul | wraps⟩
  · omega
  · cases nul
  · exact absurd wraps (by decide)

end RtThread.Kservice
