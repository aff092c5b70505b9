import RtThread.Lib.Word

/-! `rt_memset`, `rt_memcpy` and `rt_memmove` of `kservice.c`, word by word and byte by byte. A long has four bytes. -/

set_option autoImplicit false
namespace RtThread.Kservice.Bytewise
open Lib
open Function (update update_of_ne update_self)

abbrev Memory := Nat → UInt8

/-- `a + i` for a pointer to bytes -/
def offset (a : UInt32) (i : Nat) : UInt32 := a + UInt32.ofNat i

/-! ## The functions -/

/-- `while (count >= size) { body; count -= size; }` -/
def whileBlocks {S : Type} (size : Nat) (body : S → S) (s : S) (count : Nat) : S × Nat :=
  if 0 < size ∧ size ≤ count then whileBlocks size body (body s) (count - size) else (s, count)
termination_by count

/-- `*m++ = d` for bytes -/
def setByte (d : UInt8) (s : UInt32 × Memory) : UInt32 × Memory := (s.1 + 1, Function.update s.2 s.1.toNat d)

/-- `*aligned_addr++ = buffer` -/
def setWord (buffer : UInt32) (s : UInt32 × Memory) : UInt32 × Memory := (s.1 + 4, store32 s.2 s.1.toNat buffer)

/-- `rt_memset` with RT_KSERVICE_USING_TINY_SIZE -/
def rtMemsetTiny (mem : Memory) (s : UInt32) (c : Int32) (count : UInt32) : Memory :=
  ((setByte c.toUInt32.toUInt8)^[count.toNat] (s, mem)).2

def rtMemset (mem : Memory) (s : UInt32) (c : Int32) (count : UInt32) : Memory :=
  let d := (c.toUInt32 &&& 255).toUInt8
  if ¬count < 4 ∧ s &&& 3 = 0 then
    let buffer := load32 ((setByte d)^[4] (0, fun _ => 0)).2 0
    let big := whileBlocks 16 (fun s => setWord buffer (setWord buffer (setWord buffer (setWord buffer s)))) (s, mem)
      count.toNat
    let little := whileBlocks 4 (setWord buffer) big.1 big.2
    ((setByte d)^[little.2] little.1).2
  else ((setByte d)^[count.toNat] (s, mem)).2

structure Copy where
  dst : UInt32
  src : UInt32
  mem : Memory

/-- `*dst++ = *src++` for bytes -/
def copyByte (s : Copy) : Copy where
  dst := s.dst + 1
  src := s.src + 1
  mem := Function.update s.mem s.dst.toNat (s.mem s.src.toNat)

/-- `*aligned_dst++ = *aligned_src++` -/
def copyWord (s : Copy) : Copy where
  dst := s.dst + 4
  src := s.src + 4
  mem := store32 s.mem s.dst.toNat (load32 s.mem s.src.toNat)

/-- `*(--tmp) = *(--s)` -/
def copyByteDown (s : Copy) : Copy where
  dst := s.dst - 1
  src := s.src - 1
  mem := Function.update s.mem (s.dst - 1).toNat (s.mem (s.src - 1).toNat)

def rtMemcpy (mem : Memory) (dst src count : UInt32) : Memory :=
  if ¬count < 16 ∧ (src &&& 3) ||| (dst &&& 3) = 0 then
    let big := whileBlocks 16 (fun s => copyWord (copyWord (copyWord (copyWord s)))) ⟨dst, src, mem⟩ count.toNat
    let little := whileBlocks 4 copyWord big.1 big.2
    (copyByte^[little.2] little.1).mem
  else (copyByte^[count.toNat] ⟨dst, src, mem⟩).mem

/-- `tmp[len - 1] = s[len - 1]` for `len` from the count down to 1 -/
def copyDown (tmp s : UInt32) : Nat → Memory → Memory
  | 0, mem => mem
  | len + 1, mem => copyDown tmp s len (Function.update mem (offset tmp len).toNat (mem (offset s len).toNat))

/-- `rt_memcpy` with RT_KSERVICE_USING_TINY_SIZE -/
def rtMemcpyTiny (mem : Memory) (dst src count : UInt32) : Memory :=
  if dst ≤ src ∨ dst > src + count then (copyByte^[count.toNat] ⟨dst, src, mem⟩).mem
  else copyDown dst src count.toNat mem

def rtMemmove (mem : Memory) (dest src n : UInt32) : Memory :=
  if src < dest ∧ dest < src + n then (copyByteDown^[n.toNat] ⟨dest + n, src + n, mem⟩).mem
  else (copyByte^[n.toNat] ⟨dest, src, mem⟩).mem

/-! ## Words are bytes -/

variable {mem mem' : Memory} {dst src : UInt32} {n : Nat}

theorem whileBlocks_eq {S : Type} {size : Nat} (some : 0 < size) (body : S → S) (s : S) (count : Nat) :
    whileBlocks size body s count = (body^[count / size] s, count % size) := by
  fun_induction whileBlocks size body s count with
  | case1 s count more ih =>
    rw [ih, Nat.div_eq_sub_div some more.2, Function.iterate_succ_apply, Nat.mod_eq_sub_mod more.2]
  | case2 s count less =>
    have less : count < size := by omega
    rw [Nat.div_eq_of_lt less, Nat.mod_eq_of_lt less]
    rfl

/-- Both loops over words, and the one over bytes behind them, if a word is four bytes wherever the loops come. -/
theorem blocks_eq {S : Type} {word byte : S → S} (Good : S → Prop) (four : ∀ s, Good s → word s = byte^[4] s)
    (kept : ∀ s, Good s → Good (word s)) {s : S} (good : Good s) (count : Nat) :
    byte^[(whileBlocks 4 word (whileBlocks 16 (fun s => word (word (word (word s)))) s count).1
        (whileBlocks 16 (fun s => word (word (word (word s)))) s count).2).2]
      (whileBlocks 4 word (whileBlocks 16 (fun s => word (word (word (word s)))) s count).1
        (whileBlocks 16 (fun s => word (word (word (word s)))) s count).2).1 = byte^[count] s := by
  have words : ∀ k s, Good s → word^[k] s = byte^[4 * k] s := by
    intro k
    induction k with
    | zero => exact fun _ _ => rfl
    | succ k ih =>
      intro s good
      rw [Function.iterate_succ_apply, ih _ (kept s good), four s good, ← Function.iterate_add_apply]
      rfl
  have big : (fun s => word (word (word (word s)))) = word^[4] := rfl
  rw [big]
  simp only [whileBlocks_eq (by decide : 0 < 16), whileBlocks_eq (by decide : 0 < 4)]
  rw [← Function.iterate_mul, ← Function.iterate_add_apply, words _ s good, ← Function.iterate_add_apply]
  congr 1
  omega

def Aligned (a : UInt32) : Prop := a.toNat % 4 = 0

theorem aligned_iff {a : UInt32} : a &&& 3 = 0 ↔ Aligned a := by
  have low := Nat.and_two_pow_sub_one_eq_mod a.toNat 2
  rw [eq_zero_iff, UInt32.toNat_and, Aligned]
  exact iff_of_eq (congrArg (· = 0) low)

theorem Aligned.succ {a : UInt32} (aligned : Aligned a) : Aligned (a + 4) := by
  unfold Aligned at *
  rw [UInt32.toNat_add]
  change (a.toNat + 4) % 2 ^ 32 % 4 = 0
  omega

theorem Aligned.toNat {a : UInt32} (aligned : Aligned a) : (a + 1).toNat = a.toNat + 1 ∧
    (a + 1 + 1).toNat = a.toNat + 2 ∧ (a + 1 + 1 + 1).toNat = a.toNat + 3 := by
  have word := a.toNat_lt
  have one : (1 : UInt32).toNat = 1 := rfl
  unfold Aligned at aligned
  simp only [UInt32.toNat_add, one]
  omega

theorem four_ones (a : UInt32) : a + 1 + 1 + 1 + 1 = a + 4 := by
  rw [UInt32.add_assoc, UInt32.add_assoc, UInt32.add_assoc]
  rfl

theorem setWord_bytes {buffer : UInt32} {d : UInt8} (bytes : ∀ k < 4, byteOf buffer k = d) {s : UInt32 × Memory}
    (aligned : Aligned s.1) : setWord buffer s = (setByte d)^[4] s := by
  obtain ⟨one, two, three⟩ := aligned.toNat
  change (s.1 + 4, store32 s.2 s.1.toNat buffer) = (s.1 + 1 + 1 + 1 + 1, update (update (update
    (update s.2 s.1.toNat d) (s.1 + 1).toNat d) (s.1 + 1 + 1).toNat d) (s.1 + 1 + 1 + 1).toNat d)
  rw [one, two, three, store32_bytes, bytes 0 (by decide), bytes 1 (by decide), bytes 2 (by decide), bytes 3 (by decide),
    four_ones]

theorem copyWord_bytes {s : Copy} (aligned : Aligned s.dst ∧ Aligned s.src) : copyWord s = copyByte^[4] s := by
  obtain ⟨dst, src⟩ := aligned
  obtain ⟨dst₁, dst₂, dst₃⟩ := dst.toNat
  obtain ⟨src₁, src₂, src₃⟩ := src.toNat
  unfold Aligned at dst src
  have mem : store32 s.mem s.dst.toNat (load32 s.mem s.src.toNat) = (copyByte^[4] s).mem := by
    simp only [Function.iterate_succ, Function.iterate_zero, Function.comp, id, copyByte]
    rw [store32_bytes, byteOf_load32 (by decide), byteOf_load32 (by decide), byteOf_load32 (by decide),
      byteOf_load32 (by decide), dst₁, dst₂, dst₃, src₁, src₂, src₃]
    have one : s.src.toNat + 1 ≠ s.dst.toNat := by omega
    have two : s.src.toNat + 2 ≠ s.dst.toNat ∧ s.src.toNat + 2 ≠ s.dst.toNat + 1 := by omega
    have three : s.src.toNat + 3 ≠ s.dst.toNat ∧ s.src.toNat + 3 ≠ s.dst.toNat + 1 ∧
        s.src.toNat + 3 ≠ s.dst.toNat + 2 := by omega
    simp only [update_of_ne one, update_of_ne two.1, update_of_ne two.2,
      update_of_ne three.1, update_of_ne three.2.1, update_of_ne three.2.2, Nat.add_zero]
  have cursors : s.dst + 4 = (copyByte^[4] s).dst ∧ s.src + 4 = (copyByte^[4] s).src :=
    ⟨(four_ones _).symm, (four_ones _).symm⟩
  rw [copyWord, mem, cursors.1, cursors.2]

theorem buffer_byte (d : UInt8) : ∀ k < 4, byteOf (load32 ((setByte d)^[4] (0, fun _ => 0)).2 0) k = d := by
  intro k less
  rw [byteOf_load32 less]
  obtain rfl | rfl | rfl | rfl : k = 0 ∨ k = 1 ∨ k = 2 ∨ k = 3 := by omega
  all_goals rfl

theorem toUInt8_low (c : UInt32) : (c &&& 255).toUInt8 = c.toUInt8 := by
  have low := Nat.and_two_pow_sub_one_eq_mod c.toNat 8
  apply UInt8.toNat.inj
  rw [UInt32.toNat_toUInt8, UInt32.toNat_toUInt8, UInt32.toNat_and]
  change (c.toNat &&& 2 ^ 8 - 1) % 2 ^ 8 = c.toNat % 2 ^ 8
  rw [low, Nat.mod_mod]

theorem rtMemset_eq (mem : Memory) (s : UInt32) (c : Int32) (count : UInt32) :
    rtMemset mem s c count = rtMemsetTiny mem s c count := by
  unfold rtMemset rtMemsetTiny
  rw [toUInt8_low]
  dsimp only
  split
  next large =>
    have bytes := buffer_byte c.toUInt32.toUInt8
    generalize load32 ((setByte c.toUInt32.toUInt8)^[4] (0, fun _ => 0)).2 0 = buffer at bytes ⊢
    exact congrArg Prod.snd (blocks_eq (fun s => Aligned s.1) (fun s aligned => setWord_bytes bytes aligned)
      (fun s aligned => aligned.succ) (aligned_iff.mp large.2) count.toNat)
  next => rfl

theorem rtMemcpy_eq (mem : Memory) (dst src count : UInt32) :
    rtMemcpy mem dst src count = (copyByte^[count.toNat] ⟨dst, src, mem⟩).mem := by
  unfold rtMemcpy
  split
  next large =>
    obtain ⟨src₀, dst₀⟩ := UInt32.or_eq_zero_iff.mp large.2
    exact congrArg Copy.mem (blocks_eq (fun s => Aligned s.dst ∧ Aligned s.src)
      (fun s aligned => copyWord_bytes aligned) (fun s aligned => ⟨aligned.1.succ, aligned.2.succ⟩)
      ⟨aligned_iff.mp dst₀, aligned_iff.mp src₀⟩ count.toNat)
  next => rfl

/-! ## What is written -/

/-- The `n` bytes from `dst` on are those of `f`, and the others are as they were. -/
structure Wrote (mem mem' : Memory) (dst : UInt32) (n : Nat) (f : Nat → UInt8) : Prop where
  byte : ∀ i < n, mem' (offset dst i).toNat = f i
  rest : ∀ a, (∀ i < n, a ≠ (offset dst i).toNat) → mem' a = mem a

theorem offset_zero (a : UInt32) : offset a 0 = a := UInt32.add_zero _

theorem offset_succ (a : UInt32) (i : Nat) : offset (a + 1) i = offset a (i + 1) := by
  unfold offset
  rw [UInt32.ofNat_add, UInt32.add_comm (UInt32.ofNat i), ← UInt32.add_assoc]
  rfl

theorem offset_toNat (a : UInt32) (i : Nat) : (offset a i).toNat = (a.toNat + i) % 2 ^ 32 := by
  rw [offset, UInt32.toNat_add, UInt32.toNat_ofNat', Nat.add_mod_mod]

theorem offset_inj {a : UInt32} {i j : Nat} (less : i < 2 ^ 32) (less' : j < 2 ^ 32)
    (same : (offset a i).toNat = (offset a j).toNat) : i = j := by
  have word := a.toNat_lt
  rw [offset_toNat, offset_toNat] at same
  omega

theorem Wrote.nil (mem : Memory) (dst : UInt32) (f : Nat → UInt8) : Wrote mem mem dst 0 f :=
  ⟨fun _ none => absurd none (Nat.not_lt_zero _), fun _ _ => rfl⟩

theorem Wrote.congr {f g : Nat → UInt8} (wrote : Wrote mem mem' dst n f) (same : ∀ i < n, f i = g i) :
    Wrote mem mem' dst n g :=
  ⟨fun i less => (wrote.byte i less).trans (same i less), wrote.rest⟩

theorem Wrote.unique {f : Nat → UInt8} {mem₁ mem₂ : Memory} (first : Wrote mem mem₁ dst n f)
    (second : Wrote mem mem₂ dst n f) : mem₁ = mem₂ := by
  funext a
  by_cases inside : ∃ i < n, a = (offset dst i).toNat
  · obtain ⟨i, less, rfl⟩ := inside
    rw [first.byte i less, second.byte i less]
  · have out : ∀ i < n, a ≠ (offset dst i).toNat := fun i less same => inside ⟨i, less, same⟩
    rw [first.rest a out, second.rest a out]

theorem Wrote.cons {f : Nat → UInt8} (small : n < 2 ^ 32)
    (wrote : Wrote (update mem dst.toNat (f 0)) mem' (dst + 1) n fun i => f (i + 1)) :
    Wrote mem mem' dst (n + 1) f := by
  refine ⟨fun i less => ?_, fun a out => ?_⟩
  · cases i with
    | zero =>
      rw [wrote.rest _ fun i less same => ?_, offset_zero, update_self]
      rw [offset_succ] at same
      have := offset_inj (by decide) (by omega) same
      omega
    | succ i =>
      have byte := wrote.byte i (Nat.lt_of_succ_lt_succ less)
      rwa [offset_succ] at byte
  · have first := out 0 (Nat.succ_pos _)
    rw [offset_zero] at first
    rw [wrote.rest a fun i less => ?_, update_of_ne first]
    rw [offset_succ]
    exact out (i + 1) (Nat.succ_lt_succ less)

theorem Wrote.snoc {f : Nat → UInt8} (small : n < 2 ^ 32)
    (wrote : Wrote (update mem (offset dst n).toNat (f n)) mem' dst n f) : Wrote mem mem' dst (n + 1) f := by
  refine ⟨fun i less => ?_, fun a out => ?_⟩
  · obtain less | rfl := Nat.lt_or_eq_of_le (Nat.le_of_lt_succ less)
    · exact wrote.byte i less
    · rw [wrote.rest _ fun j less same => ?_, update_self]
      have := offset_inj (by omega) (by omega) same
      omega
  · rw [wrote.rest a fun i less => out i (Nat.lt_succ_of_lt less), update_of_ne (out n (Nat.lt_succ_self n))]

theorem setBytes_wrote (d : UInt8) (small : n < 2 ^ 32) (mem : Memory) (s : UInt32) :
    Wrote mem ((setByte d)^[n] (s, mem)).2 s n fun _ => d := by
  induction n generalizing mem s with
  | zero => exact .nil mem s _
  | succ n ih => exact .cons (by omega) (ih (by omega) _ _)

theorem copyBytes_wrote (small : n < 2 ^ 32) (mem : Memory)
    (ahead : ∀ i j, i < j → j < n → (offset dst i).toNat ≠ (offset src j).toNat) :
    Wrote mem (copyByte^[n] ⟨dst, src, mem⟩).mem dst n fun i => mem (offset src i).toNat := by
  induction n generalizing mem dst src with
  | zero => exact .nil mem dst _
  | succ n ih =>
    refine .cons (by omega) ?_
    rw [offset_zero]
    refine (ih (by omega) _ fun i j less small => ?_).congr fun i less => ?_
    · rw [offset_succ, offset_succ]
      exact ahead (i + 1) (j + 1) (Nat.succ_lt_succ less) (Nat.succ_lt_succ small)
    · have apart := ahead 0 (i + 1) (Nat.succ_pos i) (Nat.succ_lt_succ less)
      rw [offset_zero] at apart
      rw [offset_succ, update_of_ne apart.symm]

theorem copyDown_wrote (small : n < 2 ^ 32) (mem : Memory)
    (behind : ∀ i j, i < j → j < n → (offset dst j).toNat ≠ (offset src i).toNat) :
    Wrote mem (copyDown dst src n mem) dst n fun i => mem (offset src i).toNat := by
  induction n generalizing mem with
  | zero => exact .nil mem dst _
  | succ n ih =>
    refine .snoc (by omega) ?_
    refine (ih (by omega) _ fun i j less small => behind i j less (Nat.lt_succ_of_lt small)).congr fun i less => ?_
    rw [update_of_ne (behind i n less (Nat.lt_succ_self n)).symm]

theorem copyByteDown_eq (mem : Memory) (dst src : UInt32) (n : Nat) :
    (copyByteDown^[n] ⟨offset dst n, offset src n, mem⟩).mem = copyDown dst src n mem := by
  induction n generalizing mem with
  | zero => rfl
  | succ n ih =>
    have back (a : UInt32) : offset a (n + 1) - 1 = offset a n := by
      unfold offset
      rw [UInt32.ofNat_add, ← UInt32.add_assoc]
      exact UInt32.add_sub_cancel _ _
    rw [Function.iterate_succ_apply, copyByteDown, back, back]
    exact ih _

/-! ## Results -/

def Disjoint (dst src count : UInt32) : Prop :=
  ∀ i < count.toNat, ∀ j < count.toNat, offset dst i ≠ offset src j

def Inside (a n : UInt32) : Prop := a.toNat + n.toNat ≤ 2 ^ 32

theorem offset_ofNat (a n : UInt32) : a + n = offset a n.toNat := by
  rw [offset, UInt32.ofNat_toNat]

theorem rtMemset_wrote (mem : Memory) (s : UInt32) (c : Int32) (count : UInt32) :
    Wrote mem (rtMemset mem s c count) s count.toNat fun _ => c.toUInt32.toUInt8 := by
  rw [rtMemset_eq]
  exact setBytes_wrote _ count.toNat_lt mem s

/-- The loops over words leave the memory as the loops over bytes do, in both variants, and a move leaves the bytes that
the source held. -/
theorem memory_bytewise (mem : Memory) (dst src : UInt32) (c : Int32) (count : UInt32) :
    (rtMemset mem dst c count = rtMemsetTiny mem dst c count ∧
      Wrote mem (rtMemset mem dst c count) dst count.toNat fun _ => c.toUInt32.toUInt8) ∧
    (Disjoint dst src count →
      rtMemcpy mem dst src count = (copyByte^[count.toNat] ⟨dst, src, mem⟩).mem ∧
      rtMemcpyTiny mem dst src count = (copyByte^[count.toNat] ⟨dst, src, mem⟩).mem ∧
      Wrote mem (rtMemcpy mem dst src count) dst count.toNat fun i => mem (offset src i).toNat) ∧
    (Inside dst count → Inside src count →
      Wrote mem (rtMemmove mem dst src count) dst count.toNat fun i => mem (offset src i).toNat) := by
  have small := count.toNat_lt
  refine ⟨⟨rtMemset_eq mem dst c count, rtMemset_wrote mem dst c count⟩, fun disjoint => ?_, fun first second => ?_⟩
  · have forwards : Wrote mem (copyByte^[count.toNat] ⟨dst, src, mem⟩).mem dst count.toNat
        fun i => mem (offset src i).toNat :=
      copyBytes_wrote small mem fun i j less most same => disjoint i (less.trans most) j most (UInt32.toNat.inj same)
    have backwards : Wrote mem (copyDown dst src count.toNat mem) dst count.toNat fun i => mem (offset src i).toNat :=
      copyDown_wrote small mem fun i j less most same => disjoint j most i (less.trans most) (UInt32.toNat.inj same)
    refine ⟨rtMemcpy_eq mem dst src count, ?_, ?_⟩
    · unfold rtMemcpyTiny
      split
      · rfl
      · exact backwards.unique forwards
    · rw [rtMemcpy_eq]
      exact forwards
  · unfold Inside at first second
    unfold rtMemmove
    split
    next lower =>
      rw [offset_ofNat, offset_ofNat, copyByteDown_eq]
      refine copyDown_wrote small mem fun i j less most => ?_
      have under := UInt32.lt_iff_toNat_lt.mp lower.1
      rw [offset_toNat, offset_toNat]
      omega
    next other =>
      refine copyBytes_wrote small mem fun i j less most => ?_
      rw [not_and_or, UInt32.lt_iff_toNat_lt, UInt32.lt_iff_toNat_lt, offset_ofNat, offset_toNat] at other
      rw [offset_toNat, offset_toNat]
      omega

end RtThread.Kservice.Bytewise
