import Mathlib.Data.List.GetD
import Mathlib.Logic.Function.Iterate

/-! Cyclic redundancy checks with the most significant bit first: the register, the bits that are fed into it, and the
bursts that are told apart. -/

set_option autoImplicit false
namespace RtThread.Lib.Crc

section
variable {w : Nat} (poly : BitVec w)

/-- The register moves up by one place, and the polynomial is subtracted for the bit that falls out. -/
def shift (reg : BitVec w) : BitVec w := if reg.msb then reg <<< 1 ^^^ poly else reg <<< 1

def topBit (b : Bool) : BitVec w := if b then BitVec.twoPow w (w - 1) else 0

def feed (reg : BitVec w) (b : Bool) : BitVec w := shift poly (reg ^^^ topBit b)

def run (reg : BitVec w) (bits : List Bool) : BitVec w := bits.foldl (feed poly) reg

def loaded : List Bool → BitVec w
  | [] => 0
  | b :: bits => topBit b ^^^ loaded bits >>> 1

end

section
variable {w : Nat} {poly : BitVec w} {reg reg' : BitVec w} {bits bits' before after : List Bool} {b : Bool}

/-! ## The register -/

theorem shift_xor (reg reg' : BitVec w) : shift poly (reg ^^^ reg') = shift poly reg ^^^ shift poly reg' := by
  unfold shift
  rw [BitVec.msb_xor, BitVec.shiftLeft_xor_distrib]
  cases reg.msb <;> cases reg'.msb
  · rfl
  · simp only [Bool.false_bne, if_true, Bool.false_eq_true, if_false, BitVec.xor_assoc]
  · simp only [Bool.bne_false, if_true, Bool.false_eq_true, if_false]
    rw [BitVec.xor_assoc, BitVec.xor_assoc, BitVec.xor_comm poly]
  · simp only [bne_self_eq_false, Bool.false_eq_true, if_false, if_true]
    rw [BitVec.xor_assoc, BitVec.xor_comm poly, BitVec.xor_assoc, BitVec.xor_self, BitVec.xor_zero]

theorem shift_low (low : reg.msb = false) : shift poly reg = reg <<< 1 := if_neg (by simp [low])

theorem shift_eq_zero (odd : poly.getLsbD 0 = true) (zero : shift poly reg = 0) : reg = 0 := by
  cases top : reg.msb with
  | true =>
    rw [shift, if_pos top] at zero
    have same : reg <<< 1 = poly := BitVec.xor_eq_zero_iff.mp zero
    rw [← same] at odd
    simp at odd
  | false =>
    rw [shift_low top] at zero
    apply BitVec.eq_of_getMsbD_eq
    intro i inside
    cases i with
    | zero =>
      rw [← BitVec.msb_eq_getMsbD_zero, top]
      simp
    | succ i =>
      rw [← BitVec.getMsbD_shiftLeft, zero]
      exact BitVec.getMsbD_zero.trans BitVec.getMsbD_zero.symm

theorem shift_injective (odd : poly.getLsbD 0 = true) : Function.Injective (shift poly) := by
  intro reg reg' same
  have zero : shift poly (reg ^^^ reg') = 0 := by
    rw [shift_xor, same]
    exact BitVec.xor_self
  exact BitVec.xor_eq_zero_iff.mp (shift_eq_zero odd zero)

theorem iterate_xor (n : Nat) (reg reg' : BitVec w) :
    (shift poly)^[n] (reg ^^^ reg') = (shift poly)^[n] reg ^^^ (shift poly)^[n] reg' := by
  induction n generalizing reg reg' with
  | zero => rfl
  | succ n ih => rw [Function.iterate_succ_apply, shift_xor, ih, ← Function.iterate_succ_apply, ← Function.iterate_succ_apply]

theorem feed_injective (odd : poly.getLsbD 0 = true) (b : Bool) : Function.Injective fun reg => feed poly reg b := by
  intro reg reg' same
  exact (BitVec.xor_left_inj (topBit b)).mp (shift_injective odd same)

theorem run_append (reg : BitVec w) (bits bits' : List Bool) : run poly reg (bits ++ bits') = run poly (run poly reg bits) bits' :=
  List.foldl_append

theorem run_injective (odd : poly.getLsbD 0 = true) (bits : List Bool) : Function.Injective fun reg => run poly reg bits := by
  induction bits with
  | nil => exact Function.injective_id
  | cons b bits ih => exact ih.comp (feed_injective odd b)

/-! ## Loaded bits -/

theorem getMsbD_topBit (b : Bool) (i : Nat) : (topBit b : BitVec w).getMsbD i = (decide (i < w) && (decide (i = 0) && b)) := by
  cases b with
  | false => simp [topBit]
  | true =>
    rw [topBit, if_pos rfl, BitVec.getMsbD_twoPow]
    by_cases inside : i < w
    · have last : w - (w - 1) - 1 = 0 := by omega
      have some : w - 1 < w := by omega
      simp [last, some, inside]
    · have other : ¬i = w - (w - 1) - 1 ∨ ¬w - 1 < w := by omega
      rcases other with other | other <;> simp [other, inside]

theorem getMsbD_loaded (bits : List Bool) (i : Nat) :
    (loaded bits : BitVec w).getMsbD i = (decide (i < w) && bits.getD i false) := by
  induction bits generalizing i with
  | nil => simp [loaded]
  | cons b bits ih =>
    rw [loaded, BitVec.getMsbD_xor, getMsbD_topBit, BitVec.getMsbD_ushiftRight, ih]
    cases i with
    | zero => simp
    | succ i =>
      have before (inside : i + 1 < w) : i < w := by omega
      by_cases inside : i + 1 < w
      · simp [inside, before inside]
      · simp [inside]

theorem loaded_injective (length : bits.length = bits'.length) (short : bits.length ≤ w)
    (same : (loaded bits : BitVec w) = loaded bits') : bits = bits' := by
  apply List.ext_getElem length
  intro i inside inside'
  have bit := congrArg (BitVec.getMsbD · i) same
  have less : i < w := by omega
  simpa only [getMsbD_loaded, less, decide_true, Bool.true_and, List.getD_eq_getElem _ _ inside,
    List.getD_eq_getElem _ _ inside'] using bit

theorem shift_loaded (short : bits.length < w) : shift poly (loaded bits >>> 1) = loaded bits := by
  have top : (loaded bits >>> 1 : BitVec w).msb = false := by
    rw [BitVec.msb_eq_getMsbD_zero, BitVec.getMsbD_ushiftRight]
    simp
  rw [shift_low top]
  apply BitVec.eq_of_getMsbD_eq
  intro i inside
  rw [BitVec.getMsbD_shiftLeft, BitVec.getMsbD_ushiftRight, getMsbD_loaded, getMsbD_loaded]
  by_cases last : i + 1 < w
  · simp [last, inside]
  · have beyond : bits[i]? = none := List.getElem?_eq_none (by omega)
    simp [last, beyond]

theorem run_loaded (reg : BitVec w) (short : bits.length ≤ w) :
    run poly reg bits = (shift poly)^[bits.length] (reg ^^^ loaded bits) := by
  induction bits generalizing reg with
  | nil =>
    rw [loaded]
    exact BitVec.xor_zero.symm
  | cons b bits ih =>
    have less : bits.length < w := short
    calc run poly reg (b :: bits) = (shift poly)^[bits.length] (feed poly reg b ^^^ loaded bits) := ih _ (Nat.le_of_lt less)
      _ = (shift poly)^[bits.length] (shift poly (reg ^^^ topBit b) ^^^ shift poly (loaded bits >>> 1)) := by
        rw [shift_loaded less, feed]
      _ = (shift poly)^[bits.length + 1] (reg ^^^ loaded (b :: bits)) := by
        rw [← shift_xor, BitVec.xor_assoc, Function.iterate_succ_apply, loaded]

/-! ## Bursts -/

/-- The places where the bits differ lie in a row of `n`. -/
def Burst (n : Nat) (bits bits' : List Bool) : Prop :=
  bits ≠ bits' ∧ ∃ start, ∀ i, bits[i]? ≠ bits'[i]? → start ≤ i ∧ i < start + n

theorem parts (start n : Nat) (bits : List Bool) :
    bits = bits.take start ++ ((bits.drop start).take n ++ bits.drop (start + n)) := by
  rw [← List.drop_drop, List.take_append_drop, List.take_append_drop]

theorem run_differs (odd : poly.getLsbD 0 = true) (reg : BitVec w) (length : bits.length = bits'.length)
    (short : bits.length ≤ w) (differ : bits ≠ bits') : run poly reg bits ≠ run poly reg bits' := by
  intro same
  rw [run_loaded reg short, run_loaded reg (length ▸ short), ← length] at same
  have loadedSame := (shift_injective odd).iterate _ same
  exact differ (loaded_injective length short (BitVec.xor_right_inj reg |>.mp loadedSame))

theorem run_burst (odd : poly.getLsbD 0 = true) (reg : BitVec w) (length : bits.length = bits'.length)
    (burst : Burst w bits bits') : run poly reg bits ≠ run poly reg bits' := by
  obtain ⟨differ, start, near⟩ := burst
  have outside : ∀ i, i < start ∨ start + w ≤ i → bits[i]? = bits'[i]? := fun i far => by
    by_contra other
    have inside := near i other
    omega
  have front : bits.take start = bits'.take start := by
    apply List.ext_getElem?
    intro i
    rw [List.getElem?_take, List.getElem?_take]
    split
    case isTrue less => exact outside i (.inl less)
    case isFalse => rfl
  have back : bits.drop (start + w) = bits'.drop (start + w) := by
    apply List.ext_getElem?
    intro i
    rw [List.getElem?_drop, List.getElem?_drop]
    exact outside _ (.inr (Nat.le_add_right _ i))
  have middle : (bits.drop start).take w ≠ (bits'.drop start).take w := fun same =>
    differ (by rw [parts start w bits, parts start w bits', front, back, same])
  rw [parts start w bits, parts start w bits', front, back, run_append, run_append, run_append, run_append]
  refine (run_injective odd _).ne (run_differs odd _ ?_ (List.length_take_le w _) middle)
  rw [List.length_take, List.length_take, List.length_drop, List.length_drop, length]

end

end RtThread.Lib.Crc
