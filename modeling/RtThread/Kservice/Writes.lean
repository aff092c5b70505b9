import RtThread.Kservice.Truncation
import RtThread.Lib.Patch

/-! The bytes that `rt_vsnprintf` writes, for every buffer and every output. -/

set_option autoImplicit false
namespace RtThread.Kservice
open Lib

def textPatch (limit : UInt32) : List UInt8 → UInt32 → Patch UInt32 UInt8
  | [], _ => .empty
  | ch :: rest, str => (textPatch limit rest (str + 1)).after (if str < limit then .cell str ch else .empty)

theorem foldl_put_patch (limit : UInt32) (text : List UInt8) (str : UInt32) (memory : Memory) :
    (text.foldl (Cursor.put limit) ⟨str, memory⟩).memory = (textPatch limit text str).apply memory := by
  induction text generalizing str memory with
  | nil => rfl
  | cons ch rest ih =>
    rw [List.foldl_cons, textPatch, Patch.apply_after]
    have put : Cursor.put limit ⟨str, memory⟩ ch =
        ⟨str + 1, (if str < limit then Patch.cell str ch else Patch.empty).apply memory⟩ := by
      unfold Cursor.put
      split
      · rw [Patch.apply_cell]
      · rfl
    rw [put, ih]

theorem textPatch_sets {limit : UInt32} {text : List UInt8} {str a : UInt32} :
    (textPatch limit text str).Sets a ↔ a < limit ∧ ∃ i < text.length, str + UInt32.ofNat i = a := by
  induction text generalizing str with
  | nil => simp [textPatch, Patch.not_sets_empty]
  | cons ch rest ih =>
    have next (i : Nat) : str + 1 + UInt32.ofNat i = str + UInt32.ofNat (i + 1) := by
      rw [UInt32.add_assoc, Nat.add_comm i 1, UInt32.ofNat_add]
      rfl
    rw [textPatch, Patch.sets_after, ih]
    simp only [next]
    constructor
    · rintro (⟨less, i, inside, rfl⟩ | own)
      · exact ⟨less, i + 1, Nat.succ_lt_succ inside, rfl⟩
      · split at own
        case isTrue less =>
          rw [Patch.sets_cell.mp own]
          exact ⟨less, 0, Nat.succ_pos _, UInt32.add_zero _⟩
        case isFalse => exact (Patch.not_sets_empty own).elim
    · rintro ⟨less, i, inside, rfl⟩
      cases i with
      | zero =>
        right
        rw [show str + UInt32.ofNat 0 = str from UInt32.add_zero _] at less ⊢
        rw [if_pos less]
        exact Patch.sets_cell.mpr rfl
      | succ i => exact Or.inl ⟨less, i, Nat.lt_of_succ_lt_succ inside, rfl⟩

theorem exists_changed {p : Patch UInt32 UInt8} {a : UInt32} (sets : p.Sets a) : ∃ memory, p.apply memory a ≠ memory a := by
  have : Nontrivial UInt8 := ⟨0, 1, by decide⟩
  exact sets.changed

section printed
variable (buf size : UInt32) (fmt : CString) (args : VaList)

def nulAt : UInt32 :=
  if buf + UInt32.ofNat (complete args fmt).length < limitOf buf size then buf + UInt32.ofNat (complete args fmt).length
  else limitOf buf size - 1

/-- The bytes that are written, and the value that is returned, do not depend on what the memory holds. -/
def printPatch : Patch UInt32 UInt8 :=
  (if usableSize buf size > 0 then Patch.cell (nulAt buf size fmt args) 0 else .empty).after
    (textPatch (limitOf buf size) (complete args fmt) buf)

theorem rtVsnprintf_eq (memory : Memory) :
    rtVsnprintf buf size fmt args memory =
      ⟨(UInt32.ofNat (complete args fmt).length).toInt32, (printPatch buf size fmt args).apply memory⟩ := by
  unfold rtVsnprintf printPatch nulAt
  simp only [format_complete, foldl_put_str, foldl_put_patch, Patch.apply_after]
  rw [UInt32.add_comm, UInt32.add_sub_cancel]
  congr 1
  split
  case isTrue =>
    rw [Patch.apply_cell, UInt32.add_comm]
    split <;> rfl
  case isFalse => rfl

theorem printPatch_sets {a : UInt32} :
    (printPatch buf size fmt args).Sets a ↔
      (usableSize buf size > 0 ∧ a = nulAt buf size fmt args) ∨
        a < limitOf buf size ∧ ∃ i < (complete args fmt).length, buf + UInt32.ofNat i = a := by
  rw [printPatch, Patch.sets_after, textPatch_sets]
  apply or_congr_left
  split
  case isTrue some => rw [Patch.sets_cell, and_iff_right some]
  case isFalse empty => exact iff_of_false Patch.not_sets_empty fun both => empty both.1

end printed

/-! ## The length of a number -/

abbrev snoc (text : List UInt8) (ch : UInt8) : List UInt8 := text ++ [ch]

theorem padDown_spec (ch : UInt8) (low w : Int32) (out : List UInt8) :
    (padDown snoc ch low w out).1.length = out.length + (w.toInt - low.toInt).toNat ∧
      (padDown snoc ch low w out).2 = (if low < w then low else w) - 1 := by
  induction n : (w.toInt - low.toInt).toNat using Nat.strongRecOn generalizing w out with
  | ind n ih =>
    by_cases less : low < w
    · have order := Int32.lt_iff_toInt_lt.mp less
      have pred := int32_pred less
      obtain ⟨length, rest⟩ := ih _ (by rw [pred]; omega) (w - 1) (out ++ [ch]) rfl
      rw [padDown, if_pos less, if_pos less, length, rest, List.length_append, List.length_singleton]
      refine ⟨by omega, ?_⟩
      split
      case isTrue => rfl
      case isFalse last =>
        have : w - 1 = low := by
          rw [Int32.lt_iff_toInt_lt] at last
          apply Int32.toInt_inj.mp
          omega
        rw [this]
    · have order : ¬low.toInt < w.toInt := fun order => less (Int32.lt_iff_toInt_lt.mpr order)
      rw [padDown, if_neg less, if_neg less]
      refine ⟨?_, rfl⟩
      change out.length = _
      omega

theorem putDigits_length (tmp : List UInt8) (i : Nat) (out : List UInt8) :
    (putDigits snoc tmp (-1) i out).length = out.length + i := by
  induction i generalizing out with
  | zero => rfl
  | succ i ih =>
    rw [putDigits, if_pos (by decide), ih, List.length_append, List.length_singleton]
    omega

theorem numberTmp_pos (type : UInt8) (base : Base) (num : UInt32) : 0 < (numberTmp type base num).length := by
  unfold numberTmp
  split
  · exact Nat.one_pos
  · rename_i some
    rw [numberDigits, if_neg some]
    exact Nat.succ_pos _

theorem printNumber_length (num : UInt32) (base : Base) (qualifier : UInt8) (s : Int32) (type : UInt8)
    (zeros : Has type zeropad) (fills : Has type (zeropad ||| left)) (right : ¬Has type left) (plain : ¬Has type special) (low : 0 ≤ s.toInt) (high : s.toInt ≤ 33)
    (out : List UInt8) : (printNumber snoc num base qualifier s (-1) type out).length ≤ out.length + 33 := by
  obtain ⟨num', sign, signIs⟩ : ∃ num' sign, getSign type qualifier num = (num', sign) := ⟨_, _, rfl⟩
  have digits := numberTmp_length type base num'
  have some := numberTmp_pos type base num'
  obtain ⟨tmp, tmpIs⟩ : ∃ tmp, tmp = numberTmp type base num' := ⟨_, rfl⟩
  rw [← tmpIs] at digits some
  have count : (Int32.ofNat tmp.length).toInt = tmp.length := by
    rw [Int32.toInt_ofNat_of_lt]
    omega
  have most : Int32.ofNat tmp.length > -1 := by
    rw [gt_iff_lt, Int32.lt_iff_toInt_lt, count]
    exact Int.lt_of_lt_of_le (by decide) (Int.natCast_nonneg _)
  have size : (s - 0 - Int32.ofNat tmp.length).toInt = s.toInt - tmp.length := by
    rw [Int32.toInt_sub, Int32.toInt_sub, Int32.toInt_zero, count, Int.bmod_eq_of_le, Int.bmod_eq_of_le] <;> try omega
    all_goals rw [Int.bmod_eq_of_le] <;> omega
  unfold printNumber
  simp only [if_neg right, signIs, ← tmpIs, specialSize, if_neg plain, if_pos most, if_neg (not_not.mpr fills), if_pos right,
    specialChars, List.foldl_nil, if_pos zeros]
  obtain ⟨signed, signedIs⟩ : ∃ signed, signed = (if sign ≠ 0 then (snoc out sign, s - 0 - Int32.ofNat tmp.length - 1)
      else (out, s - 0 - Int32.ofNat tmp.length)) := ⟨_, rfl⟩
  have one : signed.1.length + signed.2.toInt = out.length + (s.toInt - tmp.length) ∧
      signed.1.length ≤ out.length + 1 ∧ out.length ≤ signed.1.length := by
    rw [signedIs]
    split
    · change ((out ++ [sign]).length : Int) + (s - 0 - Int32.ofNat tmp.length - 1).toInt = _ ∧ (out ++ [sign]).length ≤ _ ∧ _ ≤ (out ++ [sign]).length
      rw [Int32.toInt_sub, size, Int32.toInt_one, Int.bmod_eq_of_le (by omega) (by omega), List.length_append,
        List.length_singleton]
      omega
    · change (out.length : Int) + (s - 0 - Int32.ofNat tmp.length).toInt = _ ∧ out.length ≤ _ ∧ out.length ≤ out.length
      rw [size]
      omega
  rw [← signedIs]
  obtain ⟨filled, left'⟩ := padDown_spec '0'.toUInt8 0 signed.2 signed.1
  have small : signed.2.toInt ≤ 33 ∧ -34 ≤ signed.2.toInt := by omega
  have ends : (padDown snoc '0'.toUInt8 0 signed.2 signed.1).2.toInt ≤ 0 := by
    rw [left', Int32.toInt_sub, Int32.toInt_one]
    split
    case isTrue => decide
    case isFalse spent =>
      have order : ¬0 < signed.2.toInt := fun order => spent (Int32.lt_iff_toInt_lt.mpr order)
      rw [Int.bmod_eq_of_le (by omega) (by omega)]
      omega
  have zero : (0 : Int32).toInt = 0 := Int32.toInt_zero
  rw [(padDown_spec _ _ _ _).1, putDigits_length, (padDown_spec _ _ _ _).1, filled, zero]
  omega
/-- From the format on, with `n` words taken, at most `k` characters come out. -/
def PutsAtMost (args : VaList) (fmt : List UInt8) (n k : Nat) : Prop :=
  ∀ out, (format args snoc fmt n out).length ≤ out.length + k

section most
variable {args : VaList} {rest : List UInt8} {n k : Nat}

theorem PutsAtMost.nil : PutsAtMost args [] n 0 := by
  intro out
  rw [format.eq_def]
  exact Nat.le_refl _

theorem PutsAtMost.char (most : PutsAtMost args rest n k) (ch : UInt8) (plain : ch ≠ '%'.toUInt8) :
    PutsAtMost args (ch :: rest) n (1 + k) := by
  intro out
  rw [format.eq_def]
  refine Nat.le_trans (Nat.le_of_eq (congrArg List.length (if_pos plain))) ?_
  have behind := most (out ++ [ch])
  rw [List.length_append, List.length_singleton] at behind
  change (format args snoc rest n (out ++ [ch])).length ≤ _
  omega

theorem PutsAtMost.number {spec : List UInt8} {ch : UInt8} {width : Int32} {base : Base} {more : UInt8}
    (most : PutsAtMost args rest (n + 1) k)
    (directive : parse args (spec ++ ch :: rest) n = (ch :: rest, n, ⟨zeropad, width, -1, 0⟩))
    (other : ch ≠ 'c'.toUInt8 ∧ ch ≠ 's'.toUInt8 ∧ ch ≠ 'p'.toUInt8 ∧ ch ≠ '%'.toUInt8)
    (integer : integerFormat ch = some (base, more)) (zeros : Has (zeropad ||| more) zeropad)
    (fills : Has (zeropad ||| more) (zeropad ||| left)) (right : ¬Has (zeropad ||| more) left)
    (plain : ¬Has (zeropad ||| more) special) (low : 0 ≤ width.toInt) (high : width.toInt ≤ 33) :
    PutsAtMost args ('%'.toUInt8 :: (spec ++ ch :: rest)) n (33 + k) := by
  intro out
  rw [format.eq_def]
  refine Nat.le_trans (Nat.le_of_eq (congrArg List.length (if_neg (fun plain => plain rfl)))) ?_
  obtain ⟨char, string, pointer, percent⟩ := other
  simp only [directive, convert, if_neg char, if_neg string, if_neg pointer, if_neg percent, integer]
  have number := printNumber_length (integerArg 0 (zeropad ||| more) (args.word n)) base 0 width (zeropad ||| more) zeros
    fills right plain low high out
  have behind := most (printNumber snoc (integerArg 0 (zeropad ||| more) (args.word n)) base 0 width (-1)
    (zeropad ||| more) out)
  omega

theorem PutsAtMost.complete {fmt : CString} (most : PutsAtMost args fmt.text 0 k) : (complete args fmt).length ≤ k := by
  have all := most []
  rwa [List.length_nil, Nat.zero_add] at all

end most

end RtThread.Kservice
