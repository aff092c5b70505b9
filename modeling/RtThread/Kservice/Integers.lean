import RtThread.Kservice.Directives
import RtThread.Lib.Numeral
import Mathlib.Data.List.GetD

/-! The integers that `rt_vsnprintf` prints, with and without RT_KPRINTF_USING_LONGLONG. -/

set_option autoImplicit false
namespace RtThread.Kservice

open Lib

/-! ## Padding -/

theorem int32_sub {a b : Int32} (low : -2147483648 ≤ a.toInt - b.toInt) (high : a.toInt - b.toInt ≤ 2147483647) :
    (a - b).toInt = a.toInt - b.toInt := by
  rw [Int32.toInt_sub, Int.bmod_eq_of_le] <;> omega

section padding
variable {Out : Type} (put : Out → UInt8 → Out)

/-- The value that `w` has behind `while (low < w--)`. -/
def padRest (low w : Int32) : Int32 := if low < w then low - 1 else w - 1

theorem padDown_eq (ch : UInt8) (low w : Int32) (out : Out) :
    padDown put ch low w out = ((List.replicate (w.toInt - low.toInt).toNat ch).foldl put out, padRest low w) := by
  induction w, out using padDown.induct put ch low with
  | case1 w out less ih =>
    have order := Int32.lt_iff_toInt_lt.mp less
    have before := int32_pred less
    have rest : padRest low (w - 1) = padRest low w := by
      unfold padRest
      rw [if_pos less]
      split
      · rfl
      next done =>
        have last : (w - 1).toInt = low.toInt := by
          have notLess := mt Int32.lt_iff_toInt_lt.mpr done
          omega
        rw [Int32.toInt_inj.mp last]
    rw [padDown, if_pos less, ih, rest, before,
      show (w.toInt - low.toInt).toNat = (w.toInt - 1 - low.toInt).toNat + 1 from by omega, List.replicate_succ,
      List.foldl_cons]
  | case2 w out done =>
    have order := mt Int32.lt_iff_toInt_lt.mpr done
    unfold padDown padRest
    rw [if_neg done, if_neg done, show (w.toInt - low.toInt).toNat = 0 from by omega]
    rfl

theorem putDigits_eq (tmp : List UInt8) (precisionBak : Int32) (n : Nat) (out : Out) (inside : n ≤ tmp.length) :
    putDigits put tmp precisionBak n out =
      (if precisionBak = 0 then [] else (tmp.take n).reverse).foldl put out := by
  induction n generalizing out with
  | zero =>
    rw [List.take_zero, List.reverse_nil, ite_self]
    rfl
  | succ n ih =>
    unfold putDigits
    by_cases none : precisionBak = 0
    · rw [if_neg (not_not.mpr none), if_pos none]
      rfl
    · rw [if_pos none, ih _ (Nat.le_of_succ_le inside), if_neg none, if_neg none, List.take_add_one,
        List.getElem?_eq_getElem inside, List.getD_eq_getElem _ _ inside, Option.toList_some, List.reverse_append]
      rfl

end padding

/-! ## The characters of a number -/

/-- What a loop counts down from `size` puts out. -/
def pad (ch : UInt8) (size : Int32) : List UInt8 := List.replicate size.toInt.toNat ch

/-- The characters that `print_number` puts out for the digits in `tmp`, without SPECIAL. -/
def spread (tmp : List UInt8) (sign : UInt8) (s precision : Int32) (type : UInt8) : List UInt8 :=
  let i := Int32.ofNat tmp.length
  let shown := if i > precision then i else precision
  let size := s - shown
  let ahead := if sign ≠ 0 ∧ size > 0 then size - 1 else size
  let size := if ¬Has type (zeropad ||| left) then padRest 0 ahead else size
  let between := if sign ≠ 0 then size - 1 else size
  let behind := if ¬Has type left then padRest 0 between else between
  (if ¬Has type (zeropad ||| left) then pad ' '.toUInt8 ahead else []) ++
    ((if sign ≠ 0 then [sign] else []) ++
      ((if ¬Has type left then pad (if Has type zeropad then '0'.toUInt8 else ' '.toUInt8) between else []) ++
        (List.replicate (shown.toInt - i.toInt).toNat '0'.toUInt8 ++
          ((if precision = 0 then [] else tmp.reverse) ++ pad ' '.toUInt8 behind))))

theorem specialSize_plain {type : UInt8} (plain : ¬Has type special) (base : Base) : specialSize type base = 0 :=
  if_neg plain

theorem specialChars_plain {type : UInt8} (plain : ¬Has type special) (base : Base) : specialChars type base = [] :=
  if_neg plain

theorem printTmp_eq {Out : Type} (put : Out → UInt8 → Out) (tmp : List UInt8) (sign : UInt8) (base : Base)
    (s precision : Int32) {type : UInt8} (plain : ¬Has type special) (out : Out) :
    printTmp put tmp sign base s precision type out = (spread tmp sign s precision type).foldl put out := by
  unfold printTmp spread pad
  simp only [specialSize_plain plain, specialChars_plain plain, Int32.sub_zero, padDown_eq, Int32.toInt_zero, Int.sub_zero,
    putDigits_eq put tmp precision tmp.length _ (Nat.le_refl _), List.take_length, List.foldl_append, List.foldl_nil]
  by_cases blanks : Has type (zeropad ||| left) <;> by_cases signed : sign = 0 <;> by_cases onLeft : Has type left <;>
    simp only [blanks, signed, onLeft, ne_eq, not_true_eq_false, not_false_eq_true, if_true, if_false, List.foldl_nil,
      List.foldl_cons]

def signSize (sign : UInt8) : Int := if sign ≠ 0 then 1 else 0

def signText (sign : UInt8) : List UInt8 := if sign ≠ 0 then [sign] else []

def precise (tmp : List UInt8) (precision : Int32) : List UInt8 :=
  List.replicate (precision.toInt - tmp.length).toNat '0'.toUInt8 ++ (if precision = 0 then [] else tmp.reverse)

/-- The places that the digits take: `precision`, once it is at least `i`. -/
def shownSize (tmp : List UInt8) (precision : Int32) : Int := max tmp.length precision.toInt

theorem padRest_toInt {x : Int32} (low : -2147483648 < x.toInt) : (padRest 0 x).toInt = if 0 < x.toInt then -1 else x.toInt - 1 := by
  have top := x.toInt_lt
  have one : (1 : Int32).toInt = 1 := rfl
  unfold padRest
  by_cases positive : 0 < x
  · have order := Int32.lt_iff_toInt_lt.mp positive
    rw [Int32.toInt_zero] at order
    rw [if_pos positive, if_pos order]
    rfl
  · have order := mt Int32.lt_iff_toInt_lt.mpr positive
    rw [Int32.toInt_zero] at order
    rw [if_neg positive, if_neg order, int32_sub] <;> omega

theorem pad_none (ch : UInt8) {size : Int32} (none : size.toInt ≤ 0) : pad ch size = [] := by
  unfold pad
  rw [Int.toNat_of_nonpos none]
  rfl

section spread
variable {tmp : List UInt8} {sign : UInt8} {s precision : Int32} {type : UInt8}

theorem shown_toInt (small : tmp.length ≤ 64) :
    (if Int32.ofNat tmp.length > precision then Int32.ofNat tmp.length else precision).toInt = shownSize tmp precision := by
  have count : (Int32.ofNat tmp.length).toInt = tmp.length := Int32.toInt_ofNat_of_lt (by omega)
  unfold shownSize
  split
  next more =>
    have order := Int32.lt_iff_toInt_lt.mp more
    omega
  next less =>
    have order := mt Int32.lt_iff_toInt_lt.mpr less
    omega

theorem shownSize_pos (some : 0 < tmp.length) : 1 ≤ shownSize tmp precision := by
  unfold shownSize
  omega

theorem shownSize_le (small : tmp.length ≤ 64) : shownSize tmp precision ≤ 2147483647 := by
  have top := precision.toInt_lt
  unfold shownSize
  omega

theorem zeros_digits (small : tmp.length ≤ 64) :
    List.replicate ((if Int32.ofNat tmp.length > precision then Int32.ofNat tmp.length else precision).toInt -
        (Int32.ofNat tmp.length).toInt).toNat '0'.toUInt8 ++ (if precision = 0 then [] else tmp.reverse) =
      precise tmp precision := by
  rw [shown_toInt small, Int32.toInt_ofNat_of_lt (by omega), precise,
    show (shownSize tmp precision - tmp.length).toNat = (precision.toInt - tmp.length).toNat from by
      unfold shownSize
      omega]

theorem size_toInt (some : 0 < tmp.length) (small : tmp.length ≤ 64) (width : -1 ≤ s.toInt) :
    (s - if Int32.ofNat tmp.length > precision then Int32.ofNat tmp.length else precision).toInt =
      s.toInt - shownSize tmp precision := by
  have positive := @shownSize_pos tmp precision some
  have least := @shownSize_le tmp precision small
  have top := s.toInt_lt
  have shown := @shown_toInt tmp precision small
  rw [int32_sub, shown] <;> rw [shown] <;> omega

theorem pred_toInt {x : Int32} (low : -2147483648 < x.toInt) : (x - 1).toInt = x.toInt - 1 := by
  have top := x.toInt_lt
  have one : (1 : Int32).toInt = 1 := rfl
  rw [int32_sub] <;> omega

theorem afterSign_toInt {x : Int32} (low : -2147483648 ≤ x.toInt - signSize sign) :
    (if sign ≠ 0 then x - 1 else x).toInt = x.toInt - signSize sign := by
  unfold signSize at low ⊢
  by_cases signed : sign = 0
  · simp only [signed, ne_eq, not_true_eq_false, if_false, Int.sub_zero]
  · simp only [signed, ne_eq, not_false_eq_true, if_true] at low ⊢
    exact pred_toInt (by omega)

theorem signSize_cases : signSize sign = 0 ∧ sign = 0 ∨ signSize sign = 1 ∧ sign ≠ 0 := by
  unfold signSize
  by_cases signed : sign = 0
  · exact Or.inl ⟨if_neg (not_not.mpr signed), signed⟩
  · exact Or.inr ⟨if_pos signed, signed⟩

section
variable (some : 0 < tmp.length) (small : tmp.length ≤ 64) (width : -1 ≤ s.toInt)
include some small width

theorem spread_blanks (blanks : ¬Has type (zeropad ||| left)) (notLeft : ¬Has type left)
    (fits : -2147483648 ≤ s.toInt - shownSize tmp precision - signSize sign - 2) :
    spread tmp sign s precision type =
      List.replicate (s.toInt - shownSize tmp precision - signSize sign).toNat ' '.toUInt8 ++
        (signText sign ++ precise tmp precision) := by
  have count := @size_toInt tmp s precision some small width
  unfold spread
  dsimp only
  rw [← List.append_assoc _ _ (pad _ _), zeros_digits small]
  generalize (s - if Int32.ofNat tmp.length > precision then Int32.ofNat tmp.length else precision) = size at count ⊢
  have counted : (if sign ≠ 0 ∧ size > 0 then size - 1 else size).toInt =
      if signSize sign = 1 ∧ 0 < size.toInt then size.toInt - 1 else size.toInt := by
    have order : size > 0 ↔ 0 < size.toInt := Int32.lt_iff_toInt_lt
    simp only [order]
    unfold signSize
    by_cases signed : sign = 0 <;> by_cases positive : 0 < size.toInt <;>
      simp only [signed, positive, ne_eq, not_true_eq_false, not_false_eq_true, and_self, and_true, and_false,
        Int.zero_ne_one, if_true, if_false]
    exact pred_toInt (by omega)
  generalize (if sign ≠ 0 ∧ size > 0 then size - 1 else size) = ahead at counted ⊢
  rw [if_pos blanks, if_pos blanks, if_pos notLeft, if_pos notLeft]
  obtain ⟨places, signed⟩ | ⟨places, signed⟩ := @signSize_cases sign
  all_goals
    simp only [places, Int.zero_ne_one, false_and, true_and, if_false] at counted fits
    have rest := padRest_toInt (x := ahead) (by omega)
    have after := @afterSign_toInt sign (padRest 0 ahead) (by omega)
    generalize (if sign ≠ 0 then padRest 0 ahead - 1 else padRest 0 ahead) = between at after ⊢
    have behind := padRest_toInt (x := between) (by omega)
    rw [@pad_none _ between (by omega), @pad_none _ (padRest 0 between) (by omega), List.nil_append,
      List.append_nil, signText, pad, places]
    congr 2
    omega

theorem spread_left (noBlanks : Has type (zeropad ||| left)) (onLeft : Has type left)
    (fits : -2147483648 ≤ s.toInt - shownSize tmp precision - signSize sign) :
    spread tmp sign s precision type =
      signText sign ++ (precise tmp precision ++
        List.replicate (s.toInt - shownSize tmp precision - signSize sign).toNat ' '.toUInt8) := by
  have count := @size_toInt tmp s precision some small width
  unfold spread
  dsimp only
  rw [← List.append_assoc _ _ (pad _ _), zeros_digits small]
  generalize (s - if Int32.ofNat tmp.length > precision then Int32.ofNat tmp.length else precision) = size at count ⊢
  have after := @afterSign_toInt sign size (by omega)
  rw [if_neg (not_not.mpr noBlanks), if_neg (not_not.mpr noBlanks), if_neg (not_not.mpr onLeft),
    if_neg (not_not.mpr onLeft), List.nil_append, List.nil_append]
  rw [pad, after, count, signText]

theorem spread_zeros (noBlanks : Has type (zeropad ||| left)) (notLeft : ¬Has type left) (zeros : Has type zeropad)
    (fits : -2147483648 ≤ s.toInt - shownSize tmp precision - signSize sign - 1) :
    spread tmp sign s precision type =
      signText sign ++ (List.replicate (s.toInt - shownSize tmp precision - signSize sign).toNat '0'.toUInt8 ++
        precise tmp precision) := by
  have count := @size_toInt tmp s precision some small width
  unfold spread
  dsimp only
  rw [← List.append_assoc _ _ (pad _ _), zeros_digits small]
  generalize (s - if Int32.ofNat tmp.length > precision then Int32.ofNat tmp.length else precision) = size at count ⊢
  have after := @afterSign_toInt sign size (by omega)
  rw [if_neg (not_not.mpr noBlanks), if_neg (not_not.mpr noBlanks), if_pos notLeft, if_pos notLeft, if_pos zeros,
    List.nil_append]
  generalize (if sign ≠ 0 then size - 1 else size) = between at after ⊢
  have behind := padRest_toInt (x := between) (by omega)
  rw [@pad_none _ (padRest 0 between) (by split at behind <;> omega), List.append_nil, pad, after, count, signText]

end

end spread

/-! ## The conversions of an integer -/

inductive Conversion where
  | d
  | i
  | u
  | x
  | X
  | o
  | b
  deriving DecidableEq

def Conversion.char : Conversion → UInt8
  | d => 'd'.toUInt8
  | i => 'i'.toUInt8
  | u => 'u'.toUInt8
  | x => 'x'.toUInt8
  | X => 'X'.toUInt8
  | o => 'o'.toUInt8
  | b => 'b'.toUInt8

def Conversion.radix : Conversion → Nat
  | d | i | u => 10
  | x | X => 16
  | o => 8
  | b => 2

def Conversion.signed : Conversion → Bool
  | d | i => true
  | _ => false

/-- The digits are lower-case, but for `X`. -/
def Conversion.digit : Conversion → Nat → UInt8
  | X, place => largeDigits.getD place 0
  | _, place => smallDigits.getD place 0

def Length.convert (length : Length) (signed : Bool) (word : UInt32) (longLong : UInt64) : Int :=
  match length, signed with
  | .short, true => word.toUInt16.toInt16.toInt
  | .short, false => word.toUInt16.toNat
  | .longLong, true => longLong.toInt64.toInt
  | .longLong, false => longLong.toNat
  | _, true => word.toInt32.toInt
  | _, false => word.toNat

/-- The sign that a conversion prints, 0 for none. -/
def signChar (flags : List Flag) (signed : Bool) (value : Int) : UInt8 :=
  if signed then
    if value < 0 then '-'.toUInt8
    else if .plus ∈ flags then '+'.toUInt8
    else if .space ∈ flags then ' '.toUInt8
    else 0
  else 0

/-! ## Digits -/

theorem numberDigits_eq (digits : List UInt8) (base : Base) (num : UInt32) :
    numberDigits digits base num = (Nat.digits base.val.toNat num.toNat).map fun place => digits.getD place 0 := by
  induction num using numberDigits.induct base with
  | case1 =>
    rw [numberDigits, if_pos rfl, UInt32.toNat_zero, Nat.digits_zero, List.map_nil]
  | case2 num some ih =>
    have big : 1 < base.val.toNat := UInt32.lt_iff_toNat_lt.mp base.2
    have positive : num.toNat ≠ 0 := fun zero => some (UInt32.toNat_inj.mp zero)
    rw [numberDigits, if_neg some, ih, Nat.digits_eq_cons_digits_div big positive, List.map_cons, UInt32.toNat_mod,
      UInt32.toNat_div]

theorem LongLong.numberDigits_eq (digits : List UInt8) (base : Base) (num : UInt64) :
    LongLong.numberDigits digits base num = (Nat.digits base.val.toNat num.toNat).map fun place => digits.getD place 0 := by
  induction num using LongLong.numberDigits.induct base with
  | case1 =>
    rw [LongLong.numberDigits, if_pos rfl, UInt64.toNat_zero, Nat.digits_zero, List.map_nil]
  | case2 num some ih =>
    have big : 1 < base.val.toNat := UInt32.lt_iff_toNat_lt.mp base.2
    have positive : num.toNat ≠ 0 := fun zero => some (UInt64.toNat_inj.mp zero)
    rw [LongLong.numberDigits, if_neg some, ih, Nat.digits_eq_cons_digits_div big positive, List.map_cons,
      UInt64.toNat_mod, UInt64.toNat_div, UInt32.toNat_toUInt64]

/-- The digits that `type` stands for. -/
def typeDigit (type : UInt8) (place : Nat) : UInt8 :=
  (if Has type large then largeDigits else smallDigits).getD place 0

theorem typeDigit_zero (type : UInt8) : typeDigit type 0 = '0'.toUInt8 := by
  unfold typeDigit
  split <;> rfl

theorem numberTmp_eq (type : UInt8) (base : Base) (num : UInt32) :
    numberTmp type base num = (numeral (typeDigit type) base.val.toNat num.toNat).reverse := by
  unfold numberTmp numeral
  by_cases zero : num = 0
  · have none : num.toNat = 0 := congrArg UInt32.toNat zero
    rw [if_pos zero, if_pos none, typeDigit_zero]
    rfl
  · have some : num.toNat ≠ 0 := fun none => zero (UInt32.toNat_inj.mp none)
    rw [if_neg zero, if_neg some, List.reverse_reverse, numberDigits_eq]
    rfl

theorem LongLong.numberTmp_eq (type : UInt8) (base : Base) (num : UInt64) :
    LongLong.numberTmp type base num = (numeral (typeDigit type) base.val.toNat num.toNat).reverse := by
  unfold LongLong.numberTmp numeral
  by_cases zero : num = 0
  · have none : num.toNat = 0 := congrArg UInt64.toNat zero
    rw [if_pos zero, if_pos none, typeDigit_zero]
    rfl
  · have some : num.toNat ≠ 0 := fun none => zero (UInt64.toNat_inj.mp none)
    rw [if_neg zero, if_neg some, List.reverse_reverse, LongLong.numberDigits_eq]
    rfl

/-! ## The type of a number -/

def Conversion.bit : Conversion → UInt8
  | d | i => sign
  | X => large
  | _ => 0

def Conversion.base : Conversion → Base
  | d | i | u => ⟨10, decimal_base⟩
  | x | X => ⟨16, hex_base⟩
  | o => ⟨8, octal_base⟩
  | b => ⟨2, binary_base⟩

theorem Conversion.base_radix (conv : Conversion) : conv.base.val.toNat = conv.radix := by
  cases conv <;> rfl

def Width.Negative (word : UInt32) : Width → Prop
  | argument => word.toInt32 < 0
  | _ => False

def Layout.OnLeft (layout : Layout) (word : UInt32) : Prop := .minus ∈ layout.flags ∨ layout.width.Negative word

/-- `type`, as `print_number` goes by it. -/
def Layout.type (layout : Layout) (conv : Conversion) (word : UInt32) : UInt8 :=
  shownType (layout.width.mark word (flagBits layout.flags 0) ||| conv.bit)

theorem has_mark (width : Width) (word : UInt32) (bits bit : UInt8) :
    Has (width.mark word bits) bit ↔ Has bits bit ∨ width.Negative word ∧ Has left bit := by
  cases width with
  | none | literal =>
    unfold Width.mark Width.Negative
    rw [false_and, or_false]
  | argument =>
    unfold Width.mark Width.Negative
    dsimp only
    split
    next negative => rw [has_or, and_iff_right negative]
    next negative => rw [or_iff_left fun both => negative both.1]

theorem has_shownType {type bit : UInt8} (kept : ~~~zeropad &&& bit = bit) : Has (shownType type) bit ↔ Has type bit := by
  unfold shownType Has
  split
  · rw [UInt8.and_assoc, kept]
  · rfl

section type
variable (layout : Layout) (conv : Conversion) (word : UInt32)

theorem Layout.has_type {bit : UInt8} (kept : ~~~zeropad &&& bit = bit) (notLeft : ¬Has left bit) :
    Has (layout.type conv word) bit ↔ Has (flagBits layout.flags 0) bit ∨ Has conv.bit bit := by
  unfold Layout.type
  rw [has_shownType kept, has_or, has_mark,
    or_iff_left fun both : layout.width.Negative word ∧ Has left bit => notLeft both.2]

theorem Layout.type_sign : Has (layout.type conv word) sign ↔ conv.signed = true := by
  rw [layout.has_type conv word (by decide) (by decide),
    or_iff_right (has_other layout.flags fun flag => by cases flag <;> decide)]
  cases conv <;> decide

theorem Layout.type_plus : Has (layout.type conv word) plus ↔ .plus ∈ layout.flags := by
  rw [layout.has_type conv word (by decide) (by decide), or_iff_left (by cases conv <;> decide)]
  exact has_flag layout.flags .plus

theorem Layout.type_space : Has (layout.type conv word) space ↔ .space ∈ layout.flags := by
  rw [layout.has_type conv word (by decide) (by decide), or_iff_left (by cases conv <;> decide)]
  exact has_flag layout.flags .space

theorem Layout.type_special : ¬Has (layout.type conv word) special := by
  rw [layout.has_type conv word (by decide) (by decide),
    or_iff_right (has_other layout.flags fun flag => by cases flag <;> decide)]
  cases conv <;> decide

theorem Layout.type_digit : typeDigit (layout.type conv word) = conv.digit := by
  have upper : Has (layout.type conv word) large ↔ conv = .X := by
    rw [layout.has_type conv word (by decide) (by decide),
      or_iff_right (has_other layout.flags fun flag => by cases flag <;> decide)]
    cases conv <;> decide
  funext place
  unfold typeDigit
  by_cases capital : conv = .X
  · rw [if_pos (upper.mpr capital), capital]
    rfl
  · rw [if_neg fun has => capital (upper.mp has)]
    cases conv with
    | X => exact absurd rfl capital
    | d | i | u | x | o | b => rfl

end type

/-! ## The sign of a number -/

theorem toInt16_toInt (half : UInt16) :
    half.toInt16.toInt = if half.toNat < 32768 then (half.toNat : Int) else half.toNat - 65536 := by
  change half.toBitVec.toInt = _
  rw [BitVec.toInt_eq_toNat_cond]
  change (if 2 * half.toNat < 65536 then (half.toNat : Int) else half.toNat - 65536) = _
  split <;> split <;> omega

theorem toInt32_toInt (word : UInt32) :
    word.toInt32.toInt = if word.toNat < 2147483648 then (word.toNat : Int) else word.toNat - 4294967296 := by
  change word.toBitVec.toInt = _
  rw [BitVec.toInt_eq_toNat_cond]
  change (if 2 * word.toNat < 4294967296 then (word.toNat : Int) else word.toNat - 4294967296) = _
  split <;> split <;> omega

theorem toInt64_toInt (longLong : UInt64) :
    longLong.toInt64.toInt =
      if longLong.toNat < 9223372036854775808 then (longLong.toNat : Int) else longLong.toNat - 18446744073709551616 := by
  change longLong.toBitVec.toInt = _
  rw [BitVec.toInt_eq_toNat_cond]
  change (if 2 * longLong.toNat < 18446744073709551616 then (longLong.toNat : Int)
    else longLong.toNat - 18446744073709551616) = _
  split <;> split <;> omega

theorem getSign_cases {α : Type} {type : UInt8} {flags : List Flag} {signed : Bool} (hasSign : Has type sign ↔ signed = true)
    (hasPlus : Has type plus ↔ .plus ∈ flags) (hasSpace : Has type space ↔ .space ∈ flags) {negative : Prop}
    [Decidable negative] {value : Int} (less : signed = true → (negative ↔ value < 0)) (negated num : α) :
    (if Has type sign then
      if negative then (negated, '-'.toUInt8)
      else if Has type plus then (num, '+'.toUInt8)
      else if Has type space then (num, ' '.toUInt8)
      else (num, 0)
    else (num, 0)) = (if signed = true ∧ value < 0 then negated else num, signChar flags signed value) := by
  unfold signChar
  cases signed with
  | false =>
    have unsigned : ¬Has type sign := fun has => Bool.false_ne_true (hasSign.mp has)
    rw [if_neg unsigned, if_neg fun both : false = true ∧ value < 0 => Bool.false_ne_true both.1]
    rfl
  | true =>
    rw [if_pos (hasSign.mpr rfl)]
    by_cases below : value < 0
    · rw [if_pos ((less rfl).mpr below), if_pos ⟨rfl, below⟩, if_pos rfl, if_pos below]
    · rw [if_neg (mt (less rfl).mp below), if_neg fun both : true = true ∧ value < 0 => below both.2, if_pos rfl,
        if_neg below]
      by_cases shown : Flag.plus ∈ flags
      · rw [if_pos (hasPlus.mpr shown), if_pos shown]
      · rw [if_neg (mt hasPlus.mp shown), if_neg shown]
        by_cases blank : Flag.space ∈ flags
        · rw [if_pos (hasSpace.mpr blank), if_pos blank]
        · rw [if_neg (mt hasSpace.mp blank), if_neg blank]

def tested (qualifier : UInt8) (num : UInt32) : Int :=
  if qualifier = 'h'.toUInt8 then num.toUInt16.toInt16.toInt else num.toInt32.toInt

theorem isNegative_iff (qualifier : UInt8) (num : UInt32) : isNegative qualifier num ↔ tested qualifier num < 0 := by
  unfold isNegative tested
  split
  · exact Int16.lt_iff_toInt_lt
  · exact Int32.lt_iff_toInt_lt

def LongLong.tested (qualifier : UInt8) (num : UInt64) : Int :=
  if qualifier = 'h'.toUInt8 then num.toUInt16.toInt16.toInt else num.toUInt32.toInt32.toInt

theorem LongLong.isNegative_iff (qualifier : UInt8) (num : UInt64) :
    LongLong.isNegative qualifier num ↔ LongLong.tested qualifier num < 0 := by
  unfold LongLong.isNegative LongLong.tested
  split
  · exact Int16.lt_iff_toInt_lt
  · exact Int32.lt_iff_toInt_lt

theorem signChar_minus (flags : List Flag) (value : Int) : signChar flags true value = '-'.toUInt8 ↔ value < 0 := by
  unfold signChar
  rw [if_pos rfl]
  by_cases less : value < 0
  · rw [if_pos less]
    exact iff_of_true rfl less
  · rw [if_neg less]
    refine iff_of_false ?_ less
    split
    · decide
    split
    · decide
    · decide

theorem pair_value {α : Type} (number : α → Nat) {signed : Bool} {flags : List Flag} {tested value : Int} {negated num : α}
    (test : signed = true → (tested < 0 ↔ value < 0))
    (below : signed = true → value < 0 → number negated = value.natAbs)
    (above : (signed = true → 0 ≤ value) → number num = value.natAbs) :
    number (if signed = true ∧ tested < 0 then negated else num) = value.natAbs ∧
      signChar flags signed tested = signChar flags signed value := by
  cases signed with
  | false =>
    rw [if_neg fun both : false = true ∧ tested < 0 => Bool.false_ne_true both.1]
    exact ⟨above fun signed => absurd signed Bool.false_ne_true, rfl⟩
  | true =>
    unfold signChar
    by_cases less : value < 0
    · rw [if_pos ⟨rfl, (test rfl).mpr less⟩, if_pos rfl, if_pos rfl, if_pos ((test rfl).mpr less), if_pos less]
      exact ⟨below rfl less, rfl⟩
    · rw [if_neg fun both : true = true ∧ tested < 0 => less ((test rfl).mp both.2), if_pos rfl, if_pos rfl,
        if_neg (mt (test rfl).mp less), if_neg less]
      exact ⟨above fun _ => Int.not_lt.mp less, rfl⟩

section sign
variable {type flags : UInt8} {shown : List Flag} {signed : Bool} (hasSign : Has type sign ↔ signed = true)
  (sameSign : Has flags sign ↔ signed = true)
  (hasPlus : Has type plus ↔ .plus ∈ shown) (hasSpace : Has type space ↔ .space ∈ shown) (word : UInt32)
  (longLong : UInt64)

theorem integerArg_short (longLong : UInt64) (sameSign : Has flags sign ↔ signed = true) :
    ((integerArg 'h'.toUInt8 flags word).toNat : Int) =
      if Length.short.convert signed word longLong < 0 then Length.short.convert signed word longLong + 4294967296
      else Length.short.convert signed word longLong := by
  unfold integerArg
  rw [if_pos rfl]
  cases signed with
  | false =>
    have convert : Length.short.convert false word longLong = word.toUInt16.toNat := rfl
    rw [if_neg fun has => Bool.false_ne_true (sameSign.mp has), convert, UInt16.toNat_toUInt32, if_neg (by omega)]
  | true =>
    have convert : Length.short.convert true word longLong = word.toUInt16.toInt16.toInt := rfl
    have extended := toInt32_toInt word.toUInt16.toInt16.toInt32.toUInt32
    have top := word.toUInt16.toInt16.toInt32.toUInt32.toNat_lt
    rw [Int32.toInt32_toUInt32, Int16.toInt_toInt32] at extended
    rw [if_pos (sameSign.mpr rfl), convert, extended]
    split <;> split <;> omega

theorem short_bounds (longLong : UInt64) :
    -32768 ≤ Length.short.convert signed word longLong ∧
      Length.short.convert signed word longLong < if signed = true then 32768 else 65536 := by
  have low := word.toUInt16.toNat_lt
  have half := toInt16_toInt word.toUInt16
  cases signed with
  | false =>
    change -32768 ≤ (word.toUInt16.toNat : Int) ∧ (word.toUInt16.toNat : Int) < 65536
    omega
  | true =>
    change -32768 ≤ word.toUInt16.toInt16.toInt ∧ word.toUInt16.toInt16.toInt < 32768
    split at half <;> omega

include hasSign hasPlus hasSpace

theorem getSign_eq (qualifier : UInt8) (num : UInt32) :
    getSign type qualifier num = (if signed = true ∧ tested qualifier num < 0 then
      (if qualifier = 'h'.toUInt8 then (-num).toUInt16.toUInt32 else -num) else num,
      signChar shown signed (tested qualifier num)) :=
  getSign_cases hasSign hasPlus hasSpace (fun _ => isNegative_iff qualifier num) _ _

include sameSign

theorem getSign_value {length : Length} (supported : length ≠ .longLong) :
    (getSign type length.qualifier (integerArg length.qualifier flags word)).1.toNat =
        (length.convert signed word longLong).natAbs ∧
      (getSign type length.qualifier (integerArg length.qualifier flags word)).2 =
        signChar shown signed (length.convert signed word longLong) := by
  generalize given : integerArg length.qualifier flags word = num
  rw [getSign_eq hasSign hasPlus hasSpace]
  have top := num.toNat_lt
  have minus : (-num).toNat = (4294967296 - num.toNat) % 4294967296 := UInt32.toNat_neg num
  cases length with
  | longLong => exact absurd rfl supported
  | none | long =>
    have same : word = num := given
    subst same
    have whole := toInt32_toInt word
    cases signed with
    | false =>
      refine pair_value UInt32.toNat ?_ ?_ fun _ => rfl
      · exact fun signed => absurd signed Bool.false_ne_true
      · exact fun signed => absurd signed Bool.false_ne_true
    | true =>
      refine pair_value UInt32.toNat (fun _ => Iff.rfl) ?_ ?_
      · intro _ below
        change word.toInt32.toInt < 0 at below
        change (-word).toNat = word.toInt32.toInt.natAbs
        split at whole <;> omega
      · intro positive
        have above : 0 ≤ word.toInt32.toInt := positive rfl
        change word.toNat = word.toInt32.toInt.natAbs
        split at whole <;> omega
  | short =>
    have arg := integerArg_short word longLong sameSign
    have bounds := @short_bounds signed word longLong
    change integerArg 'h'.toUInt8 flags word = num at given
    rw [given] at arg
    have half := toInt16_toInt num.toUInt16
    have rest : num.toUInt16.toNat = num.toNat % 65536 := rfl
    refine pair_value UInt32.toNat ?_ ?_ ?_
    · intro signed
      rw [if_pos signed] at bounds
      change num.toUInt16.toInt16.toInt < 0 ↔ _
      split at arg <;> split at half <;> omega
    · intro signed below
      rw [if_pos signed] at bounds
      rw [if_pos below] at arg
      change (-num).toNat % 65536 = _
      omega
    · intro positive
      have above : 0 ≤ Length.short.convert signed word longLong := by
        cases signed with
        | false => exact Int.natCast_nonneg _
        | true => exact positive rfl
      rw [if_neg (Int.not_lt.mpr above)] at arg
      omega

end sign

/-- The values of a `long long` that the test and the negation of a `long` leave right: those of a `long`, and any other
positive one with bit 31 clear. -/
def LongFits (value : Int) : Prop :=
  -2147483648 ≤ value ∧ value < 0 ∨ 0 ≤ value ∧ value % 4294967296 < 2147483648

instance (value : Int) : Decidable (LongFits value) := by
  unfold LongFits
  infer_instance

namespace LongLong
section sign
variable {type flags : UInt8} {shown : List Flag} {signed : Bool} (hasSign : Has type sign ↔ signed = true)
  (sameSign : Has flags sign ↔ signed = true)
  (hasPlus : Has type plus ↔ .plus ∈ shown) (hasSpace : Has type space ↔ .space ∈ shown) (word : UInt32)
  (longLong : UInt64)

theorem integerArg_short (sameSign : Has flags sign ↔ signed = true) :
    ((integerArg 'h'.toUInt8 flags word longLong).toNat : Int) =
      if Length.short.convert signed word longLong < 0 then
        Length.short.convert signed word longLong + 18446744073709551616
      else Length.short.convert signed word longLong := by
  unfold integerArg
  rw [if_neg (by decide), if_neg (by decide), if_pos rfl]
  cases signed with
  | false =>
    have convert : Length.short.convert false word longLong = word.toUInt16.toNat := rfl
    rw [if_neg fun has => Bool.false_ne_true (sameSign.mp has), convert, UInt16.toNat_toUInt64, if_neg (by omega)]
  | true =>
    have convert : Length.short.convert true word longLong = word.toUInt16.toInt16.toInt := rfl
    have extended := toInt64_toInt word.toUInt16.toInt16.toInt64.toUInt64
    have top := word.toUInt16.toInt16.toInt64.toUInt64.toNat_lt
    rw [Int64.toInt64_toUInt64, Int16.toInt_toInt64] at extended
    rw [if_pos (sameSign.mpr rfl), convert, extended]
    split <;> split <;> omega

include hasSign hasPlus hasSpace

theorem getSign_eq (qualifier : UInt8) (num : UInt64) :
    getSign type qualifier num = (if signed = true ∧ tested qualifier num < 0 then
      (if qualifier = 'h'.toUInt8 then (-num).toUInt16.toUInt64 else (-num).toUInt32.toUInt64) else num,
      signChar shown signed (tested qualifier num)) :=
  getSign_cases hasSign hasPlus hasSpace (fun _ => isNegative_iff qualifier num) _ _

include sameSign

theorem getSign_value {length : Length} (fits : length = .longLong → signed = true → LongFits longLong.toInt64.toInt) :
    (getSign type length.qualifier (integerArg length.qualifier flags word longLong)).1.toNat =
        (length.convert signed word longLong).natAbs ∧
      (getSign type length.qualifier (integerArg length.qualifier flags word longLong)).2 =
        signChar shown signed (length.convert signed word longLong) := by
  generalize given : integerArg length.qualifier flags word longLong = num
  rw [getSign_eq hasSign hasPlus hasSpace]
  have top := num.toNat_lt
  have minus : (-num).toNat = (18446744073709551616 - num.toNat) % 18446744073709551616 := UInt64.toNat_neg num
  have low := toInt32_toInt num.toUInt32
  have rest : num.toUInt32.toNat = num.toNat % 4294967296 := rfl
  cases length with
  | longLong =>
    have same : longLong = num := given
    subst same
    have whole := toInt64_toInt longLong
    cases signed with
    | false =>
      refine pair_value UInt64.toNat ?_ ?_ fun _ => rfl
      · exact fun signed => absurd signed Bool.false_ne_true
      · exact fun signed => absurd signed Bool.false_ne_true
    | true =>
      have within := fits rfl rfl
      unfold LongFits at within
      refine pair_value UInt64.toNat ?_ ?_ ?_
      · intro _
        change longLong.toUInt32.toInt32.toInt < 0 ↔ longLong.toInt64.toInt < 0
        split at whole <;> split at low <;> omega
      · intro _ below
        change longLong.toInt64.toInt < 0 at below
        change (-longLong).toNat % 4294967296 = longLong.toInt64.toInt.natAbs
        split at whole <;> omega
      · intro positive
        have above : 0 ≤ longLong.toInt64.toInt := positive rfl
        change longLong.toNat = longLong.toInt64.toInt.natAbs
        split at whole <;> omega
  | none | long =>
    have same : word.toUInt64 = num := given
    have whole := toInt32_toInt word
    have wordTop := word.toNat_lt
    have count : num.toNat = word.toNat := same ▸ UInt32.toNat_toUInt64 word
    cases signed with
    | false =>
      refine pair_value UInt64.toNat ?_ ?_ fun _ => count
      · exact fun signed => absurd signed Bool.false_ne_true
      · exact fun signed => absurd signed Bool.false_ne_true
    | true =>
      refine pair_value UInt64.toNat ?_ ?_ ?_
      · intro _
        change num.toUInt32.toInt32.toInt < 0 ↔ word.toInt32.toInt < 0
        split at whole <;> split at low <;> omega
      · intro _ below
        change word.toInt32.toInt < 0 at below
        change (-num).toNat % 4294967296 = word.toInt32.toInt.natAbs
        split at whole <;> omega
      · intro positive
        have above : 0 ≤ word.toInt32.toInt := positive rfl
        change num.toNat = word.toInt32.toInt.natAbs
        split at whole <;> omega
  | short =>
    have arg := integerArg_short word longLong sameSign
    have bounds := @short_bounds signed word longLong
    change integerArg 'h'.toUInt8 flags word longLong = num at given
    rw [given] at arg
    have half := toInt16_toInt num.toUInt16
    have quarter : num.toUInt16.toNat = num.toNat % 65536 := rfl
    refine pair_value UInt64.toNat ?_ ?_ ?_
    · intro signed
      rw [if_pos signed] at bounds
      change num.toUInt16.toInt16.toInt < 0 ↔ _
      split at arg <;> split at half <;> omega
    · intro signed below
      rw [if_pos signed] at bounds
      rw [if_pos below] at arg
      change (-num).toNat % 65536 = _
      omega
    · intro positive
      have above : 0 ≤ Length.short.convert signed word longLong := by
        cases signed with
        | false => exact Int.natCast_nonneg _
        | true => exact positive rfl
      rw [if_neg (Int.not_lt.mpr above)] at arg
      omega

omit sameSign in
theorem getSign_wrong (isSigned : signed = true) (wrong : ¬LongFits longLong.toInt64.toInt) :
    ¬((getSign type Length.longLong.qualifier longLong).1.toNat = longLong.toInt64.toInt.natAbs ∧
      (getSign type Length.longLong.qualifier longLong).2 = signChar shown signed longLong.toInt64.toInt) := by
  rintro ⟨number, character⟩
  rw [getSign_eq hasSign hasPlus hasSpace] at number character
  subst isSigned
  have whole := toInt64_toInt longLong
  have top := longLong.toNat_lt
  have minus : (-longLong).toNat = (18446744073709551616 - longLong.toNat) % 18446744073709551616 :=
    UInt64.toNat_neg longLong
  have low := toInt32_toInt longLong.toUInt32
  have rest : longLong.toUInt32.toNat = longLong.toNat % 4294967296 := rfl
  have test : tested Length.longLong.qualifier longLong = longLong.toUInt32.toInt32.toInt := rfl
  rw [test] at number character
  dsimp only at number character
  have same : longLong.toUInt32.toInt32.toInt < 0 ↔ longLong.toInt64.toInt < 0 := by
    rw [← signChar_minus shown, character, signChar_minus]
  unfold LongFits at wrong
  by_cases below : longLong.toUInt32.toInt32.toInt < 0
  · have less := same.mp below
    rw [if_pos ⟨rfl, below⟩] at number
    change (-longLong).toNat % 4294967296 = longLong.toInt64.toInt.natAbs at number
    split at whole <;> omega
  · have notLess := mt same.mpr below
    split at whole <;> split at low <;> omega

end sign
end LongLong

/-! ## Both builds -/

/-- Without RT_KPRINTF_USING_LONGLONG, and with it. -/
inductive Build where
  | standard
  | longLong

def Build.Supports : Build → Length → Prop
  | standard, length => length ≠ .longLong
  | longLong, _ => True

def Build.format (build : Build) (args : LongLong.VaList) {Out : Type} (put : Out → UInt8 → Out) (fmt : List UInt8) (n : Nat)
    (out : Out) : Out :=
  match build with
  | standard => Kservice.format args.toVaList put fmt n out
  | longLong => LongLong.format args put fmt n out

/-- The number that `print_number` makes digits of, and its sign. -/
def Build.getSign (build : Build) (type flags qualifier : UInt8) (word : UInt32) (wide : UInt64) : Nat × UInt8 :=
  match build with
  | standard =>
    let number := Kservice.getSign type qualifier (integerArg qualifier flags word)
    (number.1.toNat, number.2)
  | longLong =>
    let number := LongLong.getSign type qualifier (LongLong.integerArg qualifier flags word wide)
    (number.1.toNat, number.2)

theorem Conversion.letter (conv : Conversion) : conv.char ∈ letters := by
  cases conv <;> decide

theorem convert_number {Out : Type} (put : Out → UInt8 → Out) (args : VaList) (conv : Conversion) (rest : List UInt8) (n : Nat)
    (d : Directive) (out : Out) :
    convert put args (conv.char :: rest) n d out =
      (rest, n + 1, printNumber put (integerArg d.qualifier (d.flags ||| conv.bit) (args.word n)) conv.base d.qualifier
        d.fieldWidth d.precision (d.flags ||| conv.bit) out) := by
  cases conv <;> rfl

theorem LongLong.convert_number {Out : Type} (put : Out → UInt8 → Out) (args : LongLong.VaList) (conv : Conversion)
    (rest : List UInt8) (n : Nat) (d : Directive) (out : Out) :
    LongLong.convert put args (conv.char :: rest) n d out =
      (rest, n + 1, LongLong.printNumber put
        (LongLong.integerArg d.qualifier (d.flags ||| conv.bit) (args.word n) (args.longLong n)) conv.base d.qualifier
        d.fieldWidth d.precision (d.flags ||| conv.bit) out) := by
  cases conv <;> rfl

/-- `flags` at the conversion. -/
def Layout.bits (layout : Layout) (conv : Conversion) (word : UInt32) : UInt8 :=
  layout.width.mark word (flagBits layout.flags 0) ||| conv.bit

def Build.number (build : Build) (args : LongLong.VaList) (n : Nat) (layout : Layout) (length : Length) (conv : Conversion) :
    Nat × UInt8 :=
  build.getSign (layout.type conv (args.word n)) (layout.bits conv (args.word n)) length.qualifier
    (args.word (n + layout.taken)) (args.longLong (n + layout.taken))

theorem Build.format_number (build : Build) {length : Length} (supported : build.Supports length) (args : LongLong.VaList)
    (layout : Layout) (conv : Conversion) (n : Nat) {Out : Type} (put : Out → UInt8 → Out) (rest : List UInt8) (out : Out) :
    build.format args put ('%'.toUInt8 :: (layout.text ++ (length.text ++ conv.char :: rest))) n out =
      build.format args put rest (n + layout.taken + 1)
        ((spread (numeral conv.digit conv.radix (build.number args n layout length conv).1).reverse
          (build.number args n layout length conv).2 (layout.width.field (args.word n))
          (layout.precision.field (args.word (n + layout.width.taken))) (layout.type conv (args.word n))).foldl put out) := by
  have type : shownType ((layout.read args.toVaList n length).flags ||| conv.bit) = layout.type conv (args.word n) := rfl
  have plain := layout.type_special conv (args.word n)
  cases build with
  | standard =>
    unfold Build.format
    dsimp only
    rw [Kservice.format, if_neg (not_not.mpr rfl)]
    dsimp only
    rw [parse_text layout n conv.letter rest args.toVaList supported]
    dsimp only
    rw [convert_number]
    dsimp only
    rw [printNumber_eq, numberTmp_eq, type, layout.type_digit, conv.base_radix, printTmp_eq put _ _ _ _ _ plain]
    rfl
  | longLong =>
    unfold Build.format
    dsimp only
    rw [LongLong.format, if_neg (not_not.mpr rfl)]
    dsimp only
    rw [LongLong.parse_text layout n conv.letter rest args length]
    dsimp only
    rw [LongLong.convert_number]
    dsimp only
    rw [LongLong.printNumber]
    dsimp only
    rw [LongLong.numberTmp_eq, type, layout.type_digit, conv.base_radix, printTmp_eq put _ _ _ _ _ plain]
    rfl

def Layout.value (layout : Layout) (args : LongLong.VaList) (n : Nat) (length : Length) (conv : Conversion) : Int :=
  length.convert conv.signed (args.word (n + layout.taken)) (args.longLong (n + layout.taken))

/-- A signed `long long` with a value that a `long` does not show. -/
def Misread (length : Length) (conv : Conversion) (longLong : UInt64) : Prop :=
  length = .longLong ∧ conv.signed = true ∧ ¬LongFits longLong.toInt64.toInt

theorem Layout.bits_sign (layout : Layout) (conv : Conversion) (word : UInt32) :
    Has (layout.bits conv word) sign ↔ conv.signed = true := by
  have same := layout.type_sign conv word
  unfold Layout.type at same
  rwa [has_shownType (by decide)] at same

theorem Build.number_eq (build : Build) {length : Length} (supported : build.Supports length) (args : LongLong.VaList)
    (n : Nat) (layout : Layout) (conv : Conversion) :
    build.number args n layout length conv =
        ((layout.value args n length conv).natAbs, signChar layout.flags conv.signed (layout.value args n length conv)) ↔
      ¬Misread length conv (args.longLong (n + layout.taken)) := by
  have hasSign := layout.type_sign conv (args.word n)
  have sameSign := layout.bits_sign conv (args.word n)
  have hasPlus := layout.type_plus conv (args.word n)
  have hasSpace := layout.type_space conv (args.word n)
  cases build with
  | standard =>
    refine iff_of_true ?_ fun misread => supported misread.1
    have right := getSign_value hasSign sameSign hasPlus hasSpace (args.word (n + layout.taken))
      (args.longLong (n + layout.taken)) supported
    exact Prod.ext right.1 right.2
  | longLong =>
    constructor
    · rintro right ⟨rfl, signed, wrong⟩
      refine LongLong.getSign_wrong hasSign hasPlus hasSpace (args.longLong (n + layout.taken)) signed wrong ?_
      unfold Layout.value at right
      rw [signed] at right
      exact ⟨congrArg Prod.fst right, by rw [signed]; exact congrArg Prod.snd right⟩
    · intro fine
      have right := LongLong.getSign_value hasSign sameSign hasPlus hasSpace (args.word (n + layout.taken))
        (args.longLong (n + layout.taken)) fun wide : length = .longLong => fun signed =>
          by_contra fun wrong => fine ⟨wide, signed, wrong⟩
      exact Prod.ext right.1 right.2

theorem Conversion.big (conv : Conversion) : 1 < conv.radix := by
  cases conv <;> decide

theorem Build.number_lt (build : Build) (args : LongLong.VaList) (n : Nat) (layout : Layout) (length : Length)
    (conv : Conversion) : (build.number args n layout length conv).1 < 2 ^ 64 := by
  cases build with
  | standard => exact Nat.lt_of_lt_of_le (UInt32.toNat_lt _) (Nat.pow_le_pow_right (by decide) (by decide))
  | longLong => exact UInt64.toNat_lt _

theorem Build.tmp_length (build : Build) (args : LongLong.VaList) (n : Nat) (layout : Layout) (length : Length)
    (conv : Conversion) :
    0 < (numeral conv.digit conv.radix (build.number args n layout length conv).1).reverse.length ∧
      (numeral conv.digit conv.radix (build.number args n layout length conv).1).reverse.length ≤ 64 := by
  rw [List.length_reverse]
  refine ⟨numeral_length_pos _, numeral_length_le conv.big (by decide) ?_⟩
  exact Nat.lt_of_lt_of_le (build.number_lt args n layout length conv) (Nat.pow_le_pow_left conv.big 64)

/-! ## No width and no precision -/

theorem spread_plain {tmp : List UInt8} (some : 0 < tmp.length) (small : tmp.length ≤ 64) (sign type : UInt8) :
    spread tmp sign (-1) (-1) type = signText sign ++ tmp.reverse := by
  have minus : (-1 : Int32).toInt = -1 := rfl
  have shown : shownSize tmp (-1) = tmp.length := by
    unfold shownSize
    omega
  have digits : precise tmp (-1) = tmp.reverse := by
    unfold precise
    rw [minus, Int.toNat_of_nonpos (by omega), if_neg (by decide)]
    rfl
  have places := @signSize_cases sign
  have none : ((-1 : Int32).toInt - shownSize tmp (-1) - signSize sign).toNat = 0 :=
    Int.toNat_of_nonpos (by omega)
  by_cases onLeft : Has type left
  · rw [spread_left some small (by decide) ((has_either _ _ _).mpr (Or.inr onLeft)) onLeft (by omega), none, digits]
    exact congrArg _ (List.append_nil _)
  · by_cases zeros : Has type zeropad
    · rw [spread_zeros some small (by decide) ((has_either _ _ _).mpr (Or.inl zeros)) onLeft zeros (by omega), none, digits]
      rfl
    · have neither : ¬Has type (zeropad ||| left) := fun has => ((has_either _ _ _).mp has).elim zeros onLeft
      rw [spread_blanks some small (by decide) neither onLeft (by omega), none, digits]
      rfl

def Prints (build : Build) (args : LongLong.VaList) (n : Nat) (flags : List Flag) (length : Length) (conv : Conversion) :
    Prop :=
  let value := length.convert conv.signed (args.word n) (args.longLong n)
  ∃ text, Shortest conv.digit conv.radix text value.natAbs ∧
    ∀ (Out : Type) (put : Out → UInt8 → Out) (rest : List UInt8) (out : Out),
      build.format args put ('%'.toUInt8 :: (flags.map Flag.char ++ (length.text ++ conv.char :: rest))) n out =
        build.format args put rest (n + 1) ((signText (signChar flags conv.signed value) ++ text).foldl put out)

theorem format_nil (build : Build) (args : LongLong.VaList) {Out : Type} (put : Out → UInt8 → Out) (n : Nat) (out : Out) :
    build.format args put [] n out = out := by
  cases build with
  | standard => exact Kservice.format.eq_1 args.toVaList put n out
  | longLong => exact LongLong.format.eq_1 args put n out

theorem foldl_append (text out : List UInt8) : text.foldl (fun out ch => out ++ [ch]) out = out ++ text := by
  induction text generalizing out with
  | nil => exact (List.append_nil out).symm
  | cons ch text ih => rw [List.foldl_cons, ih, List.append_assoc, List.singleton_append]

def signs : List UInt8 := ['-'.toUInt8, '+'.toUInt8, ' '.toUInt8]

theorem signChar_signs (flags : List Flag) (signed : Bool) (value : Int) :
    signChar flags signed value = 0 ∨ signChar flags signed value ∈ signs := by
  unfold signChar
  split
  · split
    · exact Or.inr (by decide)
    split
    · exact Or.inr (by decide)
    split
    · exact Or.inr (by decide)
    · exact Or.inl rfl
  · exact Or.inl rfl

theorem Build.number_sign (build : Build) (args : LongLong.VaList) (n : Nat) (layout : Layout) (length : Length)
    (conv : Conversion) :
    (build.number args n layout length conv).2 = 0 ∨ (build.number args n layout length conv).2 ∈ signs := by
  have hasSign := layout.type_sign conv (args.word n)
  have hasPlus := layout.type_plus conv (args.word n)
  have hasSpace := layout.type_space conv (args.word n)
  cases build with
  | standard =>
    unfold Build.number Build.getSign
    dsimp only
    rw [Kservice.getSign_eq hasSign hasPlus hasSpace]
    exact signChar_signs _ _ _
  | longLong =>
    unfold Build.number Build.getSign
    dsimp only
    rw [LongLong.getSign_eq hasSign hasPlus hasSpace]
    exact signChar_signs _ _ _

theorem Conversion.digit_signs (conv : Conversion) : ∀ place < conv.radix, conv.digit place ∉ signs := by
  cases conv <;> decide

theorem Conversion.digit_distinct (conv : Conversion) : Distinct conv.digit conv.radix := by
  unfold Distinct
  cases conv <;> decide

theorem Conversion.no_sign {conv : Conversion} {text : List UInt8} {m : Nat}
    (stands : Denotes conv.digit conv.radix text m) : ∀ ch ∈ text, ch ∉ signs := by
  intro ch inside
  obtain ⟨place, below, rfl⟩ := stands.digits ch inside
  exact conv.digit_signs place below

theorem signed_inj {sign other : UInt8} (isSign : sign = 0 ∨ sign ∈ signs) (otherSign : other = 0 ∨ other ∈ signs)
    {text behind : List UInt8} (digits : ∀ ch ∈ text, ch ∉ signs) (others : ∀ ch ∈ behind, ch ∉ signs)
    (same : signText sign ++ text = signText other ++ behind) :
    sign = other ∧ text = behind := by
  unfold signText at same
  by_cases none : sign = 0 <;> by_cases bare : other = 0
  · rw [if_neg (not_not.mpr none), if_neg (not_not.mpr bare)] at same
    exact ⟨none.trans bare.symm, same⟩
  · rw [if_neg (not_not.mpr none), if_pos bare] at same
    have first : other ∈ text := by
      change text = other :: behind at same
      exact same ▸ List.mem_cons_self
    exact absurd (otherSign.resolve_left bare) (digits other first)
  · rw [if_pos none, if_neg (not_not.mpr bare)] at same
    have first : sign ∈ behind := by
      change sign :: text = behind at same
      exact same ▸ List.mem_cons_self
    exact absurd (isSign.resolve_left none) (others sign first)
  · rw [if_pos none, if_pos bare] at same
    obtain ⟨first, others⟩ := List.cons.inj same
    exact ⟨first, others⟩

/-- A directive prints its argument if and only if `print_number` gets the number and the sign of the argument. -/
theorem prints_iff (build : Build) {length : Length} (supported : build.Supports length) (args : LongLong.VaList) (n : Nat)
    (flags : List Flag) (conv : Conversion) :
    Prints build args n flags length conv ↔
      build.number args n ⟨flags, .none, .none⟩ length conv =
        ((length.convert conv.signed (args.word n) (args.longLong n)).natAbs,
          signChar flags conv.signed (length.convert conv.signed (args.word n) (args.longLong n))) := by
  have printed (Out : Type) (put : Out → UInt8 → Out) (rest : List UInt8) (out : Out) :=
    build.format_number supported args ⟨flags, .none, .none⟩ conv n put rest out
  have size := build.tmp_length args n ⟨flags, .none, .none⟩ length conv
  have number := build.number_sign args n ⟨flags, .none, .none⟩ length conv
  generalize build.number args n ⟨flags, .none, .none⟩ length conv = read at printed size number ⊢
  have plain := spread_plain size.1 size.2 read.2 (Layout.type ⟨flags, .none, .none⟩ conv (args.word n))
  rw [List.reverse_reverse] at plain
  have output (Out : Type) (put : Out → UInt8 → Out) (rest : List UInt8) (out : Out) :
      build.format args put ('%'.toUInt8 :: (flags.map Flag.char ++ (length.text ++ conv.char :: rest))) n out =
        build.format args put rest (n + 1)
          ((signText read.2 ++ numeral conv.digit conv.radix read.1).foldl put out) := by
    have text : Layout.text ⟨flags, .none, .none⟩ = flags.map Flag.char := List.append_nil _
    rw [← plain, ← text]
    exact printed Out put rest out
  constructor
  · rintro ⟨text, shortest, prints⟩
    have same := (output _ (fun out ch => out ++ [ch]) [] []).symm.trans (prints _ _ _ _)
    rw [format_nil, format_nil, foldl_append, foldl_append, List.nil_append, List.nil_append] at same
    have stands : Denotes conv.digit conv.radix (numeral conv.digit conv.radix read.1) read.1 :=
      numeral_denotes conv.big read.1
    obtain ⟨sameSign, sameText⟩ := signed_inj number (signChar_signs _ _ _) (Conversion.no_sign stands)
      (Conversion.no_sign shortest.denotes) same
    rw [sameText] at stands
    exact Prod.ext (stands.unique conv.digit_distinct shortest.denotes) sameSign
  · rintro rfl
    exact ⟨_, numeral_shortest conv.big _, output⟩

/-- Every integer is printed as its sign and its shortest numeral, but for a signed `long long` outside of the values that
the code tests as a `long`. -/
theorem integers_exact (build : Build) {length : Length} (supported : build.Supports length) (args : LongLong.VaList) (n : Nat)
    (flags : List Flag) (conv : Conversion) :
    Prints build args n flags length conv ↔
      ¬(length = .longLong ∧ conv.signed = true ∧ ¬LongFits (args.longLong n).toInt64.toInt) :=
  (prints_iff build supported args n flags conv).trans
    (build.number_eq supported args n ⟨flags, .none, .none⟩ conv)

/-- Arguments that are all one `long long`. -/
def allLongLong (longLong : UInt64) : LongLong.VaList where
  word _ := 0
  string _ := ⟨[], List.not_mem_nil⟩
  longLong _ := longLong

theorem supports_longLong (length : Length) : Build.Supports .longLong length := trivial

theorem integers_exact_minus_one :
    Prints .longLong (allLongLong 18446744073709551615) 0 [] .longLong .d :=
  (integers_exact .longLong (supports_longLong .longLong) (allLongLong 18446744073709551615) 0 [] .d).mpr
    fun misread => misread.2.2 (by decide)

theorem long_long_misread :
    ¬∀ (build : Build) (length : Length), build.Supports length → ∀ (args : LongLong.VaList) (n : Nat) (flags : List Flag)
      (conv : Conversion), Prints build args n flags length conv := by
  intro always
  have right := (prints_iff .longLong (supports_longLong .longLong) (allLongLong 2147483648) 0 [] .d).mp
    (always .longLong .longLong (supports_longLong .longLong) (allLongLong 2147483648) 0 [] .d)
  exact absurd (congrArg Prod.snd right) (by decide)

end RtThread.Kservice
