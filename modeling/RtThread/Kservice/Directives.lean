import RtThread.Kservice.LongLong

/-! The directives of a format: flags, a width, a precision and a length in front of a conversion, and what
`rt_vsnprintf` reads from them. -/

set_option autoImplicit false
namespace RtThread.Kservice

/-! ## Flags -/

inductive Flag where
  | minus
  | plus
  | space
  | zero
  deriving DecidableEq

def Flag.char : Flag → UInt8
  | minus => '-'.toUInt8
  | plus => '+'.toUInt8
  | space => ' '.toUInt8
  | zero => '0'.toUInt8

def Flag.bit : Flag → UInt8
  | minus => left
  | plus => Kservice.plus
  | space => Kservice.space
  | zero => zeropad

theorem and_or_spread (flags bit other : UInt8) : flags &&& (bit ||| other) = flags &&& bit ||| flags &&& other :=
  UInt8.toBitVec_inj.mp BitVec.and_or_distrib_left

theorem has_or (flags more bit : UInt8) : Has (flags ||| more) bit ↔ Has flags bit ∨ Has more bit := by
  have spread : (flags ||| more) &&& bit = flags &&& bit ||| more &&& bit := by
    rw [UInt8.and_comm, and_or_spread, UInt8.and_comm bit, UInt8.and_comm bit]
  unfold Has
  rw [spread, ne_eq, UInt8.or_eq_zero_iff, not_and_or]

theorem has_either (flags bit other : UInt8) : Has flags (bit ||| other) ↔ Has flags bit ∨ Has flags other := by
  unfold Has
  rw [and_or_spread, ne_eq, UInt8.or_eq_zero_iff, not_and_or]

def flagBits (flags : List Flag) (bits : UInt8) : UInt8 := flags.foldl (fun bits flag => bits ||| flag.bit) bits

theorem has_flagBits (flags : List Flag) (bits bit : UInt8) :
    Has (flagBits flags bits) bit ↔ Has bits bit ∨ ∃ flag ∈ flags, Has flag.bit bit := by
  induction flags generalizing bits with
  | nil =>
    constructor
    · exact Or.inl
    · rintro (has | ⟨_, inside, _⟩)
      · exact has
      · exact absurd inside List.not_mem_nil
  | cons flag flags ih =>
    unfold flagBits at ih ⊢
    simp only [List.foldl_cons, ih, has_or, or_assoc, List.mem_cons, exists_eq_or_imp]

theorem has_bit (flag other : Flag) : Has flag.bit other.bit ↔ flag = other := by
  cases flag <;> cases other <;> decide

theorem has_flag (flags : List Flag) (flag : Flag) : Has (flagBits flags 0) flag.bit ↔ flag ∈ flags := by
  rw [has_flagBits]
  constructor
  · rintro (has | ⟨other, inside, has⟩)
    · exact absurd UInt8.zero_and has
    · rwa [← (has_bit other flag).mp has]
  · intro inside
    exact Or.inr ⟨flag, inside, (has_bit flag flag).mpr rfl⟩

theorem has_other (flags : List Flag) {bit : UInt8} (other : ∀ flag : Flag, ¬Has flag.bit bit) :
    ¬Has (flagBits flags 0) bit := by
  rw [has_flagBits]
  rintro (has | ⟨flag, _, has⟩)
  · exact absurd UInt8.zero_and has
  · exact other flag has

/-- `fmt` does not start with a character of a kind. -/
def Avoids (kind : UInt8 → Prop) (fmt : List UInt8) : Prop := ∀ ch rest, fmt = ch :: rest → ¬kind ch

abbrev IsFlag (ch : UInt8) : Prop :=
  ch = '-'.toUInt8 ∨ ch = '+'.toUInt8 ∨ ch = ' '.toUInt8 ∨ ch = '#'.toUInt8 ∨ ch = '0'.toUInt8

theorem parseFlags_done {fmt : List UInt8} (done : Avoids IsFlag fmt) (bits : UInt8) : parseFlags fmt bits = (fmt, bits) := by
  cases fmt with
  | nil => rfl
  | cons ch rest =>
    have other := done ch rest rfl
    unfold IsFlag at other
    rw [not_or, not_or, not_or, not_or] at other
    unfold parseFlags
    rw [if_neg other.1, if_neg other.2.1, if_neg other.2.2.1, if_neg other.2.2.2.1, if_neg other.2.2.2.2]

theorem parseFlags_text (flags : List Flag) {rest : List UInt8} (done : Avoids IsFlag rest) (bits : UInt8) :
    parseFlags (flags.map Flag.char ++ rest) bits = (rest, flagBits flags bits) := by
  induction flags generalizing bits with
  | nil => exact parseFlags_done done bits
  | cons flag flags ih =>
    have step : parseFlags (flag.char :: (flags.map Flag.char ++ rest)) bits =
        parseFlags (flags.map Flag.char ++ rest) (bits ||| flag.bit) := by
      cases flag <;> rfl
    rw [List.map_cons, List.cons_append, step, ih]
    rfl

/-! ## Numbers -/

/-- The number that a text of decimal digits stands for, behind the digits of `value`. -/
def decimal : List UInt8 → Nat → Nat
  | [], value => value
  | ch :: rest, value => decimal rest (value * 10 + (ch.toNat - 48))

structure Literal where
  digits : List UInt8
  nonempty : digits ≠ []
  digital : ∀ ch ∈ digits, isDigit ch
  small : decimal digits 0 < 2147483648

def Literal.value (literal : Literal) : Nat := decimal literal.digits 0

theorem isDigit_bounds {ch : UInt8} (digit : isDigit ch = true) : 48 ≤ ch.toNat ∧ ch.toNat ≤ 57 := by
  have bounds := of_decide_eq_true digit
  exact ⟨UInt8.le_iff_toNat_le.mp bounds.1, UInt8.le_iff_toNat_le.mp bounds.2⟩

theorem digit_step {ch : UInt8} (digit : isDigit ch = true) (value : Nat) :
    Int32.ofNat value * 10 + ch.toUInt32.toInt32 - '0'.toUInt8.toUInt32.toInt32 =
      Int32.ofNat (value * 10 + (ch.toNat - 48)) := by
  have bounds := isDigit_bounds digit
  obtain ⟨d, above⟩ := Nat.exists_eq_add_of_le bounds.1
  have wide : ch.toUInt32.toInt32 = Int32.ofNat 48 + Int32.ofNat d := by
    rw [← Int32.ofNat_add, ← above, ← UInt32.ofNat_uInt8ToNat, UInt32.toInt32_ofNat']
  rw [wide, above, Nat.add_sub_cancel_left, Int32.ofNat_add, Int32.ofNat_mul, Int32.add_comm (Int32.ofNat 48),
    ← Int32.add_assoc]
  exact Int32.add_sub_cancel _ _

theorem skipAtoi_text (digits : List UInt8) (digital : ∀ ch ∈ digits, isDigit ch) {rest : List UInt8}
    (done : Avoids (fun ch => isDigit ch = true) rest) (value : Nat) :
    skipAtoi (digits ++ rest) (Int32.ofNat value) = (rest, Int32.ofNat (decimal digits value)) := by
  induction digits generalizing value with
  | nil =>
    cases rest with
    | nil => rfl
    | cons ch rest => exact if_neg (done ch rest rfl)
  | cons ch digits ih =>
    have digit := digital ch List.mem_cons_self
    rw [List.cons_append, skipAtoi, if_pos digit, digit_step digit,
      ih fun other inside => digital other (List.mem_cons_of_mem _ inside)]
    rfl

theorem Literal.value_toInt (literal : Literal) : (Int32.ofNat literal.value).toInt = literal.value :=
  Int32.toInt_ofNat_of_lt literal.small

theorem Literal.split (literal : Literal) : ∃ ch rest, literal.digits = ch :: rest ∧ isDigit ch = true := by
  obtain ⟨digits, nonempty, digital, small⟩ := literal
  cases digits with
  | nil => exact absurd rfl nonempty
  | cons ch rest => exact ⟨ch, rest, rfl, digital ch List.mem_cons_self⟩

/-! ## Width and precision -/

/-- A width starts with another digit than the flag 0. -/
inductive Width where
  | none
  | literal (number : Literal) (first : number.digits.head? ≠ some '0'.toUInt8)
  | argument

def Width.text : Width → List UInt8
  | none => []
  | literal number _ => number.digits
  | argument => ['*'.toUInt8]

def Width.taken : Width → Nat
  | argument => 1
  | _ => 0

/-- `field_width`, with `word` as the next argument. -/
def Width.field (word : UInt32) : Width → Int32
  | none => -1
  | literal number _ => Int32.ofNat number.value
  | argument => if word.toInt32 < 0 then -word.toInt32 else word.toInt32

/-- `flags`, once a negative width has set LEFT. -/
def Width.mark (word : UInt32) (bits : UInt8) : Width → UInt8
  | argument => if word.toInt32 < 0 then bits ||| left else bits
  | _ => bits

inductive Precision where
  | none
  | point
  | literal (number : Literal)
  | argument

def Precision.text : Precision → List UInt8
  | none => []
  | point => ['.'.toUInt8]
  | literal number => '.'.toUInt8 :: number.digits
  | argument => ['.'.toUInt8, '*'.toUInt8]

def Precision.taken : Precision → Nat
  | argument => 1
  | _ => 0

/-- `precision`, with `word` as the next argument. -/
def Precision.field (word : UInt32) : Precision → Int32
  | none => -1
  | point => 0
  | literal number => Int32.ofNat number.value
  | argument => if word.toInt32 < 0 then 0 else word.toInt32

abbrev InWidth (ch : UInt8) : Prop := isDigit ch = true ∨ ch = '*'.toUInt8

theorem parseWidth_text (args : VaList) (width : Width) {rest : List UInt8} (done : Avoids InWidth rest) (n : Nat)
    (bits : UInt8) :
    parseWidth args (width.text ++ rest) n bits =
      (rest, n + width.taken, width.field (args.word n), width.mark (args.word n) bits) := by
  cases width with
  | none =>
    cases rest with
    | nil => rfl
    | cons ch rest =>
      have other := done ch rest rfl
      unfold InWidth at other
      rw [not_or] at other
      unfold Width.text parseWidth
      dsimp only [List.nil_append]
      rw [if_neg other.1, if_neg other.2]
      rfl
  | literal number first =>
    obtain ⟨ch, digits, split, digit⟩ := number.split
    have read := skipAtoi_text number.digits number.digital (fun ch tail cut inside => done ch tail cut (Or.inl inside)) 0
    change parseWidth args (number.digits ++ rest) n bits = (rest, n, Int32.ofNat (decimal number.digits 0), bits)
    rw [split] at read ⊢
    rw [List.cons_append, parseWidth, if_pos digit]
    exact congrArg (fun number : List UInt8 × Int32 => (number.1, n, number.2, bits)) read
  | argument =>
    unfold Width.text Width.taken Width.field Width.mark parseWidth
    rw [List.cons_append]
    dsimp only [List.nil_append]
    rw [if_neg (by decide), if_pos rfl]
    by_cases negative : (args.word n).toInt32 < 0
    · simp only [if_pos negative]
    · simp only [if_neg negative]

abbrev InPrecision (ch : UInt8) : Prop := InWidth ch ∨ ch = '.'.toUInt8

theorem field_nonneg (number : Literal) : ¬Int32.ofNat number.value < 0 := by
  rw [Int32.lt_iff_toInt_lt, Int32.toInt_zero, number.value_toInt]
  omega

theorem parsePoint_done (args : VaList) {rest : List UInt8} (done : Avoids InPrecision rest) (n : Nat) :
    parsePoint args rest n = (rest, n, -1) := by
  cases rest with
  | nil => rfl
  | cons ch rest =>
    have other := done ch rest rfl
    unfold InPrecision InWidth at other
    rw [not_or, not_or] at other
    unfold parsePoint
    dsimp only
    rw [if_neg other.1.1, if_neg other.1.2]

theorem parsePrecision_text (args : VaList) (precision : Precision) {rest : List UInt8} (done : Avoids InPrecision rest)
    (n : Nat) :
    parsePrecision args (precision.text ++ rest) n =
      (rest, n + precision.taken, precision.field (args.word n)) := by
  cases precision with
  | none =>
    cases rest with
    | nil => rfl
    | cons ch rest =>
      have other := done ch rest rfl
      unfold InPrecision at other
      rw [not_or] at other
      exact if_neg other.2
  | point =>
    unfold Precision.text Precision.taken Precision.field parsePrecision
    rw [List.cons_append]
    dsimp only [List.nil_append]
    rw [if_pos rfl, parsePoint_done args done]
    rfl
  | literal number =>
    obtain ⟨ch, digits, split, digit⟩ := number.split
    have read := skipAtoi_text number.digits number.digital
      (fun ch tail cut inside => done ch tail cut (Or.inl (Or.inl inside))) 0
    have point : parsePoint args (number.digits ++ rest) n = (rest, n, Int32.ofNat number.value) := by
      unfold Literal.value
      rw [split] at read ⊢
      rw [List.cons_append, parsePoint, if_pos digit]
      exact congrArg (fun number : List UInt8 × Int32 => (number.1, n, number.2)) read
    unfold Precision.text Precision.taken Precision.field parsePrecision
    rw [List.cons_append]
    dsimp only
    rw [if_pos rfl, point, if_neg (field_nonneg number)]
    rfl
  | argument => rfl

/-! ## Lengths and conversions -/

inductive Length where
  | none
  | short
  | long
  | longLong
  deriving DecidableEq

def Length.text : Length → List UInt8
  | none => []
  | short => ['h'.toUInt8]
  | long => ['l'.toUInt8]
  | longLong => ['l'.toUInt8, 'l'.toUInt8]

def Length.qualifier : Length → UInt8
  | none => 0
  | short => 'h'.toUInt8
  | long => 'l'.toUInt8
  | longLong => 'L'.toUInt8

def letters : List UInt8 := "diuxXobs".toList.map Char.toUInt8

theorem letter_other {ch : UInt8} (letter : ch ∈ letters) :
    ¬InPrecision ch ∧ ¬IsFlag ch ∧ ch ≠ 'h'.toUInt8 ∧ ch ≠ 'l'.toUInt8 ∧ ch ≠ 'L'.toUInt8 := by
  unfold InPrecision InWidth IsFlag
  revert ch
  exact @of_decide_eq_true _ (List.decidableBAll _ letters) (by decide)

theorem parseQualifier_text {length : Length} (supported : length ≠ .longLong) {ch : UInt8} (letter : ch ∈ letters)
    (rest : List UInt8) : parseQualifier (length.text ++ ch :: rest) = (ch :: rest, length.qualifier) := by
  obtain ⟨_, _, noH, noL, _⟩ := letter_other letter
  cases length with
  | none =>
    refine if_neg ?_
    rw [not_or]
    exact ⟨noH, noL⟩
  | short => rfl
  | long => rfl
  | longLong => exact absurd rfl supported

theorem LongLong.parseQualifier_text (length : Length) {ch : UInt8} (letter : ch ∈ letters) (rest : List UInt8) :
    LongLong.parseQualifier (length.text ++ ch :: rest) = (ch :: rest, length.qualifier) := by
  obtain ⟨_, _, noH, noL, noLarge⟩ := letter_other letter
  cases length with
  | none =>
    refine if_neg ?_
    rw [not_or, not_or]
    exact ⟨noH, noL, noLarge⟩
  | short => rfl
  | long =>
    have single : ¬('l'.toUInt8 = 'l'.toUInt8 ∧ (ch :: rest).head? = some 'l'.toUInt8) := by
      rw [List.head?_cons, Option.some_inj]
      exact fun double => noL double.2
    exact if_neg single
  | longLong => rfl

theorem Length.avoids (length : Length) {ch : UInt8} (letter : ch ∈ letters) (rest : List UInt8) :
    Avoids InPrecision (length.text ++ ch :: rest) ∧ Avoids IsFlag (length.text ++ ch :: rest) := by
  have other := letter_other letter
  constructor <;> intro head tail split <;> cases length <;> injection split with same _ <;> subst same
  any_goals exact other.1
  any_goals exact other.2.1
  all_goals decide

theorem Precision.avoids (precision : Precision) {rest : List UInt8} (done : Avoids InPrecision rest)
    (noFlag : Avoids IsFlag rest) :
    Avoids InWidth (precision.text ++ rest) ∧ Avoids IsFlag (precision.text ++ rest) := by
  cases precision with
  | none => exact ⟨fun ch tail split inside => done ch tail split (Or.inl inside), noFlag⟩
  | point | literal | argument =>
    constructor <;> intro head tail split <;> injection split with same _ <;> subst same <;> decide

theorem digit_flag {ch : UInt8} (digit : isDigit ch = true) (first : ch ≠ '0'.toUInt8) : ¬IsFlag ch := by
  have bounds := isDigit_bounds digit
  rintro (rfl | rfl | rfl | rfl | rfl)
  · exact absurd bounds (by decide)
  · exact absurd bounds (by decide)
  · exact absurd bounds (by decide)
  · exact absurd bounds (by decide)
  · exact first rfl

theorem Width.avoids (width : Width) {rest : List UInt8} (noFlag : Avoids IsFlag rest) :
    Avoids IsFlag (width.text ++ rest) := by
  cases width with
  | none => exact noFlag
  | literal number first =>
    obtain ⟨ch, digits, cut, digit⟩ := number.split
    intro head tail split
    change number.digits ++ rest = head :: tail at split
    rw [cut] at split first
    injection split with same _
    subst same
    exact digit_flag digit fun zero => first (congrArg some zero)
  | argument =>
    intro head tail split
    injection split with same _
    subst same
    decide

/-! ## Directives -/

structure Layout where
  flags : List Flag
  width : Width
  precision : Precision

def Layout.text (layout : Layout) : List UInt8 :=
  layout.flags.map Flag.char ++ (layout.width.text ++ layout.precision.text)

def Layout.taken (layout : Layout) : Nat := layout.width.taken + layout.precision.taken

def Layout.read (layout : Layout) (args : VaList) (n : Nat) (length : Length) : Directive where
  flags := layout.width.mark (args.word n) (flagBits layout.flags 0)
  fieldWidth := layout.width.field (args.word n)
  precision := layout.precision.field (args.word (n + layout.width.taken))
  qualifier := length.qualifier

section parse
variable (layout : Layout) (n : Nat) {ch : UInt8} (letter : ch ∈ letters) (rest : List UInt8)
include letter

theorem Layout.avoids (length : Length) :
    Avoids IsFlag (layout.width.text ++ (layout.precision.text ++ (length.text ++ ch :: rest))) ∧
      Avoids InWidth (layout.precision.text ++ (length.text ++ ch :: rest)) ∧
      Avoids InPrecision (length.text ++ ch :: rest) := by
  have behind := length.avoids letter rest
  have precision := layout.precision.avoids behind.1 behind.2
  exact ⟨layout.width.avoids precision.2, precision.1, behind.1⟩

theorem parse_text (args : VaList) {length : Length} (supported : length ≠ .longLong) :
    parse args (layout.text ++ (length.text ++ ch :: rest)) n =
      (ch :: rest, n + layout.taken, layout.read args n length) := by
  obtain ⟨flags, width, precision⟩ := layout.avoids letter rest length
  unfold parse Layout.text
  rw [List.append_assoc, List.append_assoc, parseFlags_text layout.flags flags]
  dsimp only
  rw [parseWidth_text args layout.width width]
  dsimp only
  rw [parsePrecision_text args layout.precision precision]
  dsimp only
  rw [parseQualifier_text supported letter, Nat.add_assoc]
  rfl

theorem LongLong.parse_text (args : LongLong.VaList) (length : Length) :
    LongLong.parse args (layout.text ++ (length.text ++ ch :: rest)) n =
      (ch :: rest, n + layout.taken, layout.read args.toVaList n length) := by
  obtain ⟨flags, width, precision⟩ := layout.avoids letter rest length
  unfold LongLong.parse Layout.text
  rw [List.append_assoc, List.append_assoc, parseFlags_text layout.flags flags]
  dsimp only
  rw [parseWidth_text args.toVaList layout.width width]
  dsimp only
  rw [parsePrecision_text args.toVaList layout.precision precision]
  dsimp only
  rw [LongLong.parseQualifier_text length letter, Nat.add_assoc]
  rfl

end parse

end RtThread.Kservice
