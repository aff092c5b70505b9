import RtThread.Kservice.Vsnprintf

/-! `rt_vsnprintf` and `print_number` with RT_KPRINTF_USING_LONGLONG: a number is an `unsigned long long`, and `ll`
stands for the qualifier `L`. -/

set_option autoImplicit false
namespace RtThread.Kservice

section loops
variable {Out : Type} (put : Out → UInt8 → Out)

/-- `type`, once LEFT has taken ZEROPAD out of it. -/
def shownType (type : UInt8) : UInt8 := if Has type left then type &&& ~~~zeropad else type

/-- `print_number` behind the digits of the number. -/
def printTmp (tmp : List UInt8) (sign : UInt8) (base : Base) (s precision : Int32) (type : UInt8) (out : Out) : Out :=
  let c := if Has type zeropad then '0'.toUInt8 else ' '.toUInt8
  let size := s - specialSize type base
  let i := Int32.ofNat tmp.length
  let precisionBak := precision
  let precision := if i > precision then i else precision
  let size := size - precision
  let (out, size) :=
    if ¬Has type (zeropad ||| left) then
      padDown put ' '.toUInt8 0 (if sign ≠ 0 ∧ size > 0 then size - 1 else size) out
    else (out, size)
  let (out, size) := if sign ≠ 0 then (put out sign, size - 1) else (out, size)
  let out := (specialChars type base).foldl put out
  let (out, size) := if ¬Has type left then padDown put c 0 size out else (out, size)
  let (out, _) := padDown put '0'.toUInt8 i precision out
  let out := putDigits put tmp precisionBak tmp.length out
  (padDown put ' '.toUInt8 0 size out).1

theorem printNumber_eq (num : UInt32) (base : Base) (qualifier : UInt8) (s precision : Int32) (type : UInt8) (out : Out) :
    printNumber put num base qualifier s precision type out =
      printTmp put (numberTmp (shownType type) base (getSign (shownType type) qualifier num).1)
        (getSign (shownType type) qualifier num).2 base s precision (shownType type) out := rfl

end loops

namespace LongLong

/-- The loop that fills `tmp` with the digits of a number, the last first. -/
def numberDigits (digits : List UInt8) (base : Base) (num : UInt64) : List UInt8 :=
  if num = 0 then []
  else digits.getD (num % base.val.toUInt64).toNat 0 :: numberDigits digits base (num / base.val.toUInt64)
termination_by num.toNat
decreasing_by
  rename_i some
  have big : 1 < base.val.toNat := UInt32.lt_iff_toNat_lt.mp base.2
  have positive : 0 < num.toNat := Nat.pos_of_ne_zero fun zero => some (UInt64.toNat_inj.mp zero)
  rw [UInt64.toNat_div, UInt32.toNat_toUInt64]
  exact Nat.div_lt_self positive big

/-- What the number has in `tmp`. -/
def numberTmp (type : UInt8) (base : Base) (num : UInt64) : List UInt8 :=
  if num = 0 then ['0'.toUInt8]
  else numberDigits (if Has type large then largeDigits else smallDigits) base num

/-- `(rt_int16_t)num < 0`, `(long)num < 0` or `(rt_int32_t)num < 0` -/
def isNegative (qualifier : UInt8) (num : UInt64) : Prop :=
  if qualifier = 'h'.toUInt8 then num.toUInt16.toInt16 < 0 else num.toUInt32.toInt32 < 0

instance (qualifier : UInt8) (num : UInt64) : Decidable (isNegative qualifier num) := by
  unfold isNegative
  infer_instance

/-- The number without its sign, and the sign, 0 for none. A `long` has 32 bits, also for the qualifier `L`. -/
def getSign (type qualifier : UInt8) (num : UInt64) : UInt64 × UInt8 :=
  if Has type sign then
    if isNegative qualifier num then
      (if qualifier = 'h'.toUInt8 then (-num).toUInt16.toUInt64 else (-num).toUInt32.toUInt64, '-'.toUInt8)
    else if Has type plus then (num, '+'.toUInt8)
    else if Has type space then (num, ' '.toUInt8)
    else (num, 0)
  else (num, 0)

section loops
variable {Out : Type} (put : Out → UInt8 → Out)

def printNumber (num : UInt64) (base : Base) (qualifier : UInt8) (s precision : Int32) (type : UInt8) (out : Out) : Out :=
  let type := shownType type
  let (num, sign) := getSign type qualifier num
  printTmp put (numberTmp type base num) sign base s precision type out

/-- The arguments, of which `va_arg` takes one as a word or as an `unsigned long long`. -/
structure VaList extends Kservice.VaList where
  longLong : Nat → UInt64

def parseQualifier (fmt : List UInt8) : List UInt8 × UInt8 :=
  match fmt with
  | [] => ([], 0)
  | ch :: rest =>
    if ch = 'h'.toUInt8 ∨ ch = 'l'.toUInt8 ∨ ch = 'L'.toUInt8 then
      if ch = 'l'.toUInt8 ∧ rest.head? = some 'l'.toUInt8 then (rest.tail, 'L'.toUInt8) else (rest, ch)
    else (ch :: rest, 0)

def integerArg (qualifier flags : UInt8) (word : UInt32) (longLong : UInt64) : UInt64 :=
  if qualifier = 'L'.toUInt8 then longLong
  else if qualifier = 'l'.toUInt8 then word.toUInt64
  else if qualifier = 'h'.toUInt8 then
    if Has flags sign then word.toUInt16.toInt16.toInt64.toUInt64 else word.toUInt16.toUInt64
  else word.toUInt64

/-- `case 'p'` -/
def convertPointer (word : UInt32) (d : Directive) (out : Out) : Out :=
  if d.fieldWidth = -1 then
    printNumber put word.toUInt64 ⟨16, hex_base⟩ d.qualifier 10 d.precision (d.flags ||| special ||| zeropad) out
  else printNumber put word.toUInt64 ⟨16, hex_base⟩ d.qualifier d.fieldWidth d.precision d.flags out

def parse (args : VaList) (fmt : List UInt8) (n : Nat) : List UInt8 × Nat × Directive :=
  let (fmt, flags) := parseFlags fmt 0
  let (fmt, n, fieldWidth, flags) := parseWidth args.toVaList fmt n flags
  let (fmt, n, precision) := parsePrecision args.toVaList fmt n
  let (fmt, qualifier) := parseQualifier fmt
  (fmt, n, ⟨flags, fieldWidth, precision, qualifier⟩)

/-- The `switch`, up to the `++fmt` of the loop. -/
def convert (args : VaList) (fmt : List UInt8) (n : Nat) (d : Directive) (out : Out) : List UInt8 × Nat × Out :=
  match fmt with
  | [] => ([], n, put out '%'.toUInt8)
  | ch :: rest =>
    if ch = 'c'.toUInt8 then (rest, n + 1, convertChar put (args.word n).toUInt8 d out)
    else if ch = 's'.toUInt8 then
      (rest, n + 1, convertText put
        (if args.word n = 0 then "(NULL)".toList.map Char.toUInt8 else (args.string (args.word n)).text) d out)
    else if ch = 'p'.toUInt8 then (rest, n + 1, convertPointer put (args.word n) d out)
    else if ch = '%'.toUInt8 then (rest, n, put out '%'.toUInt8)
    else
      match integerFormat ch with
      | some (base, more) =>
        let flags := d.flags ||| more
        (rest, n + 1, printNumber put (integerArg d.qualifier flags (args.word n) (args.longLong n)) base d.qualifier
          d.fieldWidth d.precision flags out)
      | none => (rest, n, put (put out '%'.toUInt8) ch)

end loops

/-! ## The format -/

theorem parseQualifier_length (fmt : List UInt8) : (parseQualifier fmt).1.length ≤ fmt.length := by
  cases fmt with
  | nil => exact Nat.le_refl 0
  | cons ch rest =>
    have tail : rest.tail.length ≤ rest.length := by
      rw [List.length_tail]
      exact Nat.sub_le _ _
    unfold parseQualifier
    dsimp only
    split
    · split
      · exact Nat.le_succ_of_le tail
      · exact Nat.le_succ _
    · exact Nat.le_refl _

section format
variable (args : VaList)

theorem parse_length (fmt : List UInt8) (n : Nat) : (parse args fmt n).1.length ≤ fmt.length := by
  have flags := parseFlags_length fmt 0
  have width := parseWidth_length args.toVaList (parseFlags fmt 0).1 n (parseFlags fmt 0).2
  have precision := parsePrecision_length args.toVaList
    (parseWidth args.toVaList (parseFlags fmt 0).1 n (parseFlags fmt 0).2).1
    (parseWidth args.toVaList (parseFlags fmt 0).1 n (parseFlags fmt 0).2).2.1
  exact Nat.le_trans (parseQualifier_length _) (Nat.le_trans precision (Nat.le_trans width flags))

variable {Out : Type} (put : Out → UInt8 → Out)

theorem convert_length (fmt : List UInt8) (n : Nat) (d : Directive) (out : Out) :
    (convert put args fmt n d out).1.length ≤ fmt.length := by
  cases fmt with
  | nil => exact Nat.le_refl 0
  | cons ch rest =>
    unfold convert
    dsimp only
    split
    · exact Nat.le_succ _
    split
    · exact Nat.le_succ _
    split
    · exact Nat.le_succ _
    split
    · exact Nat.le_succ _
    split
    · exact Nat.le_succ _
    · exact Nat.le_succ _

/-- The loop over the format, with `n` arguments taken. -/
def format (fmt : List UInt8) (n : Nat) (out : Out) : Out :=
  match fmt with
  | [] => out
  | ch :: rest =>
    if ch ≠ '%'.toUInt8 then format rest n (put out ch)
    else
      let directive := parse args rest n
      let done := convert put args directive.1 directive.2.1 directive.2.2 out
      format done.1 done.2.1 done.2.2
termination_by fmt.length
decreasing_by
  · exact Nat.lt_succ_self _
  · exact Nat.lt_succ_of_le (Nat.le_trans (convert_length args put _ _ _ _) (parse_length args rest n))

end format

end LongLong

end RtThread.Kservice
