import Mathlib.Logic.Function.Basic
import Mathlib.Algebra.Group.Nat.Defs

/-! `rt_vsnprintf` and `print_number`, without RT_KPRINTF_USING_LONGLONG. A character goes out through `put`, which
stores it if the cursor is in front of the end of the buffer, and advances the cursor. -/

set_option autoImplicit false
namespace RtThread.Kservice

def zeropad : UInt8 := 1
def sign : UInt8 := 2
def plus : UInt8 := 4
def space : UInt8 := 8
def left : UInt8 := 16
def special : UInt8 := 32
def large : UInt8 := 64

/-- `flags & f` -/
abbrev Has (flags f : UInt8) : Prop := flags &&& f ≠ 0

def isDigit (ch : UInt8) : Bool := '0'.toUInt8 ≤ ch ∧ ch ≤ '9'.toUInt8

theorem int32_pred {low w : Int32} (less : low < w) : (w - 1).toInt = w.toInt - 1 := by
  have order := Int32.lt_iff_toInt_lt.mp less
  have bottom := low.le_toInt
  have top := w.toInt_lt
  rw [Int32.toInt_sub, Int32.toInt_one, Int.bmod_eq_of_le] <;> omega

section loops
variable {Out : Type} (put : Out → UInt8 → Out)

/-! ## Numbers -/

/-- `while (low < w--)` around an output of `ch`, with the value that `w` has behind it. -/
def padDown (ch : UInt8) (low w : Int32) (out : Out) : Out × Int32 :=
  if low < w then padDown ch low (w - 1) (put out ch) else (out, w - 1)
termination_by (w.toInt - low.toInt).toNat
decreasing_by
  rename_i less
  have order := Int32.lt_iff_toInt_lt.mp less
  rw [int32_pred less]
  omega

/-- `while (--w > 0)` around an output of `ch`. -/
def padAhead (ch : UInt8) (w : Int32) (out : Out) : Out × Int32 :=
  if 0 < w - 1 then padAhead ch (w - 1) (put out ch) else (out, w - 1)
termination_by (w - 1).toInt.toNat
decreasing_by
  rename_i less
  have order := Int32.lt_iff_toInt_lt.mp less
  rw [Int32.toInt_zero] at order
  rw [int32_pred less]
  omega

abbrev Base := { base : UInt32 // 1 < base }

theorem binary_base : (1 : UInt32) < 2 := by decide
theorem octal_base : (1 : UInt32) < 8 := by decide
theorem decimal_base : (1 : UInt32) < 10 := by decide
theorem hex_base : (1 : UInt32) < 16 := by decide

/-- The loop that fills `tmp` with the digits of a number, the last first. -/
def numberDigits (digits : List UInt8) (base : Base) (num : UInt32) : List UInt8 :=
  if num = 0 then []
  else digits.getD (num % base).toNat 0 :: numberDigits digits base (num / base)
termination_by num.toNat
decreasing_by
  rename_i some
  have big : 1 < base.val.toNat := UInt32.lt_iff_toNat_lt.mp base.2
  have positive : 0 < num.toNat := Nat.pos_of_ne_zero fun zero => some (UInt32.toNat_inj.mp zero)
  rw [UInt32.toNat_div]
  exact Nat.div_lt_self positive big

def smallDigits : List UInt8 := "0123456789abcdef".toList.map Char.toUInt8
def largeDigits : List UInt8 := "0123456789ABCDEF".toList.map Char.toUInt8

/-- What the number has in `tmp`. -/
def numberTmp (type : UInt8) (base : Base) (num : UInt32) : List UInt8 :=
  if num = 0 then ['0'.toUInt8]
  else numberDigits (if Has type large then largeDigits else smallDigits) base num

theorem numberDigits_length (digits : List UInt8) (base : Base) (n : Nat) (num : UInt32) (below : num.toNat < 2 ^ n) :
    (numberDigits digits base num).length ≤ n := by
  induction n generalizing num with
  | zero =>
    have zero : num = 0 := UInt32.toNat_inj.mp (Nat.lt_one_iff.mp below)
    rw [numberDigits, if_pos zero]
    exact Nat.le_refl 0
  | succ n ih =>
    rw [numberDigits]
    split
    · exact Nat.zero_le _
    · have big : 1 < base.val.toNat := UInt32.lt_iff_toNat_lt.mp base.2
      have half : (num / base).toNat < 2 ^ n := by
        rw [UInt32.toNat_div]
        refine Nat.div_lt_of_lt_mul (Nat.lt_of_lt_of_le below ?_)
        rw [Nat.pow_succ, Nat.mul_comm]
        exact Nat.mul_le_mul_right _ big
      exact Nat.succ_le_succ (ih _ half)

theorem numberTmp_length (type : UInt8) (base : Base) (num : UInt32) : (numberTmp type base num).length ≤ 32 := by
  unfold numberTmp
  split
  · decide
  · exact numberDigits_length _ base 32 num num.toNat_lt

/-- `while (i-- > 0 && (precision_bak != 0))` around an output of `tmp[i]` -/
def putDigits (tmp : List UInt8) (precisionBak : Int32) : Nat → Out → Out
  | 0, out => out
  | i + 1, out =>
    if precisionBak ≠ 0 then putDigits tmp precisionBak i (put out (tmp.getD i 0)) else out

/-- `(rt_int16_t)num < 0` or `(long)num < 0` -/
def isNegative (qualifier : UInt8) (num : UInt32) : Prop :=
  if qualifier = 'h'.toUInt8 then num.toUInt16.toInt16 < 0 else num.toInt32 < 0

instance (qualifier : UInt8) (num : UInt32) : Decidable (isNegative qualifier num) := by
  unfold isNegative
  infer_instance

/-- The number without its sign, and the sign, 0 for none. -/
def getSign (type qualifier : UInt8) (num : UInt32) : UInt32 × UInt8 :=
  if Has type sign then
    if isNegative qualifier num then
      (if qualifier = 'h'.toUInt8 then (-num).toUInt16.toUInt32 else -num, '-'.toUInt8)
    else if Has type plus then (num, '+'.toUInt8)
    else if Has type space then (num, ' '.toUInt8)
    else (num, 0)
  else (num, 0)

def specialChars (type : UInt8) (base : Base) : List UInt8 :=
  if Has type special then
    if base.val = 2 then ['0'.toUInt8, 'b'.toUInt8]
    else if base.val = 8 then ['0'.toUInt8]
    else if base.val = 16 then ['0'.toUInt8, if Has type large then 'X'.toUInt8 else 'x'.toUInt8]
    else []
  else []

def specialSize (type : UInt8) (base : Base) : Int32 :=
  if Has type special then
    if base.val = 2 ∨ base.val = 16 then 2
    else if base.val = 8 then 1
    else 0
  else 0

def printNumber (num : UInt32) (base : Base) (qualifier : UInt8) (s precision : Int32) (type : UInt8) (out : Out) : Out :=
  let type := if Has type left then type &&& ~~~zeropad else type
  let c := if Has type zeropad then '0'.toUInt8 else ' '.toUInt8
  let (num, sign) := getSign type qualifier num
  let size := s - specialSize type base
  let tmp := numberTmp type base num
  let i := Int32.ofNat tmp.length
  let precisionBak := precision
  let precision := if i > precision then i else precision
  let size := size - precision
  let (out, size) :=
    if ¬Has type (zeropad ||| left) then
      padDown put ' '.toUInt8 0 (if sign ≠ 0 ∧ size > 0 then size - 1 else size) out
    else (out, size)
  let (out, size) := if sign ≠ 0 then (put out sign, size - 1) else (out, size)
  let out := (specialChars type base).foldl put out
  let (out, size) := if ¬Has type left then padDown put c 0 size out else (out, size)
  let (out, _) := padDown put '0'.toUInt8 i precision out
  let out := putDigits put tmp precisionBak tmp.length out
  (padDown put ' '.toUInt8 0 size out).1

/-! ## Conversions -/

structure Directive where
  flags : UInt8
  fieldWidth : Int32
  precision : Int32
  qualifier : UInt8

def parseFlags : List UInt8 → UInt8 → List UInt8 × UInt8
  | [], flags => ([], flags)
  | ch :: rest, flags =>
    if ch = '-'.toUInt8 then parseFlags rest (flags ||| left)
    else if ch = '+'.toUInt8 then parseFlags rest (flags ||| plus)
    else if ch = ' '.toUInt8 then parseFlags rest (flags ||| space)
    else if ch = '#'.toUInt8 then parseFlags rest (flags ||| special)
    else if ch = '0'.toUInt8 then parseFlags rest (flags ||| zeropad)
    else (ch :: rest, flags)

def skipAtoi : List UInt8 → Int32 → List UInt8 × Int32
  | [], i => ([], i)
  | ch :: rest, i =>
    if isDigit ch then skipAtoi rest (i * 10 + ch.toUInt32.toInt32 - '0'.toUInt8.toUInt32.toInt32) else (ch :: rest, i)

structure CString where
  text : List UInt8
  noNul : (0 : UInt8) ∉ text

theorem nul_not_mem_nil : (0 : UInt8) ∉ [] := List.not_mem_nil

/-- The words that `va_arg` gives, and the texts that they point to. -/
structure VaList where
  word : Nat → UInt32
  string : UInt32 → CString

section parse
variable (args : VaList)

def parseWidth (fmt : List UInt8) (n : Nat) (flags : UInt8) : List UInt8 × Nat × Int32 × UInt8 :=
  match fmt with
  | [] => ([], n, -1, flags)
  | ch :: rest =>
    if isDigit ch then
      let number := skipAtoi (ch :: rest) 0
      (number.1, n, number.2, flags)
    else if ch = '*'.toUInt8 then
      if (args.word n).toInt32 < 0 then (rest, n + 1, -(args.word n).toInt32, flags ||| left)
      else (rest, n + 1, (args.word n).toInt32, flags)
    else (ch :: rest, n, -1, flags)

def parsePoint (fmt : List UInt8) (n : Nat) : List UInt8 × Nat × Int32 :=
  match fmt with
  | [] => ([], n, -1)
  | ch :: rest =>
    if isDigit ch then
      let number := skipAtoi (ch :: rest) 0
      (number.1, n, number.2)
    else if ch = '*'.toUInt8 then (rest, n + 1, (args.word n).toInt32)
    else (ch :: rest, n, -1)

def parsePrecision (fmt : List UInt8) (n : Nat) : List UInt8 × Nat × Int32 :=
  match fmt with
  | [] => ([], n, -1)
  | ch :: rest =>
    if ch = '.'.toUInt8 then
      let point := parsePoint args rest n
      (point.1, point.2.1, if point.2.2 < 0 then 0 else point.2.2)
    else (ch :: rest, n, -1)

def parseQualifier (fmt : List UInt8) : List UInt8 × UInt8 :=
  match fmt with
  | [] => ([], 0)
  | ch :: rest => if ch = 'h'.toUInt8 ∨ ch = 'l'.toUInt8 then (rest, ch) else (ch :: rest, 0)

def parse (fmt : List UInt8) (n : Nat) : List UInt8 × Nat × Directive :=
  let (fmt, flags) := parseFlags fmt 0
  let (fmt, n, fieldWidth, flags) := parseWidth args fmt n flags
  let (fmt, n, precision) := parsePrecision args fmt n
  let (fmt, qualifier) := parseQualifier fmt
  (fmt, n, ⟨flags, fieldWidth, precision, qualifier⟩)

end parse

/-- `case 'c'` -/
def convertChar (c : UInt8) (d : Directive) (out : Out) : Out :=
  let (out, fieldWidth) := if ¬Has d.flags left then padAhead put ' '.toUInt8 d.fieldWidth out else (out, d.fieldWidth)
  let out := put out c
  (padAhead put ' '.toUInt8 fieldWidth out).1

/-- `for (len = 0; (len != field_width) && (s[len] != 0); len++)` -/
def textLen (fieldWidth : Int32) : List UInt8 → Int32 → Int32
  | [], len => len
  | _ :: rest, len => if len ≠ fieldWidth then textLen fieldWidth rest (len + 1) else len

/-- `for (i = 0; i < len; ++i)` around an output of `*s++` -/
def putText (len : Int32) : List UInt8 → Int32 → Out → Out
  | [], _, out => out
  | ch :: rest, i, out => if i < len then putText len rest (i + 1) (put out ch) else out

/-- `case 's'` -/
def convertText (s : List UInt8) (d : Directive) (out : Out) : Out :=
  let len := textLen d.fieldWidth s 0
  let len := if d.precision > 0 ∧ len > d.precision then d.precision else len
  let (out, fieldWidth) :=
    if ¬Has d.flags left then padDown put ' '.toUInt8 len d.fieldWidth out else (out, d.fieldWidth)
  let out := putText put len s 0 out
  (padDown put ' '.toUInt8 len fieldWidth out).1

/-- `case 'p'` -/
def convertPointer (num : UInt32) (d : Directive) (out : Out) : Out :=
  if d.fieldWidth = -1 then
    printNumber put num ⟨16, hex_base⟩ d.qualifier 10 d.precision (d.flags ||| special ||| zeropad) out
  else printNumber put num ⟨16, hex_base⟩ d.qualifier d.fieldWidth d.precision d.flags out

def integerFormat (ch : UInt8) : Option (Base × UInt8) :=
  if ch = 'b'.toUInt8 then some (⟨2, by decide⟩, 0)
  else if ch = 'o'.toUInt8 then some (⟨8, by decide⟩, 0)
  else if ch = 'X'.toUInt8 then some (⟨16, by decide⟩, large)
  else if ch = 'x'.toUInt8 then some (⟨16, by decide⟩, 0)
  else if ch = 'd'.toUInt8 ∨ ch = 'i'.toUInt8 then some (⟨10, by decide⟩, sign)
  else if ch = 'u'.toUInt8 then some (⟨10, by decide⟩, 0)
  else none

def integerArg (qualifier flags : UInt8) (word : UInt32) : UInt32 :=
  if qualifier = 'h'.toUInt8 then
    if Has flags sign then word.toUInt16.toInt16.toInt32.toUInt32 else word.toUInt16.toUInt32
  else word

/-- The `switch`, up to the `++fmt` of the loop. -/
def convert (args : VaList) (fmt : List UInt8) (n : Nat) (d : Directive) (out : Out) : List UInt8 × Nat × Out :=
  match fmt with
  -- the `--fmt` of a directive that the format cuts off takes the `++fmt` back
  | [] => ([], n, put out '%'.toUInt8)
  | ch :: rest =>
    if ch = 'c'.toUInt8 then (rest, n + 1, convertChar put (args.word n).toUInt8 d out)
    else if ch = 's'.toUInt8 then
      (rest, n + 1, convertText put
        (if args.word n = 0 then "(NULL)".toList.map Char.toUInt8 else (args.string (args.word n)).text) d out)
    else if ch = 'p'.toUInt8 then (rest, n + 1, convertPointer put (args.word n) d out)
    else if ch = '%'.toUInt8 then (rest, n, put out '%'.toUInt8)
    else
      match integerFormat ch with
      | some (base, more) =>
        let flags := d.flags ||| more
        (rest, n + 1, printNumber put (integerArg d.qualifier flags (args.word n)) base d.qualifier d.fieldWidth
          d.precision flags out)
      | none => (rest, n, put (put out '%'.toUInt8) ch)

end loops

/-! ## The format -/

theorem parseFlags_length (fmt : List UInt8) (flags : UInt8) : (parseFlags fmt flags).1.length ≤ fmt.length := by
  induction fmt generalizing flags with
  | nil => exact Nat.le_refl 0
  | cons ch rest ih =>
    have shorter (flags : UInt8) : (parseFlags rest flags).1.length ≤ (ch :: rest).length := Nat.le_succ_of_le (ih flags)
    unfold parseFlags
    split
    · exact shorter _
    split
    · exact shorter _
    split
    · exact shorter _
    split
    · exact shorter _
    split
    · exact shorter _
    · exact Nat.le_refl _

theorem skipAtoi_length (fmt : List UInt8) (i : Int32) : (skipAtoi fmt i).1.length ≤ fmt.length := by
  induction fmt generalizing i with
  | nil => exact Nat.le_refl 0
  | cons ch rest ih =>
    unfold skipAtoi
    split
    · exact Nat.le_succ_of_le (ih _)
    · exact Nat.le_refl _

section format
variable (args : VaList)

theorem parseWidth_length (fmt : List UInt8) (n : Nat) (flags : UInt8) :
    (parseWidth args fmt n flags).1.length ≤ fmt.length := by
  cases fmt with
  | nil => exact Nat.le_refl 0
  | cons ch rest =>
    unfold parseWidth
    dsimp only
    split
    · exact skipAtoi_length (ch :: rest) 0
    split
    · split
      · exact Nat.le_succ _
      · exact Nat.le_succ _
    · exact Nat.le_refl _

theorem parsePoint_length (fmt : List UInt8) (n : Nat) : (parsePoint args fmt n).1.length ≤ fmt.length := by
  cases fmt with
  | nil => exact Nat.le_refl 0
  | cons ch rest =>
    unfold parsePoint
    dsimp only
    split
    · exact skipAtoi_length (ch :: rest) 0
    split
    · exact Nat.le_succ _
    · exact Nat.le_refl _

theorem parsePrecision_length (fmt : List UInt8) (n : Nat) : (parsePrecision args fmt n).1.length ≤ fmt.length := by
  cases fmt with
  | nil => exact Nat.le_refl 0
  | cons ch rest =>
    unfold parsePrecision
    dsimp only
    split
    · exact Nat.le_succ_of_le (parsePoint_length args rest n)
    · exact Nat.le_refl _

theorem parseQualifier_length (fmt : List UInt8) : (parseQualifier fmt).1.length ≤ fmt.length := by
  cases fmt with
  | nil => exact Nat.le_refl 0
  | cons ch rest =>
    unfold parseQualifier
    dsimp only
    split
    · exact Nat.le_succ _
    · exact Nat.le_refl _

theorem parse_length (fmt : List UInt8) (n : Nat) : (parse args fmt n).1.length ≤ fmt.length := by
  have flags := parseFlags_length fmt 0
  have width := parseWidth_length args (parseFlags fmt 0).1 n (parseFlags fmt 0).2
  have precision := parsePrecision_length args (parseWidth args (parseFlags fmt 0).1 n (parseFlags fmt 0).2).1
    (parseWidth args (parseFlags fmt 0).1 n (parseFlags fmt 0).2).2.1
  exact Nat.le_trans (parseQualifier_length _) (Nat.le_trans precision (Nat.le_trans width flags))

variable {Out : Type} (put : Out → UInt8 → Out)

theorem convert_length (fmt : List UInt8) (n : Nat) (d : Directive) (out : Out) :
    (convert put args fmt n d out).1.length ≤ fmt.length := by
  cases fmt with
  | nil => exact Nat.le_refl 0
  | cons ch rest =>
    unfold convert
    dsimp only
    split
    · exact Nat.le_succ _
    split
    · exact Nat.le_succ _
    split
    · exact Nat.le_succ _
    split
    · exact Nat.le_succ _
    split
    · exact Nat.le_succ _
    · exact Nat.le_succ _

/-- The loop over the format, with `n` words taken. -/
def format (fmt : List UInt8) (n : Nat) (out : Out) : Out :=
  match fmt with
  | [] => out
  | ch :: rest =>
    if ch ≠ '%'.toUInt8 then format rest n (put out ch)
    else
      let directive := parse args rest n
      let done := convert put args directive.1 directive.2.1 directive.2.2 out
      format done.1 done.2.1 done.2.2
termination_by fmt.length
decreasing_by
  · exact Nat.lt_succ_self _
  · exact Nat.lt_succ_of_le (Nat.le_trans (convert_length args put _ _ _ _) (parse_length args rest n))

end format

/-! ## The buffer -/

abbrev Memory := UInt32 → UInt8

structure Cursor where
  str : UInt32
  memory : Memory

/-- `if (str < end) *str = ch; ++str` -/
def Cursor.put (limit : UInt32) (cursor : Cursor) (ch : UInt8) : Cursor where
  str := cursor.str + 1
  memory := if cursor.str < limit then Function.update cursor.memory cursor.str ch else cursor.memory

structure Printed where
  ret : Int32
  memory : Memory

/-- `end`, moved back to the end of the address space if it wraps. -/
def limitOf (buf size : UInt32) : UInt32 := if buf + size < buf then 0xFFFFFFFF else buf + size

/-- `size`, once `end` has been moved. -/
def usableSize (buf size : UInt32) : UInt32 := if buf + size < buf then 0xFFFFFFFF - buf else size

def rtVsnprintf (buf size : UInt32) (fmt : CString) (args : VaList) (memory : Memory) : Printed :=
  let done := format args (Cursor.put (limitOf buf size)) fmt.text 0 ⟨buf, memory⟩
  { ret := (done.str - buf).toInt32
    memory :=
      if usableSize buf size > 0 then
        if done.str < limitOf buf size then Function.update done.memory done.str 0
        else Function.update done.memory (limitOf buf size - 1) 0
      else done.memory }

end RtThread.Kservice
