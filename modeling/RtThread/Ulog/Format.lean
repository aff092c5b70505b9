import RtThread.Kservice.Vsnprintf

/-! How `ulog.c` formats a line: the head, the text or the bytes, and the tail, one behind the other in the line buffer. -/

set_option autoImplicit false
namespace RtThread.Ulog
open Kservice

def ascii (s : String) : List UInt8 := s.toList.map Char.toUInt8

def csiStart : List UInt8 := 0x1b :: ascii "["
def csiEnd : List UInt8 := 0x1b :: ascii "[0m"
def newlineSign : List UInt8 := [0x0d, 0x0a]

/-- `color_output_info`; the index is in range where it is used. -/
def colorOutputInfo : Nat → Option (List UInt8)
  | 0 => some (ascii "35m")
  | 3 => some (ascii "31m")
  | 4 => some (ascii "33m")
  | 6 => some (ascii "32m")
  | _ => none

def levelOutputInfo : Nat → Option (List UInt8)
  | 0 => some (ascii "A/")
  | 3 => some (ascii "E/")
  | 4 => some (ascii "W/")
  | 6 => some (ascii "I/")
  | 7 => some (ascii "D/")
  | _ => none

def logLvlDbg : Nat := 7

def rtNameMax : Nat := 8

inductive TimeFormat where
  | off
  | tick
  /-- ULOG_TIME_USING_TIMESTAMP -/
  | timestamp
  deriving DecidableEq

/-- The options of the build: ULOG_USING_COLOR, and the ULOG_OUTPUT ones. -/
structure UlogOptions where
  color : Bool
  time : TimeFormat
  level : Bool
  tag : Bool
  threadName : Bool

/-- The line buffer: ULOG_LINE_BUF_SIZE + 1 bytes of the SRAM. -/
structure LineBuf where
  logBuf : UInt32
  lineBufSize : UInt32
  /-- `#if ULOG_LINE_BUF_SIZE < 80`, `#error` -/
  least : 80 ≤ lineBufSize.toNat
  sram : 0x20000000 ≤ logBuf.toNat ∧ logBuf.toNat + lineBufSize.toNat + 1 ≤ 0x20010000

/-- What the clock says, in the words that go to `rt_snprintf`. The microseconds are there if they are supported. -/
structure UlogNow where
  tick : UInt32
  date : Nat → UInt32
  usec : Option UInt32

/-- `log_len`, and the memory -/
structure Line where
  len : UInt32
  memory : Memory

/-- What `rt_snprintf` leaves in front of the first NUL in a buffer of `size` bytes. -/
def printed (size : Nat) (fmt : CString) (args : VaList) : List UInt8 :=
  ((format args (fun text ch => text ++ [ch]) fmt.text 0 []).take (size - 1)).takeWhile (· ≠ 0)

def rtStrlen (memory : Memory) : Nat → UInt32 → UInt32
  | 0, _ => 0
  | fuel + 1, a => if memory a = 0 then 0 else 1 + rtStrlen memory fuel (a + 1)

def rtStrncpy (dst : UInt32) (src : List UInt8) : Nat → Memory → Memory
  | 0, memory => memory
  | n + 1, memory => rtStrncpy (dst + 1) src.tail n (Function.update memory dst (src.headD 0))

/-- The digits that `ulog_ultoa` finds, the last first. -/
def ultoaDigits (n : UInt32) : List UInt8 :=
  ((n % 10).toUInt8 + '0'.toUInt8) :: if n / 10 = 0 then [] else ultoaDigits (n / 10)
termination_by n.toNat
decreasing_by
  rename_i some
  have positive : 0 < (n / 10).toNat := Nat.pos_of_ne_zero fun zero => some (UInt32.toNat_inj.mp zero)
  have ten : (10 : UInt32).toNat = 10 := rfl
  rw [UInt32.toNat_div, ten] at positive ⊢
  omega

/-- `ulog_ultoa`, with the NUL behind the digits -/
def ulogUltoa (s n : UInt32) (memory : Memory) : UInt32 × Memory :=
  let digits := (ultoaDigits n).reverse
  (UInt32.ofNat digits.length, rtStrncpy s (digits ++ [0]) (digits.length + 1) memory)

section formater
variable (b : LineBuf) (o : UlogOptions)

def ulogStrcpy (curLen dst : UInt32) : List UInt8 → Memory → UInt32 × Memory
  | [], memory => (0, memory)
  | ch :: rest, memory =>
    if curLen < b.lineBufSize then
      let (n, memory) := ulogStrcpy (curLen + 1) (dst + 1) rest (Function.update memory dst ch)
      (n + 1, memory)
    else (0, memory)

/-- `log_len += ulog_strcpy(log_len, log_buf + log_len, src)` -/
def append (src : List UInt8) (line : Line) : Line :=
  let (n, memory) := ulogStrcpy b line.len (b.logBuf + line.len) src line.memory
  { len := line.len + n, memory }

/-- `log_buf[i] = ch` -/
def store (i : UInt32) (ch : UInt8) (line : Line) : Line :=
  { line with memory := Function.update line.memory (b.logBuf + i) ch }

/-- `log_len += rt_strlen(log_buf + log_len)` -/
def measure (line : Line) : Line :=
  { line with len := line.len + rtStrlen line.memory (2 ^ 32) (b.logBuf + line.len) }

/-- `rt_snprintf(log_buf + log_len, size, fmt, ...)`, and its result -/
def print (size : UInt32) (fmt : CString) (args : VaList) (line : Line) : Int32 × Line :=
  let done := rtVsnprintf (b.logBuf + line.len) size fmt args line.memory
  (done.ret, { line with memory := done.memory })

def numbers (word : Nat → UInt32) : VaList where
  word
  string _ := ⟨[], nul_not_mem_nil⟩

def dateFormat : CString := ⟨ascii "%02d-%02d %02d:%02d:%02d", by decide⟩

def usecFormat : CString := ⟨ascii ".%03d", by decide⟩

def addressFormat : CString := ⟨ascii "%04X-%04X: ", by decide⟩

def hexFormat : CString := ⟨ascii "%02X ", by decide⟩

def charFormat : CString := ⟨ascii "%c", by decide⟩

def putColor (level : Nat) (line : Line) : Line :=
  let line :=
    if o.color then
      match colorOutputInfo level with
      | some info => append b info (append b csiStart line)
      | none => line
    else line
  store b line.len 0 line

def putTime (now : UlogNow) (line : Line) : Line :=
  match o.time with
  | .off => line
  | .timestamp =>
    let line := (print b (b.lineBufSize - line.len) dateFormat (numbers now.date) line).2
    match now.usec with
    | none => measure b line
    | some usec =>
      let line := measure b line
      let msec : UInt32 := (usec.toInt32 / 1000).toUInt32
      measure b (print b (b.lineBufSize - line.len) usecFormat (numbers fun _ => msec) line).2
  | .tick =>
    let line := store b line.len '['.toUInt8 line
    let (tickLen, memory) := ulogUltoa (b.logBuf + line.len + 1) now.tick line.memory
    let line := { line with memory }
    let line := store b (line.len + 1 + tickLen) ']'.toUInt8 line
    measure b (store b (line.len + 1 + tickLen + 1) 0 line)

/-- `none` is a failed assertion: the level has no name. -/
def putLevel (level : Nat) (line : Line) : Option Line :=
  if o.level then
    let line := if o.time ≠ .off then append b [0x20] line else line
    (levelOutputInfo level).map fun info => append b info line
  else some line

def putTag (tag : CString) (line : Line) : Line :=
  if o.tag then
    let line := if o.level = false ∧ o.time ≠ .off then append b [0x20] line else line
    append b tag.text line
  else line

/-- `rt_strnlen(thread_name, RT_NAME_MAX)` -/
def nameLen (name : List UInt8) : Nat := ((name.take rtNameMax).takeWhile (· ≠ 0)).length

def putName (name : List UInt8) (line : Line) : Line where
  len := line.len + UInt32.ofNat (nameLen name)
  memory := rtStrncpy (b.logBuf + line.len) name (nameLen name) line.memory

def putThread (thread : Option (List UInt8)) (line : Line) : Line :=
  if o.threadName then
    let line := if o.time ≠ .off ∨ o.level ∨ o.tag then append b [0x20] line else line
    match thread with
    | some name => putName b name line
    | none => append b (ascii "ISR") line
  else line

def ulogHeadFormater (now : UlogNow) (thread : Option (List UInt8)) (level : Nat) (tag : CString) (memory : Memory) :
    Option Line :=
  if level ≤ logLvlDbg then
    (putLevel b o level (putTime b o now (putColor b o level { len := 0, memory }))).map fun line =>
      append b (ascii ": ") (putThread b o thread (putTag b o tag line))
  else none

def reserve : UInt32 := (if o.color then 4 else 0) + UInt32.ofNat newlineSign.length + 1

def ulogTailFormater (newline : Bool) (level : Nat) (line : Line) : Line :=
  let line :=
    if line.len + reserve o > b.lineBufSize then { line with len := b.lineBufSize - reserve o } else line
  let line := if newline then append b newlineSign line else line
  let line := if o.color ∧ (colorOutputInfo level).isSome then append b csiEnd line else line
  store b line.len 0 line

/-- The text, and `log_len` behind it -/
def putText (fmt : CString) (args : VaList) (line : Line) : Line :=
  let (fmtResult, line) := print b (b.lineBufSize - line.len) fmt args line
  if line.len + fmtResult.toUInt32 ≤ b.lineBufSize ∧ fmtResult > -1 then
    { line with len := line.len + fmtResult.toUInt32 }
  else { line with len := b.lineBufSize }

def ulogFormater (now : UlogNow) (thread : Option (List UInt8)) (level : Nat) (tag : CString) (newline : Bool)
    (fmt : CString) (args : VaList) (memory : Memory) : Option Line :=
  (ulogHeadFormater b o now thread level tag memory).map fun line =>
    ulogTailFormater b o newline level (putText b fmt args line)

def putAddress (addr size : UInt32) (line : Line) : Line :=
  let (fmtResult, line) := print b b.lineBufSize addressFormat (numbers fun n => if n = 0 then addr else addr + size) line
  if fmtResult > -1 ∧ fmtResult ≤ b.lineBufSize.toInt32 then { line with len := line.len + fmtResult.toUInt32 }
  else { line with len := b.lineBufSize }

/-- `dump_string`, of 8 bytes -/
def dumpString (fmt : CString) (word : UInt32) : List UInt8 := printed 8 fmt (numbers fun _ => word)

/-- `for (j = 0; j < width; j++)`, with the turns that are left -/
def dumpHex (buf : UInt32 → UInt8) (size : UInt32) : Nat → UInt32 → Line → Line
  | 0, _, line => line
  | turns + 1, j, line =>
    let line := append b (if j < size then dumpString hexFormat (buf j).toUInt32 else ascii "   ") line
    let line := if (j + 1) % 8 = 0 then append b [0x20] line else line
    dumpHex buf size turns (j + 1) line

def isPrint (ch : UInt8) : Bool := ch.toUInt32 - ' '.toUInt8.toUInt32 < 127 - ' '.toUInt8.toUInt32

/-- `for (j = 0; j < size; j++)` -/
def dumpChars (buf : UInt32 → UInt8) : Nat → UInt32 → Line → Line
  | 0, _, line => line
  | turns + 1, j, line =>
    let ch := if isPrint (buf j) then buf j else '.'.toUInt8
    dumpChars buf turns (j + 1) (append b (dumpString charFormat ch.toUInt32) line)

def ulogHexFormater (now : UlogNow) (thread : Option (List UInt8)) (tag : CString) (buf : UInt32 → UInt8)
    (size width addr : UInt32) (memory : Memory) : Option Line :=
  (ulogHeadFormater b o now thread logLvlDbg tag memory).map fun line =>
    let line := dumpHex b buf size width.toNat 0 (putAddress b addr size line)
    let line := dumpChars b buf size.toNat 0 (append b (ascii "  ") line)
    ulogTailFormater b o true logLvlDbg line

end formater

end RtThread.Ulog
