import RtThread.Finsh.Msh

/-! The line editor of `shell.c`, key by key. What it echoes is left out. -/

set_option autoImplicit false
namespace RtThread.Finsh
open Drivers

def finshHistoryLines : Nat := 5

inductive InputStat where
  | waitNormal
  | waitSpecKey
  | waitFuncKey
  deriving DecidableEq

/-- `struct finsh_shell`: `line` has FINSH_CMD_SIZE + 1 bytes, and each line of the history FINSH_CMD_SIZE. -/
structure Shell where
  stat : InputStat
  currentHistory : Nat
  historyCount : Nat
  cmdHistory : Nat → Nat → UInt8
  line : Nat → UInt8
  linePosition : Nat
  lineCurpos : Nat

/-- A value in a `rt_uint16_t`. -/
def u16 (value : Nat) : Nat := value % 2 ^ 16

/-- `rt_memcpy` to the beginning of `dst` -/
def memcpy (dst src : Nat → UInt8) (count : Nat) : Nat → UInt8 := fun i => if i < count then src i else dst i

/-- `rt_memmove(&line[dst], &line[src], count)` -/
def memmove (line : Nat → UInt8) (dst src count : Nat) : Nat → UInt8 :=
  fun i => if dst ≤ i ∧ i < dst + count then line (src + (i - dst)) else line i

/-- What `msh_exec` is given, and what becomes of it. -/
structure MshCall where
  cmd : List UInt8
  result : MshResult
  deriving DecidableEq

namespace Shell

def init : Shell where
  stat := .waitNormal
  currentHistory := 0
  historyCount := 0
  cmdHistory _ _ := 0
  line _ := 0
  linePosition := 0
  lineCurpos := 0

/-- `memcmp` of a line of the history and the line -/
def sameLine (s : Shell) (index : Nat) : Prop := bytesAt (s.cmdHistory index) finshCmdSize = bytesAt s.line finshCmdSize

instance (s : Shell) (index : Nat) : Decidable (s.sameLine index) := inferInstanceAs (Decidable (_ = _))

/-- `rt_memset` and `rt_memcpy` of the line to a line of the history -/
def copyLine (s : Shell) (index : Nat) : Nat → Nat → UInt8 :=
  Function.update s.cmdHistory index (memcpy (fun _ => 0) s.line s.linePosition)

def moveHistory (cmdHistory : Nat → Nat → UInt8) : Nat → Nat → Nat → UInt8
  | 0 => cmdHistory
  | index + 1 =>
    let moved := moveHistory cmdHistory index
    Function.update moved index (memcpy (moved index) (moved (index + 1)) finshCmdSize)

def shellPushHistory (s : Shell) : Shell :=
  let s :=
    if s.linePosition ≠ 0 then
      if finshHistoryLines ≤ s.historyCount then
        if s.sameLine (finshHistoryLines - 1) then s
        else
          let s := { s with cmdHistory := moveHistory s.cmdHistory (finshHistoryLines - 1) }
          { s with cmdHistory := s.copyLine (finshHistoryLines - 1), historyCount := finshHistoryLines }
      else if s.historyCount = 0 ∨ ¬s.sameLine (s.historyCount - 1) then
        { s with cmdHistory := s.copyLine s.historyCount, historyCount := u16 (s.historyCount + 1) }
      else s
    else s
  { s with currentHistory := s.historyCount }

def recallLine (s : Shell) : Shell :=
  let line := memcpy s.line (s.cmdHistory s.currentHistory) finshCmdSize
  { s with line := line, linePosition := u16 (cString line).length, lineCurpos := u16 (cString line).length }

def upKey (s : Shell) : Shell :=
  if 0 < s.currentHistory then { s with currentHistory := s.currentHistory - 1 }.recallLine
  else { s with currentHistory := 0 }

def downKey (s : Shell) : Shell :=
  if s.currentHistory + 1 < s.historyCount then { s with currentHistory := u16 (s.currentHistory + 1) }.recallLine
  else if s.historyCount ≠ 0 then { s with currentHistory := s.historyCount - 1 }.recallLine
  else s

def leftKey (s : Shell) : Shell := if s.lineCurpos ≠ 0 then { s with lineCurpos := s.lineCurpos - 1 } else s

def rightKey (s : Shell) : Shell :=
  if s.lineCurpos < s.linePosition then { s with lineCurpos := u16 (s.lineCurpos + 1) } else s

def tabKey (table : List (List UInt8)) (s : Shell) : Shell :=
  let line := mshAutoComplete table s.line
  { s with line := line, linePosition := u16 (cString line).length, lineCurpos := u16 (cString line).length }

/-- `none` is a `rt_memmove` or a write outside of the line. -/
def backspaceKey (s : Shell) : Option Shell :=
  if s.lineCurpos = 0 then some s
  else
    let linePosition := u16 (s.linePosition + (2 ^ 16 - 1))
    let lineCurpos := s.lineCurpos - 1
    if finshCmdSize < linePosition then none
    else if lineCurpos < linePosition then
      let line := memmove s.line lineCurpos (lineCurpos + 1) (linePosition - lineCurpos)
      some { s with line := Function.update line linePosition 0, linePosition := linePosition, lineCurpos := lineCurpos }
    else some { s with line := Function.update s.line linePosition 0, linePosition := linePosition, lineCurpos := lineCurpos }

/-- The end of a line: its call of `msh_exec`. -/
def enterKey (table : List (List UInt8)) (s : Shell) : Shell × MshCall :=
  let s := s.shellPushHistory
  ({ s with line := fun _ => 0, linePosition := 0, lineCurpos := 0 },
    ⟨bytesAt s.line s.linePosition, mshExec table s.line s.linePosition⟩)

def insertKey (s : Shell) (ch : UInt8) : Shell :=
  let linePosition := if finshCmdSize ≤ s.linePosition then 0 else s.linePosition
  let line :=
    if s.lineCurpos < linePosition then
      Function.update (memmove s.line (s.lineCurpos + 1) s.lineCurpos (linePosition - s.lineCurpos)) s.lineCurpos ch
    else Function.update s.line linePosition ch
  if finshCmdSize ≤ u16 (linePosition + 1) then { s with line := line, linePosition := 0, lineCurpos := 0 }
  else { s with line := line, linePosition := u16 (linePosition + 1), lineCurpos := u16 (s.lineCurpos + 1) }

def normalKey (table : List (List UInt8)) (s : Shell) (ch : UInt8) : Option (Shell × Option MshCall) :=
  if ch = 0 ∨ ch = 0xFF then some (s, none)
  else if ch = tab then some (s.tabKey table, none)
  else if ch = 0x7f ∨ ch = 0x08 then s.backspaceKey.map (·, none)
  else if ch = '\r'.toUInt8 ∨ ch = '\n'.toUInt8 then
    let done := s.enterKey table
    some (done.1, some done.2)
  else some (s.insertKey ch, none)

/-- One turn of the loop of `finsh_thread_entry`. -/
def key (table : List (List UInt8)) (s : Shell) (ch : UInt8) : Option (Shell × Option MshCall) :=
  if ch = 0x1b then some ({ s with stat := .waitSpecKey }, none)
  else
    match s.stat with
    | .waitSpecKey =>
      if ch = 0x5b then some ({ s with stat := .waitFuncKey }, none)
      else { s with stat := .waitNormal }.normalKey table ch
    | .waitFuncKey =>
      let s := { s with stat := .waitNormal }
      if ch = 0x41 then some (s.upKey, none)
      else if ch = 0x42 then some (s.downKey, none)
      else if ch = 0x44 then some (s.leftKey, none)
      else if ch = 0x43 then some (s.rightKey, none)
      else s.normalKey table ch
    | .waitNormal => s.normalKey table ch

end Shell
end RtThread.Finsh
