import RtThread.Drivers.RingBufferFifo

/-! `msh.c`: a command line is split in place and run, or completed in place. A pointer into a buffer is the bytes from
there on. -/

set_option autoImplicit false
namespace RtThread.Finsh
open Drivers

def finshCmdSize : Nat := 80

def finshArgMax : Nat := 10

def space : UInt8 := ' '.toUInt8
def tab : UInt8 := '\t'.toUInt8
def quote : UInt8 := '"'.toUInt8
def backslash : UInt8 := '\\'.toUInt8

def isBlank (ch : UInt8) : Bool := ch = space ∨ ch = tab

def cString (ptr : Nat → UInt8) : List UInt8 := (bytesAt ptr (finshCmdSize + 1)).takeWhile (· ≠ 0)

/-- `rt_strncpy` of a string `src` -/
def rtStrncpy (dst : Nat → UInt8) (src : List UInt8) (n : Nat) : Nat → UInt8 :=
  fun i => if i < n then src.getD i 0 else dst i

/-! ## Commands -/

section split
variable (length : Nat)

/-- The loop of `msh_split` over blanks and tabs. -/
def stripBlanks (cmd : Nat → UInt8) (position : Nat) : (Nat → UInt8) × Nat :=
  if isBlank (cmd position) ∧ position < length then stripBlanks (Function.update cmd position 0) (position + 1)
  else (cmd, position)
termination_by length - position

/-- The loop of `msh_split` over a string in quotes. -/
def skipString (cmd : Nat → UInt8) (position : Nat) : Nat :=
  if cmd position ≠ quote ∧ position < length then
    if cmd position = backslash ∧ cmd (position + 1) = quote then skipString cmd (position + 2)
    else skipString cmd (position + 1)
  else position
termination_by length - position

/-- The loop of `msh_split` over a word, and the one of `_msh_exec_cmd` over the first. -/
def skipWord (cmd : Nat → UInt8) (position : Nat) : Nat :=
  if ¬isBlank (cmd position) ∧ position < length then skipWord cmd (position + 1) else position
termination_by length - position

theorem le_stripBlanks (cmd : Nat → UInt8) (position : Nat) : position ≤ (stripBlanks length cmd position).2 := by
  fun_induction stripBlanks length cmd position with
  | case1 cmd position blank ih => exact Nat.le_of_succ_le ih
  | case2 cmd position stop => exact Nat.le_refl _

theorem le_skipString (cmd : Nat → UInt8) (position : Nat) : position ≤ skipString length cmd position := by
  fun_induction skipString length cmd position with
  | case1 position inside escaped ih => exact Nat.le_trans (Nat.le_add_right _ 2) ih
  | case2 position inside plain ih => exact Nat.le_of_succ_le ih
  | case3 position stop => exact Nat.le_refl _

theorem stripBlanks_stops (cmd : Nat → UInt8) (position : Nat) (less : (stripBlanks length cmd position).2 < length) :
    isBlank ((stripBlanks length cmd position).1 (stripBlanks length cmd position).2) = false := by
  fun_induction stripBlanks length cmd position with
  | case1 cmd position blank ih => exact ih less
  | case2 cmd position stop => exact Bool.eq_false_iff.mpr fun blank => stop ⟨blank, less⟩

theorem lt_skipWord (cmd : Nat → UInt8) {position : Nat} (word : isBlank (cmd position) = false) (less : position < length) :
    position < skipWord length cmd position := by
  have le (position : Nat) : position ≤ skipWord length cmd position := by
    fun_induction skipWord length cmd position with
    | case1 position inside ih => exact Nat.le_of_succ_le ih
    | case2 position stop => exact Nat.le_refl _
  rw [skipWord, if_pos ⟨by rw [word]; exact Bool.false_ne_true, less⟩]
  exact le (position + 1)

structure Split where
  cmd : Nat → UInt8
  argv : List Nat

/-- `msh_split` from `position` on, with some of the arguments found. -/
def mshSplit (cmd : Nat → UInt8) (position : Nat) (argv : List Nat) : Split :=
  if position < length then
    let stripped := stripBlanks length cmd position
    if finshArgMax ≤ argv.length then ⟨stripped.1, argv⟩
    else if length ≤ stripped.2 then ⟨stripped.1, argv⟩
    else if stripped.1 stripped.2 = quote then
      let stop := skipString length stripped.1 (stripped.2 + 1)
      if length ≤ stop then ⟨stripped.1, argv ++ [stripped.2 + 1]⟩
      else mshSplit (Function.update stripped.1 stop 0) (stop + 1) (argv ++ [stripped.2 + 1])
    else
      let stop := skipWord length stripped.1 stripped.2
      if length ≤ stop then ⟨stripped.1, argv ++ [stripped.2]⟩
      else mshSplit stripped.1 stop (argv ++ [stripped.2])
  else ⟨cmd, argv⟩
termination_by length - position
decreasing_by
  · have first := le_stripBlanks length cmd position
    have second := le_skipString length (stripBlanks length cmd position).1 ((stripBlanks length cmd position).2 + 1)
    omega
  · have first := le_stripBlanks length cmd position
    have less : (stripBlanks length cmd position).2 < length := Nat.lt_of_not_le (by assumption)
    have second := lt_skipWord length _ (stripBlanks_stops length cmd position less) less
    omega

end split

/-- What becomes of a command line: nothing, a command that runs with its arguments, or the report of one that is not
found. -/
inductive MshResult where
  | nothing
  | run (name : List UInt8) (argv : List (List UInt8))
  | notFound (cmd : List UInt8)
  deriving DecidableEq

/-- `msh_get_cmd`: the first command with the name. -/
def mshGetCmd (table : List (List UInt8)) (cmd : Nat → UInt8) (size : Nat) : Option (List UInt8) :=
  table.find? fun name => name = bytesAt cmd size

/-- `_msh_exec_cmd`, if it finds the command. -/
def mshExecCmd (table : List (List UInt8)) (cmd : Nat → UInt8) (length : Nat) : Option MshResult :=
  let cmd0Size := skipWord length cmd 0
  if cmd0Size = 0 then none
  else
    match mshGetCmd table cmd cmd0Size with
    | none => none
    | some name =>
      let done := mshSplit length cmd 0 []
      if done.argv = [] then none
      else some (.run name (done.argv.map fun start => cString fun i => done.cmd (start + i)))

/-- The first loop of `msh_exec`. -/
def mshTrim (cmd : Nat → UInt8) : Nat → (Nat → UInt8) × Nat
  | 0 => (cmd, 0)
  | length + 1 => if isBlank (cmd 0) then mshTrim (fun i => cmd (i + 1)) length else (cmd, length + 1)

def mshExec (table : List (List UInt8)) (cmd : Nat → UInt8) (length : Nat) : MshResult :=
  let (cmd, length) := mshTrim cmd length
  if length = 0 then .nothing
  else
    match mshExecCmd table cmd length with
    | some result => result
    | none => .notFound ((cString cmd).takeWhile (· ≠ space))

/-! ## Completion -/

def strCommon : List UInt8 → List UInt8 → Nat
  | a :: str1, b :: str2 => if a = b then strCommon str1 str2 + 1 else 0
  | _, _ => 0

/-- One command in the loop of `msh_auto_complete`: `name_ptr` and `min_length`. -/
def completeStep (text : List UInt8) (found : Option (List UInt8) × Nat) (name : List UInt8) : Option (List UInt8) × Nat :=
  if text.isPrefixOf name then
    let (namePtr, minLength) := if found.2 = 0 then (name, name.length) else (found.1.getD [], found.2)
    let length := strCommon namePtr name
    (some namePtr, if length < minLength then length else minLength)
  else found

/-- `msh_auto_complete` without the completion of paths. -/
def mshAutoComplete (table : List (List UInt8)) (line : Nat → UInt8) : Nat → UInt8 :=
  if line 0 = 0 then line
  else
    let (namePtr, minLength) := table.foldl (completeStep (cString line)) (none, 0)
    match namePtr with
    | none => line
    | some name => rtStrncpy line name minLength

end RtThread.Finsh
