import RtThread.Lib.Window
import RtThread.Ymodem.Files

/-! `_rym_recv_begin` on the buffer that it has for the path of a file. -/

set_option autoImplicit false
namespace RtThread.Ymodem
open Lib

/-- `strchr` for the end of a string in an array of `limit` bytes, if it ends there. -/
def strEnd (mem : Nat → UInt8) (limit : Nat) : Option Nat := (List.range limit).find? fun i => mem i = 0

/-- The string in an array of `limit` bytes, if it ends there. -/
def cString (mem : Nat → UInt8) (limit : Nat) : Option (List UInt8) := (strEnd mem limit).map fun n => cells mem 0 n

/-- What `rt_strncpy` and `rt_strnlen` see of a string in `n` bytes. -/
def cText (src : List UInt8) (n : Nat) : List UInt8 := (src.take n).takeWhile (· ≠ 0)

/-- `rt_strncpy`, which writes `n` bytes. -/
def strncpy (mem : Nat → UInt8) (dst : Nat) (src : List UInt8) (n : Nat) : Nat → UInt8 :=
  setCells mem dst (cText src n ++ List.replicate (n - (cText src n).length) 0)

/-- How many bytes `atoi` reads: blanks, a sign, digits and the one behind them. -/
def atoiReads (bytes : List UInt8) : Nat :=
  let blanks := (bytes.takeWhile isSpace).length
  let sign := match (bytes.drop blanks).head? with
    | some 0x2D | some 0x2B => 1
    | _ => 0
  blanks + sign + ((bytes.drop (blanks + sign)).takeWhile isDigit).length + 1

/-- What `_rym_recv_begin` does: the end of the bytes it writes, the path it opens, the end of the bytes that it reads for
the length of the file. -/
structure Begun where
  writeEnd : Nat
  path : Option (List UInt8)
  fieldEnd : Nat

/-- `_rym_recv_begin` with `fpath` at the place 0 of the memory. It has no result where the string in `fpath` does not end
in the array. -/
def recvBeginAt (pathMax : Nat) (fpath : Nat → UInt8) (buf : List UInt8) : Option ((Nat → UInt8) × Begun) :=
  match strEnd fpath pathMax with
  | none => none
  | some ret =>
    let next := strncpy (Function.update fpath ret 0x2F) (ret + 1) buf (buf.length - 1)
    let field := 1 + (cText buf (buf.length - 1)).length
    some (next,
      { writeEnd := ret + 1 + (buf.length - 1)
        path := cString next pathMax
        fieldEnd := field + atoiReads (buf.drop field) })

/-- A call of `on_begin`: the bytes of the length that it gets, of which the packet brought the first ones, and whether
the file can be opened. -/
structure HeaderCall where
  buf : List UInt8
  received : Nat
  opens : Bool
  positive : 0 < buf.length
  inside : received ≤ buf.length

def HeaderCall.name (call : HeaderCall) : List UInt8 := (call.buf.take call.received).takeWhile (· ≠ 0)

/-- Every call writes inside the array, reads the length inside what was received, and opens the file of that name in the
directory. A file that cannot be opened ends the session. -/
def Stays (pathMax : Nat) (dir : List UInt8) : (Nat → UInt8) → List HeaderCall → Prop
  | _, [] => True
  | fpath, call :: rest => ∃ next begun, recvBeginAt pathMax fpath call.buf = some (next, begun) ∧
      begun.writeEnd ≤ pathMax ∧
      (call.opens = true → begun.fieldEnd ≤ call.received ∧ begun.path = some (dir ++ 0x2F :: call.name) ∧
        Stays pathMax dir next rest)

/-- `fpath` with the directory, in memory that was cleared. -/
def startPath (dir : List UInt8) : Nat → UInt8 := fun i => dir.getD i 0

/-- In the bytes that were received, the name ends before the last one, and a byte that belongs to no number follows. -/
def HeaderCall.Closed (call : HeaderCall) : Prop :=
  let field := 1 + (cText call.buf (call.buf.length - 1)).length
  field + atoiReads (call.buf.drop field) ≤ call.received

/-- Another header is for a file that cannot be opened, and fits behind a path of `length` bytes. -/
def NoFile (pathMax length : Nat) : List HeaderCall → Prop
  | [] => True
  | call :: _ => length + call.buf.length ≤ pathMax ∧ call.opens = false

/-- The directory and the header fit in the array, and if the file is opened, the header is closed and no other file is
opened. -/
def OneFile (pathMax : Nat) (dir : List UInt8) : List HeaderCall → Prop
  | [] => True
  | call :: rest => dir.length + call.buf.length ≤ pathMax ∧
      (call.opens = true → call.Closed ∧ NoFile pathMax (dir.length + 1 + call.name.length) rest)

section
variable {pathMax : Nat} {dir path buf : List UInt8} {fpath : Nat → UInt8} {call : HeaderCall} {rest : List HeaderCall}

/-! ## The path in the array -/

structure Holds (pathMax : Nat) (fpath : Nat → UInt8) (path : List UInt8) : Prop where
  cell : ∀ i < pathMax, fpath i = path.getD i 0
  clean : (0 : UInt8) ∉ path
  short : path.length < pathMax

theorem getD_ne_zero (clean : (0 : UInt8) ∉ path) {i : Nat} (inside : i < path.length) : path.getD i 0 ≠ 0 := by
  rw [List.getD_eq_getElem _ _ inside]
  exact fun zero => clean (zero ▸ List.getElem_mem inside)

theorem Holds.strEnd (holds : Holds pathMax fpath path) : strEnd fpath pathMax = some path.length := by
  have last := holds.cell path.length holds.short
  rw [List.getD_eq_default _ _ (Nat.le_refl _)] at last
  refine List.find?_range_eq_some.mpr ⟨decide_eq_true last, List.mem_range.mpr holds.short, fun j before => ?_⟩
  have cell := holds.cell j (Nat.lt_trans before holds.short)
  have other : ¬fpath j = 0 := fun zero => getD_ne_zero holds.clean before (cell.symm.trans zero)
  rw [decide_eq_false other]
  rfl

theorem Holds.cString (holds : Holds pathMax fpath path) : cString fpath pathMax = some path := by
  have length : (cells fpath 0 path.length).length = path.length := by simp [cells]
  rw [Ymodem.cString, holds.strEnd, Option.map_some]
  refine congrArg some (List.ext_getElem length fun i inside inside' => ?_)
  simp only [cells, List.getElem_map, List.getElem_range, Nat.zero_add]
  rw [holds.cell i (Nat.lt_trans inside' holds.short), List.getD_eq_getElem _ _ inside']

theorem cText_clean (src : List UInt8) (n : Nat) : (0 : UInt8) ∉ cText src n := fun zero => by
  have other := List.all_eq_true.mp List.all_takeWhile _ zero
  simp at other

theorem cText_length (src : List UInt8) (n : Nat) : (cText src n).length ≤ n :=
  Nat.le_trans (List.takeWhile_sublist _).length_le (List.length_take_le n src)

theorem Holds.next (holds : Holds pathMax fpath path) (n : Nat) (short : path.length + 1 + (cText buf n).length < pathMax) :
    Holds pathMax (strncpy (Function.update fpath path.length 0x2F) (path.length + 1) buf n)
      (path ++ 0x2F :: cText buf n) := by
  have room := cText_length buf n
  have clean := cText_clean buf n
  generalize text : cText buf n = name at *
  have length : (name ++ List.replicate (n - name.length) 0).length = n := by
    rw [List.length_append, List.length_replicate]
    omega
  refine ⟨fun i inside => ?_, ?_, ?_⟩
  · have tail : (path ++ 0x2F :: name).getD i 0 =
        if i < path.length then path.getD i 0 else (0x2F :: name).getD (i - path.length) 0 := by
      rw [List.getD_eq_getElem?_getD, List.getElem?_append]
      split
      · rw [List.getD_eq_getElem?_getD]
      · rw [List.getD_eq_getElem?_getD]
    rw [tail, strncpy, text, setCells]
    rcases Nat.lt_trichotomy i path.length with before | here | behind
    · rw [dif_neg (by omega), if_pos before, Function.update_of_ne (Nat.ne_of_lt before), holds.cell i inside]
    · rw [dif_neg (by omega), if_neg (by omega), here, Function.update_self, Nat.sub_self]
      rfl
    · obtain ⟨k, rfl⟩ := Nat.exists_eq_add_of_lt behind
      have place : path.length + k + 1 - (path.length + 1) = k := by omega
      have place' : path.length + k + 1 - path.length = k + 1 := by omega
      rw [if_neg (by omega), place', List.getD_cons_succ]
      split
      case isTrue written =>
        simp only [place, List.getElem_append]
        split
        case isTrue short => rw [List.getD_eq_getElem _ _ short]
        case isFalse long => rw [List.getElem_replicate, List.getD_eq_default _ _ (by omega)]
      case isFalse rest =>
        have far : n ≤ k := by omega
        rw [Function.update_of_ne (by omega), holds.cell _ inside, List.getD_eq_default _ _ (by omega),
          List.getD_eq_default _ _ (by omega)]
  · rw [List.mem_append, List.mem_cons]
    rintro (zero | zero | zero)
    · exact holds.clean zero
    · cases zero
    · exact clean zero
  · rw [List.length_append, List.length_cons]
    omega

theorem start_holds (clean : (0 : UInt8) ∉ dir) (short : dir.length < pathMax) : Holds pathMax (startPath dir) dir :=
  ⟨fun _ _ => rfl, clean, short⟩

/-! ## One call -/

theorem HeaderCall.Closed.name (closed : call.Closed) : call.name = cText call.buf (call.buf.length - 1) := by
  have inside := call.inside
  have length : 1 + (cText call.buf (call.buf.length - 1)).length +
      atoiReads (call.buf.drop (1 + (cText call.buf (call.buf.length - 1)).length)) ≤ call.received := closed
  have byte : 1 ≤ atoiReads (call.buf.drop (1 + (cText call.buf (call.buf.length - 1)).length)) :=
    Nat.le_add_left 1 _
  have text : cText call.buf (call.buf.length - 1) = (call.buf.takeWhile (· ≠ 0)).take (call.buf.length - 1) :=
    List.take_takeWhile.symm
  have name : call.name = (call.buf.takeWhile (· ≠ 0)).take call.received := List.take_takeWhile.symm
  have short := congrArg List.length text
  rw [List.length_take] at short
  rw [text, name, List.take_of_length_le (by omega), List.take_of_length_le (by omega)]

def pathAfter (fpath : Nat → UInt8) (path buf : List UInt8) : Nat → UInt8 :=
  strncpy (Function.update fpath path.length 0x2F) (path.length + 1) buf (buf.length - 1)

theorem Holds.after (holds : Holds pathMax fpath path) (fits : path.length + call.buf.length ≤ pathMax)
    (closed : call.Closed) : Holds pathMax (pathAfter fpath path call.buf) (path ++ 0x2F :: call.name) := by
  have text := closed.name
  have inside := call.inside
  have length : 1 + (cText call.buf (call.buf.length - 1)).length +
      atoiReads (call.buf.drop (1 + (cText call.buf (call.buf.length - 1)).length)) ≤ call.received := closed
  have byte : 1 ≤ atoiReads (call.buf.drop (1 + (cText call.buf (call.buf.length - 1)).length)) :=
    Nat.le_add_left 1 _
  rw [text]
  exact holds.next _ (by omega)

/-- What a call needs: room for what it writes, and if the file is opened, a closed header and no path but the directory. -/
theorem stays_cons (holds : Holds pathMax fpath path) : Stays pathMax dir fpath (call :: rest) ↔
    path.length + call.buf.length ≤ pathMax ∧
      (call.opens = true → call.Closed ∧ path = dir ∧ Stays pathMax dir (pathAfter fpath path call.buf) rest) := by
  have positive := call.positive
  have begun : recvBeginAt pathMax fpath call.buf = some (pathAfter fpath path call.buf,
      { writeEnd := path.length + 1 + (call.buf.length - 1)
        path := cString (pathAfter fpath path call.buf) pathMax
        fieldEnd := 1 + (cText call.buf (call.buf.length - 1)).length +
          atoiReads (call.buf.drop (1 + (cText call.buf (call.buf.length - 1)).length)) }) := by
    simp only [recvBeginAt, holds.strEnd]
    rfl
  have room : path.length + 1 + (call.buf.length - 1) = path.length + call.buf.length := by omega
  rw [Stays, begun]
  constructor
  · rintro ⟨next, result, same, fits, opened⟩
    cases same
    rw [room] at fits
    refine ⟨fits, fun opens => ?_⟩
    obtain ⟨closed, found, stays⟩ := opened opens
    rw [(holds.after fits closed).cString] at found
    exact ⟨closed, List.append_cancel_right (Option.some.inj found), stays⟩
  · rintro ⟨fits, opened⟩
    refine ⟨_, _, rfl, room ▸ fits, fun opens => ?_⟩
    obtain ⟨closed, same, stays⟩ := opened opens
    refine ⟨closed, ?_, stays⟩
    rw [(holds.after fits closed).cString, same]

theorem stays_noFile (holds : Holds pathMax fpath path) (other : path ≠ dir) (rest : List HeaderCall) :
    Stays pathMax dir fpath rest ↔ NoFile pathMax path.length rest := by
  cases rest with
  | nil => exact Iff.rfl
  | cons call rest =>
    rw [stays_cons holds, NoFile]
    refine and_congr_right fun _ => ?_
    cases call.opens with
    | false => exact iff_of_true nofun rfl
    | true => exact iff_of_false (fun opened => other (opened rfl).2.1) nofun

end

/-- When the calls of a session write in the array, read in the packets and open the files of their names. -/
theorem header_stays (pathMax : Nat) (dir : List UInt8) (clean : (0 : UInt8) ∉ dir) (short : dir.length < pathMax)
    (calls : List HeaderCall) : Stays pathMax dir (startPath dir) calls ↔ OneFile pathMax dir calls := by
  have holds := start_holds clean short
  cases calls with
  | nil => exact Iff.rfl
  | cons call rest =>
    rw [stays_cons holds, OneFile]
    refine and_congr_right fun fits => imp_congr_right fun _ => and_congr_right fun closed => ?_
    have longer : dir ++ 0x2F :: call.name ≠ dir := by simp
    have next := stays_noFile (holds.after fits closed) longer rest
    rw [List.length_append, List.length_cons] at next
    rw [and_iff_right rfl, next]
    have sum : dir.length + (call.name.length + 1) = dir.length + 1 + call.name.length := by omega
    rw [sum]

def wholeHeader (first : UInt8) (rest : List UInt8) : HeaderCall :=
  ⟨first :: rest, (first :: rest).length, true, List.length_pos_of_ne_nil (List.cons_ne_nil _ _), Nat.le_refl _⟩

/-- The file `a` of 5 bytes, in a short packet -/
def shortHeader : HeaderCall := wholeHeader 0x61 (0 :: 0x35 :: List.replicate 125 0)

theorem header_stays_short :
    Stays 256 [0x74] (startPath [0x74]) [shortHeader] ↔ OneFile 256 [0x74] [shortHeader] :=
  header_stays 256 [0x74] (by decide) (by decide) [shortHeader]

theorem long_leaves {pathMax : Nat} {dir : List UInt8} {call : HeaderCall} {rest : List HeaderCall} (clean : (0 : UInt8) ∉ dir)
    (short : dir.length < pathMax) (long : pathMax < dir.length + call.buf.length) :
    ¬Stays pathMax dir (startPath dir) (call :: rest) := fun stays =>
  Nat.not_le.mpr long ((stays_cons (start_holds clean short)).mp stays).1

theorem long_length : (wholeHeader 0x61 (List.replicate 1023 0)).buf.length = 1024 := by
  rw [wholeHeader, List.length_cons, List.length_replicate]

/-- The same file in a long packet, for which 1023 bytes are written behind the directory. -/
theorem header_long : ¬Stays 256 [0x74] (startPath [0x74]) [wholeHeader 0x61 (List.replicate 1023 0)] :=
  long_leaves (by decide) (by decide) (by rw [long_length]; decide)

/-! ## Where the receiver makes the calls -/

section
variable {S : Type} {callbacks : Callbacks S} {onBegin : S → List UInt8 → S × UInt8} (w : Receiver S) (n i : Nat)

end

end RtThread.Ymodem
