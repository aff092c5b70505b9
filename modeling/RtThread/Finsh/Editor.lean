import RtThread.Finsh.Shell
import RtThread.Finsh.Completion
import RtThread.Lib.Throughout

/-! The shell edits a line as an editor of texts does, up to the line that is too long. -/

set_option autoImplicit false
namespace RtThread.Finsh
open Lib Drivers
open Function (update_of_ne update_self)

/-! ## The editor -/

inductive Key where
  | char (ch : UInt8)
  | left
  | right
  | up
  | down
  | backspace
  | tab
  | enter

def plainKey (ch : UInt8) : Option Key :=
  if ch = 0 ∨ ch = 0xFF then none
  else if ch = tab then some .tab
  else if ch = 0x7f ∨ ch = 0x08 then some .backspace
  else if ch = '\r'.toUInt8 ∨ ch = '\n'.toUInt8 then some .enter
  else some (.char ch)

def decode (stat : InputStat) (ch : UInt8) : InputStat × Option Key :=
  if ch = 0x1b then (.waitSpecKey, none)
  else
    match stat with
    | .waitNormal => (.waitNormal, plainKey ch)
    | .waitSpecKey => if ch = 0x5b then (.waitFuncKey, none) else (.waitNormal, plainKey ch)
    | .waitFuncKey =>
      (.waitNormal,
        if ch = 0x41 then some .up
        else if ch = 0x42 then some .down
        else if ch = 0x44 then some .left
        else if ch = 0x43 then some .right
        else plainKey ch)

/-- A line of text with a cursor, and the texts that were entered last, with the place of the one recalled. -/
structure Editor where
  stat : InputStat
  line : EditLine UInt8
  history : List (List UInt8)
  recent : Nat

namespace Editor

def init : Editor := ⟨.waitNormal, .empty, [], 0⟩

def recallLine (ed : Editor) (recent : Nat) : Editor :=
  { ed with line := .atEnd (ed.history.getD recent []), recent := recent }

def key (table : List (List UInt8)) (ed : Editor) : Key → Editor × Option MshCall
  | .char ch =>
    if ed.line.text.length + 1 < finshCmdSize then ({ ed with line := ed.line.insert ch }, none)
    else ({ ed with line := .empty }, none)
  | .left => ({ ed with line := ed.line.left }, none)
  | .right => ({ ed with line := ed.line.right }, none)
  | .up => if 0 < ed.recent then (ed.recallLine (ed.recent - 1), none) else (ed, none)
  | .down =>
    if ed.recent + 1 < ed.history.length then (ed.recallLine (ed.recent + 1), none)
    else if ed.history ≠ [] then (ed.recallLine (ed.history.length - 1), none)
    else (ed, none)
  | .backspace => ({ ed with line := ed.line.erase }, none)
  | .tab =>
    if ed.line.text = [] then (ed, none)
    else ({ ed with line := .atEnd (completion table ed.line.text) }, none)
  | .enter =>
    let history := remember finshHistoryLines ed.history ed.line.text
    ({ ed with line := .empty, history := history, recent := history.length },
      some ⟨ed.line.text, textExec table ed.line.text⟩)

def input (table : List (List UInt8)) (ed : Editor) (ch : UInt8) : Editor × Option MshCall :=
  let (stat, key) := decode ed.stat ch
  let ed := { ed with stat := stat }
  match key with
  | some key => ed.key table key
  | none => (ed, none)

end Editor

structure Session where
  shell : Shell
  editor : Editor
  executed : List MshCall
  expected : List MshCall

namespace Session

def init : Session := ⟨.init, .init, [], []⟩

def step (cmds : Commands) (w : Session) (ch : UInt8) : Option Session :=
  (w.shell.key cmds.table ch).map fun done =>
    let ed := w.editor.input cmds.table ch
    ⟨done.1, ed.1, w.executed ++ done.2.toList, w.expected ++ ed.2.toList⟩

def Step (cmds : Commands) (w : Session) (ch : UInt8) (w' : Session) : Prop := w.step cmds ch = some w'

end Session

/-! ## The shell follows the editor -/

structure Follows (s : Shell) (ed : Editor) : Prop where
  stat : s.stat = ed.stat
  rest : Rest ed.line.text s.line 0
  noNul : 0 ∉ ed.line.text
  short : ed.line.text.length < finshCmdSize
  position : s.linePosition = ed.line.text.length
  curpos : s.lineCurpos = ed.line.cursor
  count : s.historyCount = ed.history.length
  lines : ed.history.length ≤ finshHistoryLines
  current : s.currentHistory = ed.recent
  recent : ed.recent ≤ ed.history.length
  row {index i : Nat} : index < ed.history.length → i < finshCmdSize →
    s.cmdHistory index i = (ed.history.getD index []).getD i 0
  entry {text : List UInt8} : text ∈ ed.history → 0 ∉ text ∧ text.length < finshCmdSize

theorem init_follows : Follows .init .init where
  stat := rfl
  rest := ⟨Nat.le_refl _, fun _ => rfl⟩
  noNul := List.not_mem_nil
  short := by decide
  position := rfl
  curpos := rfl
  count := rfl
  lines := Nat.zero_le _
  current := rfl
  recent := Nat.le_refl _
  row less := absurd less (Nat.not_lt_zero _)
  entry inside := absurd inside List.not_mem_nil

theorem u16_small {value : Nat} (small : value < 2 ^ 16) : u16 value = value := Nat.mod_eq_of_lt small

section keys
variable {s : Shell} {ed : Editor}

section
variable (follows : Follows s ed)
include follows

theorem Follows.line {line : Nat → UInt8} {text : EditLine UInt8} (rest : Rest text.text line 0)
    (noNul : 0 ∉ text.text) (short : text.text.length < finshCmdSize) :
    Follows { s with line := line, linePosition := text.text.length, lineCurpos := text.cursor } { ed with line := text } :=
  { follows with rest := rest, noNul := noNul, short := short, position := rfl, curpos := rfl }

theorem Follows.whole {line : Nat → UInt8} {text : List UInt8} (rest : Rest text line 0)
    (noNul : 0 ∉ text) (short : text.length < finshCmdSize) :
    Follows { s with line := line, linePosition := u16 (cString line).length, lineCurpos := u16 (cString line).length }
      { ed with line := .atEnd text } := by
  have size : finshCmdSize = 80 := rfl
  rw [cString_eq rest.holds noNul (Nat.le_of_lt short), u16_small (by omega)]
  have rest : Rest (EditLine.atEnd text).text line 0 := rest
  exact follows.line rest noNul short

theorem left_follows : Follows s.leftKey { ed with line := ed.line.left } := by
  unfold Shell.leftKey
  split
  case isTrue some => exact { follows with curpos := congrArg (· - 1) follows.curpos }
  case isFalse none =>
    have zero : ed.line.cursor = 0 := follows.curpos.symm.trans (Classical.not_not.mp none)
    have still : ed.line.left.cursor = ed.line.cursor := by
      change ed.line.cursor - 1 = ed.line.cursor
      rw [zero]
    exact { follows with curpos := follows.curpos.trans still.symm }

theorem right_follows : Follows s.rightKey { ed with line := ed.line.right } := by
  have size : finshCmdSize = 80 := rfl
  have short := follows.short
  have same : s.lineCurpos < s.linePosition ↔ ed.line.cursor < ed.line.text.length := by
    rw [follows.curpos, follows.position]
  unfold Shell.rightKey EditLine.right
  by_cases less : ed.line.cursor < ed.line.text.length
  · have next : u16 (s.lineCurpos + 1) = ed.line.cursor + 1 := by
      rw [follows.curpos, u16_small (by omega)]
    rw [if_pos (same.mpr less), dif_pos less, next]
    exact { follows with curpos := rfl }
  · rw [if_neg (mt same.mp less), dif_neg less]
    exact follows

theorem recallLine_follows {recent : Nat} (less : recent < ed.history.length) :
    Follows { s with currentHistory := recent }.recallLine (ed.recallLine recent) := by
  have inside : ed.history.getD recent [] ∈ ed.history := by
    rw [List.getD_eq_getElem?_getD, List.getElem?_eq_getElem less, Option.getD_some]
    exact List.getElem_mem less
  obtain ⟨noNul, short⟩ := follows.entry inside
  have moved : Follows { s with currentHistory := recent } { ed with recent := recent } :=
    { follows with current := rfl, recent := Nat.le_of_lt less }
  refine moved.whole ⟨Nat.zero_le _, fun {i} _ => ?_⟩ noNul short
  rw [memcpy]
  split
  case isTrue under => exact follows.row less under
  case isFalse beyond =>
    have outside := follows.short
    rw [follows.rest.byte (Nat.zero_le _), getD_behind (by omega), getD_behind (by omega)]

end

theorem up_follows (table : List (List UInt8)) (follows : Follows s ed) : Follows s.upKey (ed.key table .up).1 := by
  have recent := follows.recent
  have earlier : s.currentHistory - 1 = ed.recent - 1 := by rw [follows.current]
  unfold Shell.upKey Editor.key
  dsimp only
  by_cases some : 0 < ed.recent
  · rw [if_pos (by rw [follows.current]; exact some), if_pos some, earlier]
    exact recallLine_follows follows (by omega)
  · rw [if_neg (by rw [follows.current]; exact some), if_neg some]
    exact { follows with current := (Nat.eq_zero_of_not_pos some).symm }

theorem down_follows (table : List (List UInt8)) (follows : Follows s ed) : Follows s.downKey (ed.key table .down).1 := by
  have lines := follows.lines
  have few : finshHistoryLines = 5 := rfl
  have later : s.currentHistory + 1 < s.historyCount ↔ ed.recent + 1 < ed.history.length := by
    rw [follows.current, follows.count]
  unfold Shell.downKey Editor.key
  dsimp only
  by_cases less : ed.recent + 1 < ed.history.length
  · have next : u16 (s.currentHistory + 1) = ed.recent + 1 := by
      rw [follows.current, u16_small (by omega)]
    rw [if_pos (later.mpr less), if_pos less, next]
    exact recallLine_follows follows less
  · rw [if_neg (mt later.mp less), if_neg less]
    by_cases some : ed.history ≠ []
    · have positive := List.length_pos_of_ne_nil some
      have last : s.historyCount - 1 = ed.history.length - 1 := by rw [follows.count]
      rw [if_pos some, if_pos (by rw [follows.count]; omega), last]
      exact recallLine_follows follows (by omega)
    · rw [if_neg some, if_neg fun more => more (follows.count.trans (List.length_eq_zero_iff.mpr (Classical.not_not.mp some)))]
      exact follows

theorem tab_follows (cmds : Commands) (follows : Follows s ed) : Follows (s.tabKey cmds.table) (ed.key cmds.table .tab).1 := by
  unfold Shell.tabKey Editor.key
  dsimp only
  split
  case isTrue empty =>
    have first : s.line 0 = 0 := (follows.rest.byte (Nat.le_refl _)).trans (getD_behind (by rw [empty]; exact Nat.le_refl _))
    have same : mshAutoComplete cmds.table s.line = s.line := if_pos first
    have rest := follows.rest
    rw [empty] at rest
    have whole := follows.whole rest List.not_mem_nil (by decide)
    rw [same]
    refine { whole with rest := follows.rest, noNul := follows.noNul, short := follows.short, position := ?_, curpos := ?_ }
    · exact whole.position.trans (by rw [empty]; rfl)
    · have inside := ed.line.inside
      rw [empty] at inside
      exact whole.curpos.trans (Nat.le_zero.mp inside).symm
  case isFalse some =>
    obtain ⟨noNul, short⟩ := completion_fits cmds some follows.noNul follows.short
    exact follows.whole (mshAutoComplete_rest cmds follows.rest some follows.noNul follows.short) noNul short

theorem Follows.edit (follows : Follows s ed) {line : Nat → UInt8} {linePosition lineCurpos : Nat} {text : EditLine UInt8}
    (byte : ∀ i, line i = text.text.getD i 0) (noNul : 0 ∉ text.text) (short : text.text.length < finshCmdSize)
    (position : linePosition = text.text.length) (curpos : lineCurpos = text.cursor) :
    Follows { s with line := line, linePosition := linePosition, lineCurpos := lineCurpos } { ed with line := text } := by
  rw [position, curpos]
  exact follows.line ⟨Nat.zero_le _, fun {i} _ => byte i⟩ noNul short

theorem backspace_follows (follows : Follows s ed) :
    ∃ s', s.backspaceKey = some s' ∧ Follows s' { ed with line := ed.line.erase } := by
  have size : finshCmdSize = 80 := rfl
  have short := follows.short
  have inside := ed.line.inside
  have line (i : Nat) : s.line i = ed.line.text.getD i 0 := follows.rest.byte (Nat.zero_le i)
  unfold Shell.backspaceKey
  by_cases none : ed.line.cursor = 0
  · rw [if_pos (follows.curpos.trans none), EditLine.erase, dif_pos none]
    exact ⟨s, rfl, follows⟩
  · have noNul : 0 ∉ ed.line.erase.text := fun zero => follows.noNul (EditLine.mem_erase zero)
    have length := EditLine.erase_length none
    have position : u16 (s.linePosition + (2 ^ 16 - 1)) = ed.line.erase.text.length := by
      rw [follows.position, length, u16]
      omega
    have curpos : s.lineCurpos - 1 = ed.line.erase.cursor := by
      rw [follows.curpos, (EditLine.erase_eq none).2]
    have cursor := (EditLine.erase_eq none).2
    have text (i : Nat) := EditLine.erase_getD ed.line 0 i none
    rw [if_neg (by rw [follows.curpos]; exact none)]
    dsimp only
    generalize u16 (s.linePosition + (2 ^ 16 - 1)) = linePosition at position ⊢
    generalize s.lineCurpos - 1 = lineCurpos at curpos ⊢
    subst position curpos
    rw [if_neg (by omega)]
    split
    case isTrue middle =>
      refine ⟨_, rfl, follows.edit (fun i => ?_) noNul (by omega) rfl rfl⟩
      rw [text]
      by_cases last : i = ed.line.erase.text.length
      · rw [last, update_self, if_neg (by omega), getD_behind (by omega)]
      · rw [update_of_ne last, memmove]
        split
        · rw [if_neg (by omega), line]
          congr 1
          omega
        · rw [line]
          split
          · rfl
          · rw [getD_behind (by omega), getD_behind (by omega)]
    case isFalse ends =>
      refine ⟨_, rfl, follows.edit (fun i => ?_) noNul (by omega) rfl rfl⟩
      rw [text]
      by_cases last : i = ed.line.erase.text.length
      · rw [last, update_self, if_neg (by omega), getD_behind (by omega)]
      · rw [update_of_ne last, line]
        split
        · rfl
        · rw [getD_behind (by omega), getD_behind (by omega)]

theorem insert_follows (follows : Follows s ed) {ch : UInt8} (some : ch ≠ 0)
    (room : ed.line.text.length + 1 < finshCmdSize) :
    Follows (s.insertKey ch) { ed with line := ed.line.insert ch } := by
  have size : finshCmdSize = 80 := rfl
  have inside := ed.line.inside
  have line (i : Nat) : s.line i = ed.line.text.getD i 0 := follows.rest.byte (Nat.zero_le i)
  have text (i : Nat) := EditLine.insert_getD ed.line 0 i ch
  have length := EditLine.insert_length ed.line ch
  have noNul : 0 ∉ (ed.line.insert ch).text := fun zero => (EditLine.mem_insert zero).elim (fun same => some same.symm) follows.noNul
  have position : (if finshCmdSize ≤ s.linePosition then 0 else s.linePosition) = ed.line.text.length := by
    rw [follows.position, if_neg (by omega)]
  unfold Shell.insertKey
  dsimp only
  rw [position, follows.curpos, u16_small (by omega), if_neg (by omega)]
  refine follows.edit (fun i => ?_) noNul (by omega) length.symm (u16_small (by omega))
  rw [text]
  split
  case isTrue middle =>
    by_cases own : i = ed.line.cursor
    · rw [own, update_self, if_neg (Nat.lt_irrefl _), if_pos rfl]
    · rw [update_of_ne own, if_neg own, memmove]
      split
      · rw [if_neg (by omega), line]
        congr 1
        omega
      · rw [line]
        split
        · rfl
        · rw [getD_behind (by omega), getD_behind (by omega)]
  case isFalse ends =>
    by_cases own : i = ed.line.text.length
    · rw [own, update_self, if_neg (by omega), if_pos (by omega)]
    · rw [update_of_ne own, line]
      split
      · rfl
      · rw [if_neg (by omega), getD_behind (by omega), getD_behind (by omega)]

/-! ## The history -/

theorem eq_of_padded {one other : List UInt8} (first : 0 ∉ one) (second : 0 ∉ other) {n : Nat} (short : one.length < n)
    (short' : other.length < n) (same : ∀ i < n, one.getD i 0 = other.getD i 0) : one = other := by
  have not_zero {text : List UInt8} (noNul : 0 ∉ text) {i : Nat} (less : i < text.length) : text.getD i 0 ≠ 0 := by
    rw [List.getD_eq_getElem?_getD, List.getElem?_eq_getElem less, Option.getD_some]
    exact fun zero => noNul (zero ▸ List.getElem_mem less)
  have length : one.length = other.length := by
    rcases Nat.lt_trichotomy one.length other.length with less | same' | more
    · have zero := same one.length short
      rw [getD_behind (Nat.le_refl _)] at zero
      exact absurd zero.symm (not_zero second less)
    · exact same'
    · have zero := same other.length short'
      rw [getD_behind (Nat.le_refl _)] at zero
      exact absurd zero (not_zero first more)
  refine List.ext_getElem length fun i less less' => ?_
  have own := same i (by omega)
  rwa [List.getD_eq_getElem?_getD, List.getD_eq_getElem?_getD, List.getElem?_eq_getElem less, List.getElem?_eq_getElem less',
    Option.getD_some, Option.getD_some] at own

theorem sameLine_iff (follows : Follows s ed) {index : Nat} (less : index < ed.history.length) :
    s.sameLine index ↔ ed.history.getD index [] = ed.line.text := by
  have inside : ed.history.getD index [] ∈ ed.history := by
    rw [List.getD_eq_getElem?_getD, List.getElem?_eq_getElem less, Option.getD_some]
    exact List.getElem_mem less
  have bytes : s.sameLine index ↔ ∀ i < finshCmdSize, s.cmdHistory index i = s.line i := by
    rw [Shell.sameLine, bytesAt, bytesAt, List.map_inj_left]
    exact forall_congr' fun i => by rw [List.mem_range]
  rw [bytes]
  constructor
  · intro same
    refine eq_of_padded (follows.entry inside).1 follows.noNul (follows.entry inside).2 follows.short fun i under => ?_
    rw [← follows.row less under, same i under, follows.rest.byte (Nat.zero_le _)]
  · intro same i under
    rw [follows.row less under, same, follows.rest.byte (Nat.zero_le _)]

theorem sameLast_iff (follows : Follows s ed) (some : ed.history ≠ []) :
    s.sameLine (ed.history.length - 1) ↔ ed.history.getLast? = Option.some ed.line.text := by
  have positive := List.length_pos_of_ne_nil some
  have less : ed.history.length - 1 < ed.history.length := by omega
  rw [sameLine_iff follows less, List.getLast?_eq_getElem?, List.getD_eq_getElem?_getD, List.getElem?_eq_getElem less,
    Option.getD_some, Option.some_inj]

theorem moveHistory_eq (cmdHistory : Nat → Nat → UInt8) (n index i : Nat) (under : i < finshCmdSize) :
    Shell.moveHistory cmdHistory n index i = if index < n then cmdHistory (index + 1) i else cmdHistory index i := by
  induction n generalizing index with
  | zero => rfl
  | succ n ih =>
    rw [Shell.moveHistory]
    by_cases own : index = n
    · rw [own, update_self, memcpy, if_pos under, ih, if_neg (by omega), if_pos (Nat.lt_succ_self n)]
    · rw [update_of_ne own, ih]
      by_cases less : index < n
      · rw [if_pos less, if_pos (Nat.lt_succ_of_lt less)]
      · rw [if_neg less, if_neg (by omega)]

theorem copyLine_own (follows : Follows s ed) (i : Nat) :
    memcpy (fun _ => 0) s.line s.linePosition i = ed.line.text.getD i 0 := by
  rw [memcpy]
  split
  · exact follows.rest.byte (Nat.zero_le i)
  case isFalse beyond =>
    rw [follows.position] at beyond
    rw [getD_behind (Nat.le_of_not_lt beyond)]

theorem Follows.push (follows : Follows s ed) (cmdHistory : Nat → Nat → UInt8) {history : List (List UInt8)}
    (lines : history.length ≤ finshHistoryLines)
    (row : ∀ index i, index < history.length → i < finshCmdSize → cmdHistory index i = (history.getD index []).getD i 0)
    (entry : ∀ text ∈ history, text ∈ ed.history ∨ text = ed.line.text) :
    Follows { s with cmdHistory := cmdHistory, historyCount := history.length, currentHistory := history.length }
      { ed with history := history, recent := history.length } :=
  { follows with
    count := rfl
    lines := lines
    current := rfl
    recent := Nat.le_refl _
    row := fun less under => row _ _ less under
    entry := fun {text} inside => by
      rcases entry text inside with old | same
      · exact follows.entry old
      · rw [same]
        exact ⟨follows.noNul, follows.short⟩ }

theorem getD_concat (history : List (List UInt8)) (text : List UInt8) (index : Nat) :
    (history ++ [text]).getD index [] = if index = history.length then text else history.getD index [] := by
  rw [List.getD_eq_getElem?_getD, List.getD_eq_getElem?_getD, List.getElem?_append]
  by_cases less : index < history.length
  · rw [if_pos less, if_neg (Nat.ne_of_lt less)]
  · rw [if_neg less]
    by_cases last : index = history.length
    · rw [if_pos last, last, Nat.sub_self]
      rfl
    · rw [if_neg last, List.getElem?_eq_none (by rw [List.length_singleton]; omega), List.getElem?_eq_none (by omega)]

theorem push_follows (follows : Follows s ed) : Follows s.shellPushHistory
    { ed with
      history := remember finshHistoryLines ed.history ed.line.text
      recent := (remember finshHistoryLines ed.history ed.line.text).length } := by
  have still : Follows { s with currentHistory := s.historyCount } { ed with recent := ed.history.length } :=
    { follows with current := follows.count, recent := Nat.le_refl _ }
  have size : finshHistoryLines = 5 := rfl
  have lines := follows.lines
  have count := follows.count
  unfold Shell.shellPushHistory remember
  dsimp only
  by_cases empty : ed.line.text = []
  · rw [if_neg (not_not_intro (follows.position.trans (List.length_eq_zero_iff.mpr empty))), if_pos (Or.inl empty)]
    exact still
  rw [if_pos (fun zero => empty (List.length_eq_zero_iff.mp (follows.position.symm.trans zero)))]
  by_cases full : finshHistoryLines ≤ s.historyCount
  · have whole : ed.history.length = finshHistoryLines := by omega
    have some : ed.history ≠ [] := fun none => by
      rw [none] at whole
      cases whole
    have same := sameLast_iff follows some
    rw [whole] at same
    rw [if_pos full]
    by_cases again : s.sameLine (finshHistoryLines - 1)
    · rw [if_pos again, if_pos (Or.inr (same.mp again))]
      exact still
    · rw [if_neg again, if_neg (fun either => either.elim empty (mt same.mpr again)), if_pos (by omega)]
      have length : (ed.history.tail ++ [ed.line.text]).length = finshHistoryLines := by
        rw [List.length_append, List.length_tail, List.length_singleton]
        omega
      have pushed := follows.push
        (Shell.copyLine { s with cmdHistory := Shell.moveHistory s.cmdHistory (finshHistoryLines - 1) } (finshHistoryLines - 1))
        (Nat.le_of_eq length) (fun index i less under => ?_) fun text inside => ?_
      · rw [length] at pushed ⊢
        exact pushed
      · rw [Shell.copyLine]
        have tail : ed.history.tail.length = finshHistoryLines - 1 := by rw [List.length_tail, whole]
        rw [getD_concat, tail]
        by_cases last : index = finshHistoryLines - 1
        · rw [last, update_self, copyLine_own follows, if_pos rfl]
        · rw [update_of_ne last, if_neg last]
          have moved : ed.history.tail.getD index [] = ed.history.getD (index + 1) [] := by
            rw [List.getD_eq_getElem?_getD, List.getD_eq_getElem?_getD, List.getElem?_tail]
          rw [List.length_append, List.length_singleton] at less
          dsimp only
          rw [moveHistory_eq _ _ _ _ under, if_pos (by omega), follows.row (by omega) under, moved]
      · rcases List.mem_append.mp inside with old | new
        · exact Or.inl (List.mem_of_mem_tail old)
        · exact Or.inr (List.mem_singleton.mp new)
  · have few : ¬finshHistoryLines ≤ ed.history.length := by omega
    rw [if_neg full, if_neg few]
    by_cases new : s.historyCount = 0 ∨ ¬s.sameLine (s.historyCount - 1)
    · have other : ¬(ed.line.text = [] ∨ ed.history.getLast? = some ed.line.text) := by
        refine fun either => either.elim empty fun last => ?_
        have some : ed.history ≠ [] := fun none => by
          rw [none] at last
          cases last
        rw [count] at new
        rcases new with zero | apart
        · exact some (List.length_eq_zero_iff.mp zero)
        · exact apart ((sameLast_iff follows some).mpr last)
      have length : u16 (s.historyCount + 1) = (ed.history ++ [ed.line.text]).length := by
        rw [u16_small (by omega), count, List.length_append, List.length_singleton]
      rw [if_pos new, if_neg other, length]
      refine follows.push (s.copyLine s.historyCount) (by rw [List.length_append, List.length_singleton]; omega)
        (fun index i less under => ?_) fun text inside => ?_
      · rw [List.length_append, List.length_singleton] at less
        rw [Shell.copyLine, getD_concat, count]
        by_cases last : index = ed.history.length
        · rw [last, update_self, copyLine_own follows, if_pos rfl]
        · rw [update_of_ne last, if_neg last, follows.row (by omega) under]
      · rcases List.mem_append.mp inside with old | new
        · exact Or.inl old
        · exact Or.inr (List.mem_singleton.mp new)
    · have same : ed.history.getLast? = some ed.line.text := by
        obtain ⟨some, again⟩ := not_or.mp new
        rw [count] at some again
        exact (sameLast_iff follows fun none => some (List.length_eq_zero_iff.mpr none)).mp (Classical.not_not.mp again)
      rw [if_neg new, if_pos (Or.inr same)]
      exact still

theorem enter_follows (cmds : Commands) (follows : Follows s ed) :
    Follows (s.enterKey cmds.table).1 (ed.key cmds.table .enter).1 ∧
      some (s.enterKey cmds.table).2 = (ed.key cmds.table .enter).2 := by
  have pushed := push_follows follows
  constructor
  · have rest : Rest (EditLine.empty : EditLine UInt8).text (fun _ => 0) 0 := ⟨Nat.le_refl _, fun _ => rfl⟩
    exact pushed.line rest List.not_mem_nil (by decide)
  · have text : bytesAt s.shellPushHistory.line s.shellPushHistory.linePosition = ed.line.text := by
      rw [pushed.position]
      exact pushed.rest.bytes
    have result : mshExec cmds.table s.shellPushHistory.line s.shellPushHistory.linePosition = textExec cmds.table ed.line.text := by
      rw [pushed.position]
      exact mshExec_text cmds.table pushed.rest pushed.noNul (Nat.le_of_lt pushed.short)
    change some (MshCall.mk _ _) = some (MshCall.mk _ _)
    rw [text, result]

/-! ## Keys -/

def Shell.press (table : List (List UInt8)) (s : Shell) : Key → Option (Shell × Option MshCall)
  | .char ch => some (s.insertKey ch, none)
  | .left => some (s.leftKey, none)
  | .right => some (s.rightKey, none)
  | .up => some (s.upKey, none)
  | .down => some (s.downKey, none)
  | .backspace => s.backspaceKey.map (·, none)
  | .tab => some (s.tabKey table, none)
  | .enter => some ((s.enterKey table).1, some (s.enterKey table).2)

def Shell.pressed (table : List (List UInt8)) (s : Shell) (key : Option Key) : Option (Shell × Option MshCall) :=
  key.elim (some (s, none)) (s.press table)

theorem normalKey_eq (table : List (List UInt8)) (s : Shell) (ch : UInt8) :
    s.normalKey table ch = s.pressed table (plainKey ch) := by
  unfold Shell.normalKey plainKey
  split
  · rfl
  split
  · rfl
  split
  · rfl
  split
  · rfl
  · rfl

theorem key_eq (table : List (List UInt8)) (s : Shell) (ch : UInt8) :
    s.key table ch = { s with stat := (decode s.stat ch).1 }.pressed table (decode s.stat ch).2 := by
  obtain ⟨stat, currentHistory, historyCount, cmdHistory, line, linePosition, lineCurpos⟩ := s
  unfold Shell.key decode
  split
  · rfl
  cases stat with
  | waitNormal => exact normalKey_eq table _ ch
  | waitSpecKey =>
    dsimp only
    split
    · rfl
    · exact normalKey_eq table _ ch
  | waitFuncKey =>
    dsimp only
    split
    · rfl
    split
    · rfl
    split
    · rfl
    split
    · rfl
    · exact normalKey_eq table _ ch

theorem decode_char {stat : InputStat} {ch c : UInt8} (char : (decode stat ch).2 = some (.char c)) : c ≠ 0 := by
  have plain (is : plainKey ch = some (.char c)) : c ≠ 0 := by
    unfold plainKey at is
    split at is
    · cases is
    case isFalse other =>
      split at is
      · cases is
      split at is
      · cases is
      split at is
      · cases is
      · cases is
        exact fun zero => other (Or.inl zero)
  unfold decode at char
  split at char
  · cases char
  cases stat with
  | waitNormal => exact plain char
  | waitSpecKey =>
    dsimp only at char
    split at char
    · cases char
    · exact plain char
  | waitFuncKey =>
    dsimp only at char
    split at char
    · cases char
    split at char
    · cases char
    split at char
    · cases char
    split at char
    · cases char
    · exact plain char

theorem press_follows (cmds : Commands) (follows : Follows s ed) {key : Key}
    (room : ∀ c, key = .char c → c ≠ 0 ∧ ed.line.text.length + 1 < finshCmdSize) :
    ∃ s', s.press cmds.table key = some (s', (ed.key cmds.table key).2) ∧ Follows s' (ed.key cmds.table key).1 := by
  cases key with
  | char ch =>
    obtain ⟨some, room⟩ := room ch rfl
    rw [Editor.key, if_pos room]
    exact ⟨_, rfl, insert_follows follows some room⟩
  | left => exact ⟨_, rfl, left_follows follows⟩
  | right => exact ⟨_, rfl, right_follows follows⟩
  | up =>
    have none : (ed.key cmds.table .up).2 = none := by
      rw [Editor.key]
      split <;> rfl
    rw [none]
    exact ⟨_, rfl, up_follows cmds.table follows⟩
  | down =>
    have none : (ed.key cmds.table .down).2 = none := by
      rw [Editor.key]
      split
      · rfl
      · split <;> rfl
    rw [none]
    exact ⟨_, rfl, down_follows cmds.table follows⟩
  | backspace =>
    obtain ⟨s', done, follows⟩ := backspace_follows follows
    exact ⟨s', congrArg (Option.map (·, none)) done, follows⟩
  | tab =>
    have none : (ed.key cmds.table .tab).2 = none := by
      rw [Editor.key]
      split <;> rfl
    rw [none]
    exact ⟨_, rfl, tab_follows cmds follows⟩
  | enter =>
    obtain ⟨follows, same⟩ := enter_follows cmds follows
    rw [← same]
    exact ⟨_, rfl, follows⟩

end keys

/-! ## Runs -/

structure Session.Inv (w : Session) : Prop where
  follows : Follows w.shell w.editor
  commands : w.executed = w.expected

/-- The cursor is in the line, the line is the text of the editor and ends with a NUL, and the commands are those that
the editor has given. -/
structure Session.Sound (w : Session) : Prop where
  cursor : w.shell.lineCurpos ≤ w.shell.linePosition
  inside : w.shell.linePosition ≤ finshCmdSize
  nul : w.shell.line w.shell.linePosition = 0
  text : bytesAt w.shell.line w.shell.linePosition = w.editor.line.text
  curpos : w.shell.lineCurpos = w.editor.line.cursor
  commands : w.executed = w.expected

def Session.Allowed (w : Session) (ch : UInt8) : Prop :=
  ∀ c, (decode w.shell.stat ch).2 = some (.char c) → w.shell.linePosition + 1 < finshCmdSize

theorem Session.Inv.sound {w : Session} (inv : w.Inv) : w.Sound := by
  obtain ⟨follows, commands⟩ := inv
  have rest := follows.rest
  have inside := w.editor.line.inside
  refine ⟨?_, ?_, ?_, ?_, follows.curpos, commands⟩
  · rw [follows.curpos, follows.position]
    exact inside
  · rw [follows.position]
    exact Nat.le_of_lt follows.short
  · rw [follows.position]
    exact rest.holds.nul
  · rw [follows.position]
    exact rest.bytes

theorem step_inv (cmds : Commands) {w w' : Session} {ch : UInt8} (inv : w.Inv) (allowed : w.Allowed ch)
    (step : w.Step cmds ch w') : w'.Inv := by
  obtain ⟨⟨shell, call⟩, pressed, rfl⟩ := Option.map_eq_some_iff.mp step
  obtain ⟨follows, commands⟩ := inv
  rw [key_eq] at pressed
  unfold Session.Allowed at allowed
  have char (c : UInt8) (is : (decode w.shell.stat ch).2 = some (.char c)) : c ≠ 0 := decode_char is
  unfold Editor.input
  rw [← follows.stat]
  generalize decode w.shell.stat ch = decoded at pressed allowed char ⊢
  obtain ⟨stat, key⟩ := decoded
  dsimp only at pressed allowed char ⊢
  have moved : Follows { w.shell with stat := stat } { w.editor with stat := stat } := { follows with stat := rfl }
  cases key with
  | none =>
    cases pressed
    exact ⟨moved, congrArg (· ++ []) commands⟩
  | some key =>
    have room (c : UInt8) (is : key = .char c) : c ≠ 0 ∧ w.editor.line.text.length + 1 < finshCmdSize := by
      have less := allowed c (congrArg some is)
      rw [follows.position] at less
      exact ⟨char c (congrArg some is), less⟩
    obtain ⟨s', done, follows'⟩ := press_follows cmds moved room
    obtain ⟨rfl, rfl⟩ := Prod.mk.inj (Option.some.inj (pressed.symm.trans done))
    exact ⟨follows', congrArg (· ++ _) commands⟩

theorem insertKey_full {s : Shell} {ed : Editor} (follows : Follows s ed) {ch : UInt8} (some : ch ≠ 0)
    (full : ¬s.linePosition + 1 < finshCmdSize) : (s.insertKey ch).line (s.insertKey ch).linePosition ≠ 0 := by
  have size : finshCmdSize = 80 := rfl
  have short := follows.short
  rw [follows.position] at full
  have first : s.line 0 ≠ 0 := by
    have less : 0 < ed.line.text.length := by omega
    rw [follows.rest.byte (Nat.le_refl _), List.getD_eq_getElem?_getD, List.getElem?_eq_getElem less, Option.getD_some]
    exact fun zero => follows.noNul (zero ▸ List.getElem_mem less)
  have position : (if finshCmdSize ≤ s.linePosition then 0 else s.linePosition) = ed.line.text.length := by
    rw [follows.position, if_neg (by omega)]
  unfold Shell.insertKey
  dsimp only
  rw [position, u16_small (by omega), if_pos (by omega)]
  dsimp only
  split
  · by_cases start : s.lineCurpos = 0
    · rw [start, update_self]
      exact some
    · rw [update_of_ne (Ne.symm start), memmove, if_neg (by omega)]
      exact first
  · rw [update_of_ne (by omega)]
    exact first

theorem step_needs (cmds : Commands) {w w' : Session} {ch : UInt8} (inv : w.Inv) (step : w.Step cmds ch w')
    (sound : w'.Sound) : w.Allowed ch := by
  intro c char
  refine Classical.byContradiction fun full => ?_
  obtain ⟨⟨shell, call⟩, pressed, rfl⟩ := Option.map_eq_some_iff.mp step
  have some := decode_char char
  rw [key_eq, char] at pressed
  cases pressed
  have moved : Follows { w.shell with stat := (decode w.shell.stat ch).1 } { w.editor with stat := (decode w.shell.stat ch).1 } :=
    { inv.follows with stat := rfl }
  exact insertKey_full moved some full sound.nul

theorem line_edited (cmds : Commands) (input : List UInt8) :
    Throughout (Session.Step cmds) Session.init input Session.Sound ↔
      EachStep (Session.Step cmds) Session.init input Session.Allowed :=
  throughout_iff_eachStep (fun _ inv => inv.sound) (fun _ _ _ inv allowed step => step_inv cmds inv allowed step)
    (fun _ _ _ inv step sound => step_needs cmds inv step sound) ⟨init_follows, rfl⟩

/-- A character 80 times. -/
def longLine : List UInt8 := List.replicate 80 'a'.toUInt8

def noCommands : Commands := ⟨[], fun inside => absurd inside List.not_mem_nil, fun inside => absurd inside List.not_mem_nil⟩

theorem line_edited_long : ¬Throughout (Session.Step noCommands) Session.init longLine Session.Sound := by
  intro sound
  have run := run_of_foldlM (Option.some_get
    (show (longLine.foldlM (Session.step noCommands) Session.init).isSome = true by decide +kernel)).symm
  exact absurd (sound longLine _ (List.prefix_refl _) run).nul (by decide +kernel)

end RtThread.Finsh
