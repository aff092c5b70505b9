import RtThread.At.Server
import RtThread.Lib.Throughout

/-! What the AT server is for: lines, edited and ended, and each one dispatched to its command. Which bytes the parser
takes as it should. -/

set_option autoImplicit false
namespace RtThread.At
open Lib

/-! ## Lines as they are typed -/

structure AtLines where
  running : Bool
  line : List UInt8
  deriving DecidableEq

/-- The line with this byte, where the byte is a character of it: no escape, no editing key, no byte that is skipped -/
def AtLines.typed (l : AtLines) (byte : AtByte) : Option (List UInt8) :=
  if l.running = false ∨ byte.ch = escKey then none
  else if byte.echoMode ∧ (byte.ch = backspaceKey ∨ byte.ch = delectKey ∨ byte.ch = cmdNull) then none
  else some (l.line ++ [byte.ch])

section lines
variable (c : AtServerConfig)

def Ended (line : List UInt8) : Prop := line.length < c.recvBuffLen ∧ c.endMark <:+ line

instance (line : List UInt8) : Decidable (Ended c line) := inferInstanceAs (Decidable (_ ∧ _))

def dispatch (line : List UInt8) : List AtEffect :=
  match line.findIdx? endsName with
  | none => [.result .cmdErr]
  | some len =>
    match atFindCmd c (line.take len) with
    | none => [.result .cmdErr]
    | some n => (c.cmdTable[n]?).elim [] fun cmd => .process n (line.drop len) :: atCmdProcess c n cmd (line.drop len)

def AtLines.feed (l : AtLines) (byte : AtByte) : AtLines × List AtEffect :=
  match l.typed byte with
  | some line => if Ended c line then ({ l with line := [] }, dispatch c line) else ({ l with line }, [])
  | none =>
    ({ running := l.running && byte.ch ≠ escKey
       line := if l.running ∧ (byte.ch = backspaceKey ∨ byte.ch = delectKey) then l.line.dropLast else l.line }, [])

/-! ## The run of the parser beside them -/

def AtEffect.isEcho : AtEffect → Bool
  | .echo _ => true
  | _ => false

/-- The parser, `none` from an access outside its buffers on, and the lines: what each of them has dispatched -/
structure AtRun where
  server : Option AtServer
  handled : List AtEffect
  lines : AtLines
  asked : List AtEffect

def AtRun.receive (s : AtRun) (byte : AtByte) : AtRun :=
  let done := s.server.bind fun server => serverParser c server byte
  { server := done.map Prod.fst
    handled := s.handled ++ (done.elim [] Prod.snd).filter (!·.isEcho)
    lines := (s.lines.feed c byte).1
    asked := s.asked ++ (s.lines.feed c byte).2 }

def AtRun.Sound (s : AtRun) : Prop := s.server.isSome ∧ s.handled = s.asked

/-- The server as it is set up; `last_ch` is what the stack holds. -/
def AtRun.start (lastCh : UInt8) : AtRun where
  server := some
    { recvBuffer := fun _ => 0, curRecvLen := 0, lastCh, curCmdName := fun _ => 0, running := true }
  handled := []
  lines := ⟨true, []⟩
  asked := []

def Fits (line : List UInt8) : Prop :=
  (line.length < c.recvBuffLen ∨ line.length = c.recvBuffLen ∧ 0 ∈ line) ∧
  (Ended c line → 0 ∉ line ∧ ∀ len, line.findIdx? endsName = some len → len < cmdNameLen)

def AtRun.Room (s : AtRun) (byte : AtByte) : Prop := ∀ line, s.lines.typed byte = some line → Fits c line

end lines

variable {c : AtServerConfig} {server : AtServer} {l : AtLines} {line : List UInt8} {ch : UInt8} {byte : AtByte}

/-! ## Strings in a buffer -/

theorem stringAt_eq {buffer : Nat → UInt8} {text : List UInt8} {left i : Nat} (short : text.length < left)
    (noNul : 0 ∉ text) (holds : ∀ j ≤ text.length, buffer (i + j) = text.getD j 0) :
    stringAt buffer left i = some text := by
  induction text generalizing left i with
  | nil =>
    obtain ⟨left, rfl⟩ : ∃ n, left = n + 1 := ⟨left - 1, by simp at short; omega⟩
    have nul : buffer i = 0 := by simpa using holds 0
    rw [stringAt, if_pos nul]
  | cons first rest ih =>
    obtain ⟨left, rfl⟩ : ∃ n, left = n + 1 := ⟨left - 1, by simp at short; omega⟩
    have here : buffer i = first := by simpa using holds 0
    have more : stringAt buffer left (i + 1) = some rest := by
      refine ih (by simpa using short) (fun inside => noNul (List.mem_cons_of_mem _ inside)) fun j small => ?_
      have next := holds (j + 1) (by simpa using small)
      rw [show i + (j + 1) = i + 1 + j by omega] at next
      simpa using next
    have notNul : first ≠ 0 := fun isNul => noNul (isNul ▸ List.mem_cons_self)
    rw [stringAt, here, if_neg notNul, more]
    rfl

theorem stringAt_full {buffer : Nat → UInt8} {left i : Nat} (full : ∀ j < left, buffer (i + j) ≠ 0) :
    stringAt buffer left i = none := by
  induction left generalizing i with
  | zero => rfl
  | succ left ih =>
    have notNul : buffer i ≠ 0 := full 0 (by omega)
    have more : stringAt buffer left (i + 1) = none := by
      refine ih fun j small => ?_
      rw [show i + 1 + j = i + (j + 1) by omega]
      exact full _ (by omega)
    rw [stringAt, if_neg notNul, more]
    rfl

theorem stringAt_cut {buffer : Nat → UInt8} (left i : Nat) (short : line.length ≤ left) (nul : 0 ∈ line)
    (holds : ∀ j < left, buffer (i + j) = line.getD j 0) :
    ∃ text, stringAt buffer left i = some text ∧ text ++ [0] <+: line := by
  obtain ⟨front, back, rfl, noNul⟩ := List.eq_append_cons_of_mem nul
  refine ⟨front, stringAt_eq (by simp at short; omega) noNul fun j small => ?_, by simp⟩
  rw [holds j (by simp at short; omega)]
  rcases Nat.lt_or_eq_of_le small with inside | rfl
  · simp [List.getD_eq_getElem?_getD, List.getElem?_append_left inside]
  · simp [List.getD_eq_getElem?_getD]

/-! ## The parser beside the lines -/

theorem AtServerConfig.mark_ne_nil (c : AtServerConfig) : c.endMark ≠ [] := by
  rcases c.isMark with mark | mark | mark <;> simp [mark]

theorem mark_at_end (before : ¬c.endMark <:+: line) : c.endMark <:+: line ++ [ch] ↔ c.endMark <:+ line ++ [ch] := by
  rw [List.infix_concat_iff]
  exact or_iff_left before

structure Types (c : AtServerConfig) (server : AtServer) (l : AtLines) : Prop where
  running : server.running = l.running
  buffer : ∀ i < c.recvBuffLen, server.recvBuffer i = l.line.getD i 0
  len : server.curRecvLen = l.line.length
  unended : l.line.length < c.recvBuffLen ∧ ¬c.endMark <:+: l.line ∨
    l.line.length = c.recvBuffLen ∧ 0 ∈ l.line ∧ ¬c.endMark <:+: l.line.dropLast

theorem Types.inside (types : Types c server l) : l.line.length ≤ c.recvBuffLen := by
  rcases types.unended with ⟨short, _⟩ | ⟨full, _⟩ <;> omega

theorem Types.rub (types : Types c server l) : l.line.dropLast.length < c.recvBuffLen ∧ ¬c.endMark <:+: l.line.dropLast := by
  have room := c.room
  rcases types.unended with ⟨short, unmarked⟩ | ⟨full, _, unmarked⟩
  · refine ⟨by simp; omega, fun marked => unmarked (marked.trans (List.dropLast_prefix _).isInfix)⟩
  · exact ⟨by simp; omega, unmarked⟩

theorem atFindCmd_lt {name : List UInt8} {n : Nat} (found : atFindCmd c name = some n) : n < c.cmdTable.length := by
  obtain ⟨short, _⟩ := List.findIdx?_eq_some_iff_getElem.mp found
  exact short

theorem atCmdGetName_eq (old : Nat → UInt8) (noNul : 0 ∉ line) {len : Nat} (named : line.findIdx? endsName = some len)
    (fits : len < cmdNameLen) :
    ∃ name, atCmdGetName line old = some (some name) ∧ stringAt name cmdNameLen 0 = some (line.take len) := by
  obtain ⟨inside, _⟩ := List.findIdx?_eq_some_iff_getElem.mp named
  refine ⟨fun i => if i < len then line.getD i 0 else if i = len then 0 else old i, ?_, ?_⟩
  · simp only [atCmdGetName, named, if_pos fits]
  · refine stringAt_eq (by simp; omega) (fun nul => noNul (List.mem_of_mem_take nul)) fun j small => ?_
    have atMost : j ≤ len := by simpa [Nat.min_eq_left inside.le] using small
    rcases Nat.lt_or_eq_of_le atMost with before | rfl
    · simp [before, List.getD_eq_getElem?_getD]
    · simp [List.getD_eq_getElem?_getD, List.getElem?_take]

theorem handleLine_eq (holds : ∀ i < c.recvBuffLen, server.recvBuffer i = line.getD i 0) (short : line.length < c.recvBuffLen)
    (noNul : 0 ∉ line) (nameFits : ∀ len, line.findIdx? endsName = some len → len < cmdNameLen) :
    ∃ next, handleLine c server line = some (next, dispatch c line) ∧ next.running = server.running ∧
      next.curRecvLen = 0 ∧ ∀ i < c.recvBuffLen, next.recvBuffer i = 0 := by
  unfold handleLine dispatch
  cases named : line.findIdx? endsName with
  | none =>
    have noName : atCmdGetName line server.curCmdName = some none := by simp only [atCmdGetName, named]
    simp only [noName]
    exact ⟨_, rfl, rfl, rfl, fun i inside => if_pos inside⟩
  | some len =>
    obtain ⟨inside, _⟩ := List.findIdx?_eq_some_iff_getElem.mp named
    obtain ⟨name, isName, read⟩ := atCmdGetName_eq server.curCmdName noNul named (nameFits len named)
    have isArgs : stringAt server.recvBuffer (c.recvBuffLen - len) len = some (line.drop len) := by
      refine stringAt_eq (by simp; omega) (fun nul => noNul (List.mem_of_mem_drop nul)) fun j small => ?_
      rw [holds _ (by simp at small; omega)]
      simp [List.getD_eq_getElem?_getD]
    simp only [isName, read]
    cases found : atFindCmd c (line.take len) with
    | none => exact ⟨_, rfl, rfl, rfl, fun i inside => if_pos inside⟩
    | some n =>
      have length : (line.take len).length = len := by simp [inside.le]
      obtain ⟨cmd, isCmd⟩ : ∃ cmd, c.cmdTable[n]? = some cmd := ⟨_, List.getElem?_eq_getElem (atFindCmd_lt found)⟩
      simp only [length, isArgs, isCmd]
      exact ⟨_, rfl, rfl, rfl, fun i inside => if_pos inside⟩

theorem handleLine_overrun {len : Nat} (named : line.findIdx? endsName = some len) (tooLong : cmdNameLen ≤ len) :
    handleLine c server line = none := by
  have outside : atCmdGetName line server.curCmdName = none := by
    simp only [atCmdGetName, named, if_neg (Nat.not_lt.mpr tooLong)]
  simp only [handleLine, outside]

theorem takeByte_stored (ch : UInt8) (types : Types c server l) (short : l.line.length < c.recvBuffLen) :
    ∃ next, next.running = server.running ∧ next.curRecvLen = l.line.length + 1 ∧
      (∀ i < c.recvBuffLen, next.recvBuffer i = (l.line ++ [ch]).getD i 0) ∧
      takeByte c server ch = match stringAt next.recvBuffer c.recvBuffLen 0 with
        | none => none
        | some text => if c.endMark <:+: text then handleLine c next text else some (next, []) := by
  have stored : storeByte c.recvBuffLen server.recvBuffer server.curRecvLen ch =
      some (Function.update server.recvBuffer l.line.length ch) := by
    rw [types.len]
    exact if_pos short
  let next : AtServer := { server with
    recvBuffer := Function.update server.recvBuffer l.line.length ch
    curRecvLen := server.curRecvLen + 1
    lastCh := ch }
  refine ⟨next, rfl, congrArg (· + 1) types.len, fun i inside => ?_, ?_⟩
  · change Function.update server.recvBuffer l.line.length ch i = _
    by_cases last : i = l.line.length
    · subst last
      simp [List.getD_eq_getElem?_getD]
    · rw [Function.update_of_ne last, types.buffer i inside]
      rcases Nat.lt_or_gt_of_ne last with within | past
      · simp [List.getD_eq_getElem?_getD, List.getElem?_append_left within]
      · have outside : (l.line ++ [ch]).length ≤ i := by rw [List.length_append]; exact past
        rw [List.getD_eq_getElem?_getD, List.getD_eq_getElem?_getD, List.getElem?_eq_none past.le,
          List.getElem?_eq_none outside]
  · simp only [takeByte, stored]
    rfl

theorem takeByte_outside (types : Types c server l) (full : c.recvBuffLen ≤ l.line.length) : takeByte c server ch = none := by
  have outside : storeByte c.recvBuffLen server.recvBuffer server.curRecvLen ch = none := by
    rw [types.len]
    exact if_neg (Nat.not_lt.mpr full)
  simp only [takeByte, outside]

theorem unmarked_cut {text : List UInt8} (before : ¬c.endMark <:+: l.line) (inFront : text ++ [0] <+: l.line ++ [ch]) :
    ¬c.endMark <:+: text := by
  intro marked
  obtain ⟨back, isLine⟩ := inFront
  have inside : text <+: l.line := by
    rcases List.eq_nil_or_concat back with rfl | ⟨front, last, rfl⟩
    · rw [List.append_nil] at isLine
      exact List.append_inj_left' isLine rfl ▸ List.prefix_rfl
    · rw [List.concat_eq_append, ← List.append_assoc] at isLine
      have same := List.append_inj_left' isLine rfl
      exact ⟨[0] ++ front, by rw [← same, List.append_assoc]⟩
  exact before (marked.trans inside.isInfix)

theorem takeByte_fits (types : Types c server l) (fits : Fits c (l.line ++ [ch])) :
    ∃ next out, takeByte c server ch = some (next, out) ∧
      if Ended c (l.line ++ [ch]) then out = dispatch c (l.line ++ [ch]) ∧ Types c next { l with line := [] }
      else out = [] ∧ Types c next { l with line := l.line ++ [ch] } := by
  obtain ⟨room, whole⟩ := fits
  rw [List.length_append, List.length_singleton] at room
  have short : l.line.length < c.recvBuffLen := by omega
  have before : ¬c.endMark <:+: l.line := by
    rcases types.unended with ⟨_, unmarked⟩ | ⟨full, _⟩
    · exact unmarked
    · omega
  obtain ⟨next, running, len, holds, taken⟩ := takeByte_stored ch types short
  by_cases nul : 0 ∈ l.line ++ [ch]
  · obtain ⟨text, read, inFront⟩ := stringAt_cut c.recvBuffLen 0 (by simp; omega) nul (by simpa using holds)
    have notEnded : ¬Ended c (l.line ++ [ch]) := fun ended => (whole ended).1 nul
    rw [read] at taken
    refine ⟨next, [], taken.trans (if_neg (unmarked_cut before inFront)), ?_⟩
    rw [if_neg notEnded]
    refine ⟨rfl, running.trans types.running, holds, by simp [len], ?_⟩
    by_cases full : l.line.length + 1 = c.recvBuffLen
    · exact Or.inr ⟨by simpa using full, nul, by simpa using before⟩
    · have within : (l.line ++ [ch]).length < c.recvBuffLen := by simp; omega
      refine Or.inl ⟨within, fun marked => notEnded ⟨within, (mark_at_end before).mp marked⟩⟩
  · have within : (l.line ++ [ch]).length < c.recvBuffLen := by
      rw [List.length_append, List.length_singleton]
      rcases room with fits | ⟨_, inside⟩
      · exact fits
      · exact absurd inside nul
    have read : stringAt next.recvBuffer c.recvBuffLen 0 = some (l.line ++ [ch]) :=
      stringAt_eq within nul fun j small => by rw [Nat.zero_add]; exact holds j (by omega)
    rw [read] at taken
    by_cases ended : Ended c (l.line ++ [ch])
    · obtain ⟨after, handled, stays, empty, zeros⟩ := handleLine_eq holds within nul (whole ended).2
      refine ⟨after, _, (taken.trans (if_pos ended.2.isInfix)).trans handled, ?_⟩
      rw [if_pos ended]
      refine ⟨rfl, (stays.trans running).trans types.running, fun i inside => by simpa using zeros i inside, empty, ?_⟩
      exact Or.inl ⟨c.room, fun marked => c.mark_ne_nil (List.infix_nil.mp marked)⟩
    · have unmarked : ¬c.endMark <:+: l.line ++ [ch] := fun marked => ended ⟨within, (mark_at_end before).mp marked⟩
      refine ⟨next, [], taken.trans (if_neg unmarked), ?_⟩
      rw [if_neg ended]
      exact ⟨rfl, running.trans types.running, holds, by simp [len], Or.inl ⟨within, unmarked⟩⟩

theorem takeByte_not_fits (ch : UInt8) (types : Types c server l) (fits : ¬Fits c (l.line ++ [ch])) :
    takeByte c server ch = none ∨ Ended c (l.line ++ [ch]) ∧ ∃ next, takeByte c server ch = some (next, []) := by
  by_cases short : l.line.length < c.recvBuffLen
  · have before : ¬c.endMark <:+: l.line := by
      rcases types.unended with ⟨_, unmarked⟩ | ⟨full, _⟩
      · exact unmarked
      · omega
    obtain ⟨next, running, len, holds, taken⟩ := takeByte_stored ch types short
    by_cases nul : 0 ∈ l.line ++ [ch]
    · obtain ⟨text, read, inFront⟩ := stringAt_cut c.recvBuffLen 0 (by simp; omega) nul (by simpa using holds)
      rw [read] at taken
      have ended : Ended c (l.line ++ [ch]) := by
        by_contra notEnded
        refine fits ⟨?_, fun ended => absurd ended notEnded⟩
        rw [List.length_append, List.length_singleton]
        by_cases full : l.line.length + 1 = c.recvBuffLen
        · exact Or.inr ⟨full, nul⟩
        · exact Or.inl (by omega)
      exact Or.inr ⟨ended, next, taken.trans (if_neg (unmarked_cut before inFront))⟩
    · left
      by_cases within : (l.line ++ [ch]).length < c.recvBuffLen
      · have ended : Ended c (l.line ++ [ch]) := by
          by_contra notEnded
          exact fits ⟨Or.inl within, fun ended => absurd ended notEnded⟩
        have tooLong : ∃ len, (l.line ++ [ch]).findIdx? endsName = some len ∧ cmdNameLen ≤ len := by
          by_contra noneIs
          push Not at noneIs
          exact fits ⟨Or.inl within, fun _ => ⟨nul, noneIs⟩⟩
        obtain ⟨n, named, past⟩ := tooLong
        have read : stringAt next.recvBuffer c.recvBuffLen 0 = some (l.line ++ [ch]) :=
          stringAt_eq within nul fun j small => by rw [Nat.zero_add]; exact holds j (by omega)
        rw [read] at taken
        exact (taken.trans (if_pos ended.2.isInfix)).trans (handleLine_overrun named past)
      · have unread : stringAt next.recvBuffer c.recvBuffLen 0 = none := by
          refine stringAt_full fun j small => ?_
          have inside : j < (l.line ++ [ch]).length := by omega
          rw [Nat.zero_add, holds j small, List.getD_eq_getElem?_getD, List.getElem?_eq_getElem inside, Option.getD_some]
          exact fun isNul => nul (isNul ▸ List.getElem_mem inside)
        rw [unread] at taken
        exact taken
  · exact Or.inl (takeByte_outside types (Nat.not_lt.mp short))

/-! ## One byte -/

theorem serverParser_typed (running : server.running = l.running) (typed : l.typed byte = some line) :
    line = l.line ++ [byte.ch] ∧ ∃ echo : List AtEffect, echo.all AtEffect.isEcho ∧
      serverParser c server byte = (takeByte c server byte.ch).map fun done => (done.1, echo ++ done.2) := by
  unfold AtLines.typed at typed
  split at typed
  case isTrue => cases typed
  case isFalse goes =>
    split at typed
    case isTrue => cases typed
    case isFalse isText =>
      cases typed
      push Not at goes
      have on : ¬server.running = false := by rw [running]; exact goes.1
      refine ⟨rfl, ?_⟩
      have silent : takeByte c server byte.ch = (takeByte c server byte.ch).map fun done => (done.1, [] ++ done.2) := by
        simp
      simp only [serverParser, if_neg on, if_neg goes.2]
      by_cases echoes : byte.echoMode = true
      · have isPlain : ¬(byte.ch = backspaceKey ∨ byte.ch = delectKey) ∧ byte.ch ≠ cmdNull := by
          simp only [echoes, true_and, not_or] at isText
          exact ⟨not_or.mpr ⟨isText.1, isText.2.1⟩, isText.2.2⟩
        simp only [if_pos echoes, if_neg isPlain.1, if_neg isPlain.2]
        split
        · exact ⟨[.echo [cmdCr, cmdLf]], rfl, rfl⟩
        · split
          · exact ⟨[], rfl, silent⟩
          · exact ⟨[.echo [byte.ch]], rfl, rfl⟩
      · simp only [if_neg echoes]
        exact ⟨[], rfl, silent⟩

theorem Types.withLine (types : Types c server l) {line : List UInt8} {running : Bool} (same : line = l.line)
    (next : server.running = running) : Types c server ⟨running, line⟩ := by
  subst same
  exact ⟨next, types.buffer, types.len, types.unended⟩

theorem Types.rubbed (types : Types c server l) (notNil : l.line ≠ []) :
    Types c { server with
      recvBuffer := Function.update server.recvBuffer (server.curRecvLen - 1) 0
      curRecvLen := server.curRecvLen - 1 } { l with line := l.line.dropLast } := by
  have length := List.length_pos_iff.mpr notNil
  refine ⟨types.running, fun i inside => ?_, ?_, Or.inl types.rub⟩
  · change Function.update server.recvBuffer (server.curRecvLen - 1) 0 i = _
    rw [types.len]
    by_cases last : i = l.line.length - 1
    · subst last
      simp [List.getD_eq_getElem?_getD]
    · rw [Function.update_of_ne last, types.buffer i inside]
      simp only [List.getD_eq_getElem?_getD, List.getElem?_dropLast]
      split
      · rfl
      · rw [List.getElem?_eq_none (by omega)]
  · change server.curRecvLen - 1 = _
    rw [types.len, List.length_dropLast]

theorem serverParser_untyped (types : Types c server l) (untyped : l.typed byte = none) :
    ∃ next echo, serverParser c server byte = some (next, echo) ∧ echo.all AtEffect.isEcho ∧
      Types c next (l.feed c byte).1 := by
  have feeds : (l.feed c byte).1 =
      { running := l.running && byte.ch ≠ escKey
        line := if l.running ∧ (byte.ch = backspaceKey ∨ byte.ch = delectKey) then l.line.dropLast else l.line } := by
    simp only [AtLines.feed, untyped]
  rw [feeds]
  unfold serverParser
  by_cases stopped : server.running = false
  · refine ⟨server, [], if_pos stopped, rfl, types.withLine ?_ ?_⟩
    · rw [types.running] at stopped
      simp [stopped]
    · rw [stopped, ← types.running, stopped]
      rfl
  have on : l.running = true := by rw [← types.running]; simpa using stopped
  simp only [if_neg stopped, on, Bool.true_and, true_and]
  by_cases escape : byte.ch = escKey
  · refine ⟨{ server with running := false }, [], if_pos escape, rfl, ?_⟩
    have noKey : ¬(byte.ch = backspaceKey ∨ byte.ch = delectKey) := by rw [escape]; decide
    rw [if_neg noKey]
    exact ⟨by simp [escape], types.buffer, types.len, types.unended⟩
  have echoes : byte.echoMode = true ∧ (byte.ch = backspaceKey ∨ byte.ch = delectKey ∨ byte.ch = cmdNull) := by
    unfold AtLines.typed at untyped
    rw [if_neg (by simp [on, escape])] at untyped
    by_contra plain
    rw [if_neg plain] at untyped
    cases untyped
  have stays : server.running = decide (byte.ch ≠ escKey) := by
    rw [types.running, on]
    simp [escape]
  simp only [if_neg escape, if_pos echoes.1]
  by_cases key : byte.ch = backspaceKey ∨ byte.ch = delectKey
  · have noEnd : byte.ch ≠ cmdCr ∧ byte.ch ≠ cmdLf := by
      rcases key with isKey | isKey <;> rw [isKey] <;> decide
    simp only [noEnd, false_and, or_self, if_false, if_pos key]
    by_cases isNil : l.line = []
    · have empty : server.curRecvLen = 0 := by rw [types.len, isNil]; rfl
      refine ⟨server, [], if_neg (by simp [empty]), rfl, types.withLine (by simp [isNil]) stays⟩
    · have length := List.length_pos_iff.mpr isNil
      have inside := types.inside
      have room : server.curRecvLen - 1 < c.recvBuffLen := by rw [types.len]; omega
      have rub : server.curRecvLen ≠ 0 := by rw [types.len]; omega
      simp only [if_pos rub, storeByte, if_pos room, Option.map_some]
      exact ⟨_, _, rfl, rfl, (types.rubbed isNil).withLine rfl stays⟩
  · have isNul : byte.ch = cmdNull := by
      rcases echoes.2 with isKey | isKey | isNul
      · exact absurd (Or.inl isKey) key
      · exact absurd (Or.inr isKey) key
      · exact isNul
    have noEnd : byte.ch ≠ cmdCr ∧ byte.ch ≠ cmdLf := by
      rw [isNul]
      decide
    simp only [noEnd, false_and, or_self, if_false, if_neg key, if_pos isNul]
    exact ⟨server, [], rfl, rfl, types.withLine rfl stays⟩

/-! ## Every stream of bytes -/

theorem callHandler_quiet (c : AtServerConfig) (n : Nat) (here : Bool) (handler : AtHandler) :
    ∀ effect ∈ callHandler c n here handler, effect.isEcho = false := by
  unfold callHandler
  cases here <;> simp [AtEffect.isEcho]

theorem atCmdProcess_quiet (c : AtServerConfig) (n : Nat) (cmd : AtCmd) (args : List UInt8) :
    ∀ effect ∈ atCmdProcess c n cmd args, effect.isEcho = false := by
  unfold atCmdProcess
  dsimp only
  split_ifs
  · exact callHandler_quiet c n _ _
  · exact callHandler_quiet c n _ _
  · exact callHandler_quiet c n _ _
  · simp [AtEffect.isEcho]
  · simp [AtEffect.isEcho]
  · exact callHandler_quiet c n _ _
  · simp

theorem dispatch_quiet (c : AtServerConfig) (line : List UInt8) :
    dispatch c line ≠ [] ∧ (dispatch c line).filter (!·.isEcho) = dispatch c line := by
  rw [List.filter_eq_self]
  unfold dispatch
  split
  · simp [AtEffect.isEcho]
  · split
    · simp [AtEffect.isEcho]
    · rename_i n found
      rw [List.getElem?_eq_getElem (atFindCmd_lt found)]
      refine ⟨List.cons_ne_nil _ _, fun effect inside => ?_⟩
      rcases List.mem_cons.mp inside with rfl | inside
      · rfl
      · rw [atCmdProcess_quiet c n _ _ effect inside]
        rfl

theorem filter_echo {echo : List AtEffect} (out : List AtEffect) (echoes : echo.all AtEffect.isEcho) :
    (echo ++ out).filter (!·.isEcho) = out.filter (!·.isEcho) := by
  rw [List.filter_append, List.filter_eq_nil_iff.mpr, List.nil_append]
  intro effect inside
  simp [List.all_eq_true.mp echoes effect inside]

def AtRun.Inv (c : AtServerConfig) (s : AtRun) : Prop :=
  ∃ server, s.server = some server ∧ Types c server s.lines ∧ s.handled = s.asked

theorem AtRun.Inv.start (c : AtServerConfig) (lastCh : UInt8) : (AtRun.start lastCh).Inv c := by
  refine ⟨_, rfl, ⟨rfl, fun i _ => rfl, rfl, Or.inl ⟨c.room, fun marked => ?_⟩⟩, rfl⟩
  exact c.mark_ne_nil (List.infix_nil.mp marked)

theorem AtRun.Inv.receive {s : AtRun} (inv : s.Inv c) (room : s.Room c byte) : (s.receive c byte).Inv c := by
  obtain ⟨server, here, types, same⟩ := inv
  cases typed : s.lines.typed byte with
  | none =>
    obtain ⟨next, echo, parsed, echoes, after⟩ := serverParser_untyped types typed
    have quiet : (s.lines.feed c byte).2 = [] := by simp only [AtLines.feed, typed]
    have handled := filter_echo [] echoes
    rw [List.append_nil] at handled
    refine ⟨next, by simp [AtRun.receive, here, parsed], after, ?_⟩
    simp [AtRun.receive, here, parsed, handled, quiet, same]
  | some line =>
    obtain ⟨isLine, echo, echoes, parsed⟩ := serverParser_typed types.running typed
    obtain ⟨next, out, taken, after⟩ := takeByte_fits types (isLine ▸ room line typed)
    rw [taken, Option.map_some] at parsed
    rw [← isLine] at after
    have handled := filter_echo out echoes
    by_cases ended : Ended c line
    · rw [if_pos ended] at after
      have feeds : s.lines.feed c byte = ({ s.lines with line := [] }, dispatch c line) := by
        simp only [AtLines.feed, typed, if_pos ended]
      refine ⟨next, by simp [AtRun.receive, here, parsed], ?_, ?_⟩
      · simpa [AtRun.receive, feeds] using after.2
      · rw [after.1, (dispatch_quiet c line).2] at handled
        simp [AtRun.receive, here, parsed, feeds, after.1, handled, same]
    · rw [if_neg ended] at after
      have feeds : s.lines.feed c byte = ({ s.lines with line }, []) := by
        simp only [AtLines.feed, typed, if_neg ended]
      refine ⟨next, by simp [AtRun.receive, here, parsed], ?_, ?_⟩
      · simpa [AtRun.receive, feeds] using after.2
      · rw [after.1, List.append_nil, List.filter_nil] at handled
        simp [AtRun.receive, here, parsed, feeds, after.1, handled, same]

theorem AtRun.Inv.room {s : AtRun} (inv : s.Inv c) (sound : (s.receive c byte).Sound) : s.Room c byte := by
  obtain ⟨server, here, types, same⟩ := inv
  intro line typed
  obtain ⟨isLine, echo, echoes, parsed⟩ := serverParser_typed types.running typed
  by_contra unfit
  rcases takeByte_not_fits byte.ch types (isLine ▸ unfit) with outside | ⟨ended, next, taken⟩
  · rw [outside, Option.map_none] at parsed
    have fails : (s.receive c byte).server = none := by simp [AtRun.receive, here, parsed]
    simpa [fails] using sound.1
  · rw [taken, Option.map_some] at parsed
    rw [← isLine] at ended
    have handled := filter_echo [] echoes
    rw [List.append_nil, List.filter_nil] at handled
    have feeds : (s.lines.feed c byte).2 = dispatch c line := by simp only [AtLines.feed, typed, if_pos ended]
    have lost : s.asked = s.asked ++ dispatch c line := by
      simpa [AtRun.receive, here, parsed, handled, feeds, same] using sound.2
    exact (dispatch_quiet c line).1 (List.self_eq_append_right.mp lost)

/-- The step of the run, for `Lib.Run` -/
def AtRun.Receives (c : AtServerConfig) (s : AtRun) (byte : AtByte) (s' : AtRun) : Prop := s' = s.receive c byte

/-- The parser stays inside its buffers and dispatches each line, just if every line fits as it is typed. -/
theorem server_parser_lines (c : AtServerConfig) (lastCh : UInt8) (bytes : List AtByte) :
    Throughout (AtRun.Receives c) (AtRun.start lastCh) bytes AtRun.Sound ↔
      EachStep (AtRun.Receives c) (AtRun.start lastCh) bytes (AtRun.Room c) := by
  have start : (AtRun.start lastCh).Inv c := AtRun.Inv.start c lastCh
  refine throughout_iff_eachStep (fun s inv => ?_) (fun s byte s' inv room taken => ?_)
    (fun s byte s' inv taken sound => ?_) start
  · obtain ⟨server, here, _, same⟩ := inv
    exact ⟨by simp [here], same⟩
  · cases taken
    exact inv.receive room
  · cases taken
    exact inv.room sound

theorem AtRun.run_foldl (c : AtServerConfig) (s : AtRun) (bytes : List AtByte) :
    Run (AtRun.Receives c) s bytes (bytes.foldl (AtRun.receive c) s) := by
  induction bytes generalizing s with
  | nil => exact .nil _
  | cons byte rest ih => exact Run.trans (.snoc (.nil _) rfl) (ih _)

def longNameConfig : AtServerConfig where
  recvBuffLen := 256
  room := by decide
  endMark := [cmdCr, cmdLf]
  isMark := Or.inl rfl
  cmdTable := []
  handle _ _ := .ok

/-- A line whose name has 16 letters -/
def longName : List AtByte := (List.replicate 16 'A'.toUInt8 ++ [cmdCr, cmdLf]).map fun ch => ⟨ch, false⟩

theorem server_parser_long_name :
    ¬Throughout (AtRun.Receives longNameConfig) (AtRun.start 0) longName AtRun.Sound := by
  intro sound
  have last := sound _ _ List.prefix_rfl (AtRun.run_foldl longNameConfig (AtRun.start 0) longName)
  have fault : (longName.foldl (AtRun.receive longNameConfig) (AtRun.start 0)).server.isSome = false := by decide +kernel
  exact Bool.false_ne_true (fault.symm.trans last.1)

end RtThread.At
