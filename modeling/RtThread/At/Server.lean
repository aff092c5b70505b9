import Mathlib.Data.List.Infix

/-! The parser of the AT server (`at_server.c`), byte by byte. -/

set_option autoImplicit false
namespace RtThread.At

def escKey : UInt8 := 0x1b
def backspaceKey : UInt8 := 0x08
def delectKey : UInt8 := 0x7f
def cmdCr : UInt8 := 0x0d
def cmdLf : UInt8 := 0x0a
def cmdNull : UInt8 := 0
def cmdQuestionMark : UInt8 := '?'.toUInt8
def cmdEqualMark : UInt8 := '='.toUInt8
def cmdCommaMark : UInt8 := ','.toUInt8

def cmdNameLen : Nat := 16

def isDigit (ch : UInt8) : Bool := '0'.toUInt8 ≤ ch && ch ≤ '9'.toUInt8

def endsName (ch : UInt8) : Bool := ch == cmdQuestionMark || ch == cmdEqualMark || ch == cmdCr || isDigit ch

inductive AtResult where
  | ok
  | faile
  | null
  | cmdErr
  | checkFaile
  | parseFaile
  deriving DecidableEq

inductive AtHandler where
  | test
  | query
  | setup (args : List UInt8)
  | exec
  deriving DecidableEq

/-- `struct at_cmd`, with the handlers that are there -/
structure AtCmd where
  name : List UInt8
  argsExpr : List UInt8
  test : Bool
  query : Bool
  setup : Bool
  exec : Bool
  deriving DecidableEq

structure AtServerConfig where
  /-- AT_SERVER_RECV_BUFF_LEN -/
  recvBuffLen : Nat
  room : 0 < recvBuffLen
  endMark : List UInt8
  /-- AT_CMD_END_MARK -/
  isMark : endMark = [cmdCr, cmdLf] ∨ endMark = [cmdCr] ∨ endMark = [cmdLf]
  cmdTable : List AtCmd
  handle : Nat → AtHandler → AtResult

inductive AtEffect where
  /-- `at_server_printf` of the echo -/
  | echo (text : List UInt8)
  /-- `at_server_print_result` -/
  | result (r : AtResult)
  /-- `at_cmd_process` -/
  | process (cmd : Nat) (args : List UInt8)
  | call (cmd : Nat) (handler : AtHandler)
  deriving DecidableEq

structure AtServer where
  recvBuffer : Nat → UInt8
  curRecvLen : Nat
  /-- `last_ch`, which has no value at first -/
  lastCh : UInt8
  curCmdName : Nat → UInt8
  /-- The loop has not been left. -/
  running : Bool

structure AtByte where
  ch : UInt8
  echoMode : Bool
  deriving DecidableEq

/-- `buffer[i] = ch`; `none` is a byte outside the buffer. -/
def storeByte (size : Nat) (buffer : Nat → UInt8) (i : Nat) (ch : UInt8) : Option (Nat → UInt8) :=
  if i < size then some (Function.update buffer i ch) else none

/-- The string at `i`, if its NUL is one of the `left` bytes from there on -/
def stringAt (buffer : Nat → UInt8) : Nat → Nat → Option (List UInt8)
  | 0, _ => none
  | left + 1, i => if buffer i = 0 then some [] else (stringAt buffer left (i + 1)).map (buffer i :: ·)

def atCheckArgs (args argsFormat : List UInt8) : Bool :=
  let leftSqBracketNum := argsFormat.count '['.toUInt8
  let rightSqBracketNum := argsFormat.count ']'.toUInt8
  let leftAngleBracketNum := argsFormat.count '<'.toUInt8
  let rightAngleBracketNum := argsFormat.count '>'.toUInt8
  let commaMarkNum := args.count cmdCommaMark
  if leftSqBracketNum ≠ rightSqBracketNum ∨ leftAngleBracketNum ≠ rightAngleBracketNum ∨
      leftSqBracketNum > leftAngleBracketNum then false
  else
    !(decide (commaMarkNum + 1 < leftAngleBracketNum - leftSqBracketNum) || decide (commaMarkNum + 1 > leftAngleBracketNum))

section parser
variable (c : AtServerConfig)

def callHandler (n : Nat) (here : Bool) (handler : AtHandler) : List AtEffect :=
  if here then [.call n handler, .result (c.handle n handler)] else [.result .cmdErr]

/-- `at_cmd_process`; a string ends with a NUL. -/
def atCmdProcess (n : Nat) (cmd : AtCmd) (args : List UInt8) : List AtEffect :=
  let cmdArgs := fun i => args.getD i 0
  if cmdArgs 0 = cmdEqualMark ∧ cmdArgs 1 = cmdQuestionMark ∧ cmdArgs 2 = cmdCr then callHandler c n cmd.test .test
  else if cmdArgs 0 = cmdQuestionMark ∧ cmdArgs 1 = cmdCr then callHandler c n cmd.query .query
  else if cmdArgs 0 = cmdEqualMark ∨ isDigit (cmdArgs 0) ∧ cmdArgs 1 = cmdCr then
    if cmd.setup then
      if atCheckArgs args cmd.argsExpr then callHandler c n true (.setup args) else [.result .checkFaile]
    else [.result .cmdErr]
  else if cmdArgs 0 = cmdCr then callHandler c n cmd.exec .exec
  else []

def toLower (ch : UInt8) : UInt8 := if 'A'.toUInt8 ≤ ch && ch ≤ 'Z'.toUInt8 then ch + 32 else ch

/-- `at_find_cmd`, with `strcasecmp` -/
def atFindCmd (cmd : List UInt8) : Option Nat :=
  c.cmdTable.findIdx? fun entry => entry.name.map toLower == cmd.map toLower

/-- `at_cmd_get_name` of the string in the buffer. The inner `none` is an error, the outer one a byte outside `cmd_name`. -/
def atCmdGetName (cmdBuffer : List UInt8) (cmdName : Nat → UInt8) : Option (Option (Nat → UInt8)) :=
  match cmdBuffer.findIdx? endsName with
  | none => some none
  | some len =>
    if len < cmdNameLen then
      some (some fun i => if i < len then cmdBuffer.getD i 0 else if i = len then 0 else cmdName i)
    else none

/-- The line is complete: its command is looked up, and the buffer is empty again. `none` is an access outside a buffer. -/
def handleLine (server : AtServer) (cmdBuffer : List UInt8) : Option (AtServer × List AtEffect) :=
  let retry := { server with recvBuffer := fun i => if i < c.recvBuffLen then 0 else server.recvBuffer i, curRecvLen := 0 }
  match atCmdGetName cmdBuffer server.curCmdName with
  | none => none
  | some none => some (retry, [.result .cmdErr])
  | some (some curCmdName) =>
    let retry := { retry with curCmdName }
    match stringAt curCmdName cmdNameLen 0 with
    | none => none
    | some name =>
      match atFindCmd c name with
      | none => some (retry, [.result .cmdErr])
      | some n =>
        match c.cmdTable[n]?, stringAt server.recvBuffer (c.recvBuffLen - name.length) name.length with
        | some curCmd, some curCmdArgs => some (retry, .process n curCmdArgs :: atCmdProcess c n curCmd curCmdArgs)
        | _, _ => none

def takeByte (server : AtServer) (ch : UInt8) : Option (AtServer × List AtEffect) :=
  match storeByte c.recvBuffLen server.recvBuffer server.curRecvLen ch with
  | none => none
  | some recvBuffer =>
    let server := { server with recvBuffer, curRecvLen := server.curRecvLen + 1, lastCh := ch }
    match stringAt recvBuffer c.recvBuffLen 0 with
    | none => none
    | some text => if c.endMark <:+: text then handleLine c server text else some (server, [])

/-- One turn of the loop of `server_parser` -/
def serverParser (server : AtServer) (byte : AtByte) : Option (AtServer × List AtEffect) :=
  let ch := byte.ch
  if server.running = false then some (server, [])
  else if ch = escKey then some ({ server with running := false }, [])
  else if byte.echoMode then
    if ch = cmdCr ∨ ch = cmdLf ∧ server.lastCh ≠ cmdCr then
      (takeByte c server ch).map fun done => (done.1, .echo [cmdCr, cmdLf] :: done.2)
    else if ch = cmdLf then takeByte c server ch
    else if ch = backspaceKey ∨ ch = delectKey then
      if server.curRecvLen ≠ 0 then
        (storeByte c.recvBuffLen server.recvBuffer (server.curRecvLen - 1) 0).map fun recvBuffer =>
          ({ server with recvBuffer, curRecvLen := server.curRecvLen - 1 }, [.echo [0x08, 0x20, 0x08]])
      else some (server, [])
    else if ch = cmdNull then some (server, [])
    else (takeByte c server ch).map fun done => (done.1, .echo [ch] :: done.2)
  else takeByte c server ch

end parser

end RtThread.At
