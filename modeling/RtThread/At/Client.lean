import RtThread.At.Server

/-! The AT client (`at_client.c`): the callers of `at_obj_exec_cmd`, of which `client->lock` lets in one at a time, and
the parser thread beside them. -/

set_option autoImplicit false
namespace RtThread.At

def respEndOk : List UInt8 := ['O'.toUInt8, 'K'.toUInt8]
def respEndError : List UInt8 := ['E'.toUInt8, 'R'.toUInt8, 'R'.toUInt8, 'O'.toUInt8, 'R'.toUInt8]
def respEndFail : List UInt8 := ['F'.toUInt8, 'A'.toUInt8, 'I'.toUInt8, 'L'.toUInt8]

inductive AtRespStatus where
  | ok
  | error
  | timeout
  | buffFull
  deriving DecidableEq

structure AtResponse where
  buf : Nat → UInt8
  bufSize : Nat
  bufLen : Nat
  lineNum : Nat
  lineCounts : Nat

structure AtUrc where
  cmdPrefix : List UInt8
  cmdSuffix : List UInt8
  isText : 0 ∉ cmdPrefix ∧ 0 ∉ cmdSuffix

/-- How the client is set up; `endSign` is 0 where there is none. -/
structure AtClientConfig where
  recvBufsz : Nat
  endSign : UInt8
  urcTable : List AtUrc

/-- `RT_EOK`, `-RT_ERROR`, `-RT_ETIMEOUT` -/
inductive AtExecResult where
  | eok
  | error
  | etimeout
  deriving DecidableEq

inductive AtStage where
  /-- `client->resp_status = AT_RESP_OK` -/
  | status
  /-- `buf_len` and `line_counts` of its response -/
  | reset
  /-- `client->resp = resp` -/
  | publish
  | resetNotice
  /-- `at_vprintfln` -/
  | send
  /-- In `rt_sem_take` -/
  | wait
  /-- After its time-out -/
  | late
  | check
  /-- `client->resp = RT_NULL` -/
  | exit (result : AtExecResult)
  /-- Before the lock is released and the call returns -/
  | unlock (result : AtExecResult)
  deriving DecidableEq

structure AtCall where
  resp : Option Nat
  stage : AtStage
  deriving DecidableEq

/-- Where the parser is, with what is in `recv_line_buf`. From `pick` on it has seen the response of the call with the
number `call`, from `copy` on it has its own pointer to it. -/
inductive AtParserPc where
  | readline (line : List UInt8) (lastCh : UInt8) (isFull : Bool)
  /-- The line is read: is it a URC, and is there a response? -/
  | look (line : List UInt8)
  /-- `at_response_t resp = client->resp` -/
  | pick (line : List UInt8) (call : Nat)
  | copy (line : List UInt8) (call resp : Nat)
  /-- The test for the end of the response -/
  | status (line : List UInt8) (call resp : Nat)
  /-- `client->resp = RT_NULL` -/
  | clear (call : Nat)
  /-- `rt_sem_release` -/
  | notify (call : Nat)
  /-- A null pointer has been followed. -/
  | fault
  deriving DecidableEq

/-- The client, and what is known beside it: the number of calls so far; the lines that the parser has completed, and
found to be no URC, while the response of the last call was there; whether one of its lines has not fitted; and whether
a response has been written to after its call. -/
structure AtClient where
  resp : Option Nat
  respStatus : AtRespStatus
  respNotice : Nat
  lock : Option AtCall
  parser : AtParserPc
  resps : Nat → AtResponse
  calls : Nat
  taken : List (List UInt8)
  lost : Bool
  wild : Bool

inductive AtAction where
  /-- A caller takes the lock. -/
  | call (resp : Option Nat)
  /-- The caller goes on. -/
  | go
  /-- The time of the caller is over. -/
  | timeout
  /-- The next byte from the modem -/
  | byte (ch : UInt8)
  /-- The parser goes on. -/
  | parse
  deriving DecidableEq

/-! ## A response object -/

/-- `rt_memcpy` of the bytes to the place `start` -/
def copyTo (buf : Nat → UInt8) (start : Nat) (bytes : List UInt8) : Nat → UInt8 := fun i =>
  if start ≤ i ∧ i < start + bytes.length then bytes.getD (i - start) 0 else buf i

/-- What is in `recv_line_buf` when the last byte of the line has become a NUL -/
def respText (line : List UInt8) : List UInt8 := line.dropLast ++ [0]

/-- The line is copied; `none` where it does not fit. -/
def AtResponse.store (resp : AtResponse) (line : List UInt8) : Option AtResponse :=
  if resp.bufLen + (respText line).length < resp.bufSize then
    some
      { resp with
        buf := copyTo resp.buf resp.bufLen (respText line)
        bufLen := resp.bufLen + (respText line).length
        lineCounts := resp.lineCounts + 1 }
  else none

def AtResponse.reset (resp : AtResponse) : AtResponse := { resp with bufLen := 0, lineCounts := 0 }

/-- The string at `p`, after `n` others -/
def lineAt (buf : Nat → UInt8) (size : Nat) : Nat → Nat → Option (List UInt8)
  | 0, p => stringAt buf (size - p) p
  | n + 1, p => (stringAt buf (size - p) p).bind fun text => lineAt buf size n (p + text.length + 1)

/-- `at_resp_get_line`, and the string there -/
def atRespGetLine (resp : AtResponse) (respLine : Nat) : Option (List UInt8) :=
  if respLine > resp.lineCounts ∨ respLine = 0 then none else lineAt resp.buf resp.bufSize (respLine - 1) 0

section client
variable (c : AtClientConfig)

def getUrcObj (line : List UInt8) : Option AtUrc :=
  c.urcTable.find? fun urc =>
    urc.cmdPrefix.length + urc.cmdSuffix.length ≤ line.length ∧ urc.cmdPrefix <+: line ∧ urc.cmdSuffix <:+ line

def endsLine (line : List UInt8) (lastCh ch : UInt8) : Bool :=
  ch = cmdLf ∧ lastCh = cmdCr ∨ c.endSign ≠ 0 ∧ ch = c.endSign ∨ (getUrcObj c line).isSome

def respEnd (resp : AtResponse) (line : List UInt8) : Option AtRespStatus :=
  if c.endSign ≠ 0 ∧ line.getLast? = some c.endSign ∧ resp.lineNum = 0 then some .ok
  else if respEndOk <+: respText line ∧ resp.lineNum = 0 then some .ok
  else if respEndError <:+: (respText line).takeWhile (· ≠ 0) ∨ respEndFail <+: respText line then some .error
  else if resp.lineCounts = resp.lineNum ∧ resp.lineNum ≠ 0 then some .ok
  else none

/-! ## The steps of the parser and of the callers -/

/-- The beginning of `at_recv_readline` -/
def AtParserPc.start : AtParserPc := .readline [] 0 false

namespace AtClient
variable (s : AtClient)

/-- A turn of the loop of `at_recv_readline` -/
def recvReadline (line : List UInt8) (lastCh : UInt8) (isFull : Bool) (ch : UInt8) : AtClient :=
  let full := isFull || decide (c.recvBufsz ≤ line.length)
  let line := if line.length < c.recvBufsz then line ++ [ch] else line
  if endsLine c line lastCh ch then
    if full then { s with parser := .start, lost := s.lost || s.resp.isSome }
    else { s with parser := .look line }
  else { s with parser := .readline line ch full }

/-- A step of `client_parser` -/
def clientParser : Option AtClient :=
  match s.parser with
  | .readline _ _ _ => none
  | .look line =>
    if (getUrcObj c line).isSome then some { s with parser := .start }
    else if s.resp.isSome then some { s with parser := .pick line s.calls, taken := s.taken ++ [line] }
    else some { s with parser := .start }
  | .pick line call =>
    match s.resp with
    | some r => some { s with parser := .copy line call r }
    | none => some { s with parser := .fault }
  | .copy line call r =>
    match (s.resps r).store line with
    | some resp =>
      some
        { s with
          resps := Function.update s.resps r resp
          parser := .status line call r
          wild := s.wild || decide (s.calls ≠ call) || s.lock.isNone }
    | none => some { s with respStatus := .buffFull, parser := .status line call r, lost := true }
  | .status line call r =>
    match respEnd c (s.resps r) line with
    | some status => some { s with respStatus := status, parser := .clear call }
    | none => some { s with parser := .start }
  | .clear call => some { s with resp := none, parser := .notify call }
  | .notify _ => some { s with respNotice := s.respNotice + 1, parser := .start }
  | .fault => none

def jump (call : AtCall) (stage : AtStage) : AtClient := { s with lock := some { call with stage } }

/-- A step of `at_obj_exec_cmd` -/
def execCmd : Option AtClient :=
  match s.lock with
  | none => none
  | some call =>
    match call.stage with
    | .status => some ({ s with respStatus := .ok }.jump call .reset)
    | .reset =>
      match call.resp with
      | some r => some ({ s with resps := Function.update s.resps r (s.resps r).reset }.jump call .publish)
      | none => some (s.jump call .publish)
    | .publish => some ({ s with resp := call.resp, taken := [], lost := false }.jump call .resetNotice)
    | .resetNotice => some ({ s with respNotice := 0 }.jump call .send)
    | .send => some (s.jump call (if call.resp.isSome then .wait else .exit .eok))
    | .wait => if s.respNotice = 0 then none else some ({ s with respNotice := s.respNotice - 1 }.jump call .check)
    | .late => some ({ s with respStatus := .timeout }.jump call (.exit .etimeout))
    | .check => some (s.jump call (.exit (if s.respStatus = .ok then .eok else .error)))
    | .exit result => some ({ s with resp := none }.jump call (.unlock result))
    | .unlock _ => some { s with lock := none }

/-- `none` is a step that is not to be taken here. -/
def act : AtAction → Option AtClient
  | .call resp => if s.lock.isNone then some { s with lock := some ⟨resp, .status⟩, calls := s.calls + 1 } else none
  | .go => s.execCmd
  | .timeout =>
    match s.lock with
    | some call => if call.stage = .wait ∧ s.respNotice = 0 then some (s.jump call .late) else none
    | none => none
  | .byte ch =>
    match s.parser with
    | .readline line lastCh isFull => some (s.recvReadline c line lastCh isFull ch)
    | _ => none
  | .parse => s.clientParser c

def init (resps : Nat → AtResponse) : AtClient where
  resp := none
  respStatus := .ok
  respNotice := 0
  lock := none
  parser := .start
  resps
  calls := 0
  taken := []
  lost := false
  wild := false

end AtClient

end client

end RtThread.At
