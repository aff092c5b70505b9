import RtThread.Lib.Rings

/-! The boxes that a CAN device with hardware filters receives into (`can.c` with RT_CAN_USING_HDR). -/

set_option autoImplicit false
namespace RtThread.Can
open Lib

/-- The list nodes: the two lists of the fifo, the list of each filter, and both nodes of each box -/
inductive CanNode where
  | freelist
  | uselist
  | hdr (hdr : Nat)
  | list (box : Nat)
  | hdrlist (box : Nat)
  deriving DecidableEq

structure CanMsg where
  hdrIndex : Int
  data : List UInt8
  deriving DecidableEq

structure CanConfigure where
  msgboxsz : Nat
  maxhdr : Nat
  /-- `sizeof(struct rt_can_msg)` -/
  msgSize : UInt32

structure CanHdr where
  connected : Bool
  msgs : Nat

structure CanDevice where
  links : Links CanNode
  freenumbers : Nat
  owner : Nat → Option Nat
  data : Nat → CanMsg
  hdr : Nat → CanHdr
  rcvpkg : Nat
  dropedrcvpkg : Nat

namespace CanDevice
variable (c : CanConfigure) (d : CanDevice)

def isEmpty (n : CanNode) : Bool := d.links.next n = n

/-- The box whose `list` is behind the node -/
def entry (n : CanNode) : Option Nat :=
  match d.links.next n with
  | .list box => some box
  | _ => none

/-- The box whose `hdrlist` is behind the node -/
def hdrEntry (n : CanNode) : Option Nat :=
  match d.links.next n with
  | .hdrlist box => some box
  | _ => none

def unlist (box : Nat) : CanDevice := { d with links := d.links.remove (.list box) }

/-- The box leaves the list of its filter, and the filter that is told counts one message less, if it counts any. -/
def unhang (box : Nat) (counted : Option Nat) : CanDevice :=
  { d with
    links := d.links.remove (.hdrlist box)
    hdr := counted.elim d.hdr fun k => Function.update d.hdr k { d.hdr k with msgs := (d.hdr k).msgs - 1 }
    owner := Function.update d.owner box none }

/-- The first critical section of `rt_hw_can_isr`: a free box, or the oldest one in use. `none` is an assertion that fails. -/
def rxTake : Option (CanDevice × Option Nat) :=
  let d := { d with rcvpkg := d.rcvpkg + 1 }
  if d.isEmpty .freelist = false then
    match d.entry .freelist with
    | none => none
    | some listmsg =>
      let d := (d.unlist listmsg).unhang listmsg (d.owner listmsg)
      if 0 < d.freenumbers then some ({ d with freenumbers := d.freenumbers - 1 }, some listmsg) else none
  else if d.isEmpty .uselist = false then
    match d.entry .uselist with
    | none => none
    | some listmsg =>
      let d := { d with dropedrcvpkg := d.dropedrcvpkg + 1 }
      some ((d.unlist listmsg).unhang listmsg (d.owner listmsg), some listmsg)
  else some (d, none)

def rxPut (listmsg : Nat) (tmpmsg : CanMsg) : Option CanDevice :=
  let d := { d with links := d.links.insertBefore .uselist (.list listmsg) }
  if tmpmsg.hdrIndex < c.maxhdr ∧ tmpmsg.hdrIndex ≥ 0 then
    let hdr := tmpmsg.hdrIndex.toNat
    if (d.hdr hdr).connected then
      some { d with
        links := d.links.insertBefore (.hdr hdr) (.hdrlist listmsg)
        owner := Function.update d.owner listmsg (some hdr)
        hdr := Function.update d.hdr hdr { d.hdr hdr with msgs := (d.hdr hdr).msgs + 1 } }
    else some d
  else none

/-- The first critical section of a turn of `_can_int_rx`: the first box of the filter asked for, or of all -/
def readTake (hdr : Int) : Option (CanDevice × Option Nat) :=
  if hdr ≥ 0 ∧ hdr < c.maxhdr ∧ d.isEmpty (.hdr hdr.toNat) = false then
    match d.hdrEntry (.hdr hdr.toNat) with
    | none => none
    | some listmsg => some ((d.unlist listmsg).unhang listmsg (some hdr.toNat), some listmsg)
  else if hdr = -1 ∧ d.isEmpty .uselist = false then
    match d.entry .uselist with
    | none => none
    | some listmsg => some ((d.unlist listmsg).unhang listmsg (d.owner listmsg), some listmsg)
  else some (d, none)

def readGive (listmsg : Nat) : Option CanDevice :=
  let d := { d with
    links := d.links.insertBefore .freelist (.list listmsg)
    freenumbers := d.freenumbers + 1 }
  if d.freenumbers ≤ c.msgboxsz then some d else none

/-- RT_CAN_CMD_SET_FILTER, with `actived`: the filter, which was found not connected, is connected. -/
def connect (bank : Nat) : CanDevice :=
  { d with
    hdr := Function.update d.hdr bank { connected := true, msgs := 0 }
    links := d.links.init (.hdr bank) }

/-- RT_CAN_CMD_SET_FILTER, without: the filter is disconnected. -/
def disconnect (bank : Nat) : CanDevice :=
  if (d.hdr bank).connected then
    { d with
      hdr := Function.update d.hdr bank { connected := false, msgs := 0 }
      links := if d.isEmpty (.hdr bank) then d.links else d.links.remove (d.links.next (.hdr bank)) }
  else d

end CanDevice

/-- `rt_can_open`: all boxes are free. -/
def canOpenLinks (msgboxsz : Nat) : Links CanNode :=
  (List.range msgboxsz).foldl (fun l i => l.insertBefore .freelist (.list i)) { next := id, prev := id }

def canOpen (c : CanConfigure) : CanDevice where
  links := canOpenLinks c.msgboxsz
  freenumbers := c.msgboxsz
  owner _ := none
  data _ := ⟨0, []⟩
  hdr _ := ⟨false, 0⟩
  rcvpkg := 0
  dropedrcvpkg := 0

/-! ## Calls, one critical section or copy after the other -/

/-- `rt_can_read`: what is left to read, as an `int` that is looked at for being zero, and what is copied to the buffer -/
structure CanRead where
  size : UInt32
  msgs : UInt32
  /-- The `hdr_index` of each message of the buffer, as the caller has set it -/
  hdrIndex : Nat → Int
  data : List CanMsg

inductive CanProc where
  | idle
  | rxCopy (listmsg : Nat) (tmpmsg : CanMsg)
  | rxPut (listmsg : Nat) (tmpmsg : CanMsg)
  | read (r : CanRead)
  | readCopy (r : CanRead) (listmsg : Nat)
  | readGive (r : CanRead) (listmsg : Nat)
  | readDone (r : CanRead)
  | setFilter (actived : Bool) (items : List Int)
  /-- Between the look at `connected` and its being set -/
  | connect (bank : Nat) (items : List Int)

/-- The device, what runs, and beside them: the messages that were put, in order; which of them is in each box; which
ones were taken by the read of each thread, and for which filter; and which ones were dropped, at how many free boxes. -/
structure CanWorld where
  dev : CanDevice
  procs : Nat → CanProc
  arrived : List CanMsg
  number : Nat → Nat
  taken : Nat → List (Int × Nat)
  dropped : List (Nat × Nat)

inductive CanAction where
  | interrupt (t : Nat) (tmpmsg : CanMsg) (overflow : Bool)
  | read (t : Nat) (size : UInt32) (hdrIndex : Nat → Int)
  | setFilter (t : Nat) (actived : Bool) (items : List Int)
  | go (t : Nat)

def CanProc.ended : CanProc → Bool
  | .idle => true
  | .readDone _ => true
  | _ => false

namespace CanWorld
variable (c : CanConfigure) (w : CanWorld)

def become (t : Nat) (p : CanProc) : CanWorld := { w with procs := Function.update w.procs t p }

/-- `rt_hw_can_isr`, up to the copy. RT_CAN_EVENT_RXOF_IND counts a lost message and goes on as RT_CAN_EVENT_RX_IND. -/
def interrupt (t : Nat) (tmpmsg : CanMsg) (overflow : Bool) : Option CanWorld :=
  let dev := if overflow then { w.dev with dropedrcvpkg := w.dev.dropedrcvpkg + 1 } else w.dev
  match dev.rxTake with
  | none => none
  | some (dev', none) => some { w with dev := dev' }
  | some (dev', some listmsg) =>
    some { w.become t (.rxCopy listmsg tmpmsg) with
      dev := dev'
      dropped := if dev.isEmpty .freelist then (w.number listmsg, dev.freenumbers) :: w.dropped else w.dropped }

/-- One item of RT_CAN_CMD_SET_FILTER -/
def filterItem (t : Nat) (actived : Bool) (bank : Int) (items : List Int) : CanWorld :=
  if bank ≥ c.maxhdr ∨ bank < 0 then w.become t (.setFilter actived items)
  else if actived then
    if (w.dev.hdr bank.toNat).connected then w.become t (.setFilter actived items) else w.become t (.connect bank.toNat items)
  else { w.become t (.setFilter actived items) with dev := w.dev.disconnect bank.toNat }

/-- One turn of `_can_int_rx`, up to the copy -/
def readTurn (t : Nat) (r : CanRead) : Option CanWorld :=
  if r.msgs = 0 then some (w.become t (.readDone r))
  else
    match w.dev.readTake c (r.hdrIndex r.data.length) with
    | none => none
    | some (dev, none) => some { w.become t (.readDone r) with dev }
    | some (dev, some listmsg) =>
      some { w.become t (.readCopy r listmsg) with
        dev
        taken := Function.update w.taken t (w.taken t ++ [(r.hdrIndex r.data.length, w.number listmsg)]) }

def go (t : Nat) : Option CanWorld :=
  match w.procs t with
  | .idle => none
  | .readDone _ => none
  | .rxCopy listmsg tmpmsg =>
    some { w.become t (.rxPut listmsg tmpmsg) with dev := { w.dev with data := Function.update w.dev.data listmsg tmpmsg } }
  | .rxPut listmsg tmpmsg =>
    (w.dev.rxPut c listmsg tmpmsg).map fun dev =>
      { w.become t .idle with
        dev
        arrived := w.arrived ++ [tmpmsg]
        number := Function.update w.number listmsg w.arrived.length }
  | .read r => w.readTurn c t r
  | .readCopy r listmsg => some (w.become t (.readGive { r with data := r.data ++ [w.dev.data listmsg] } listmsg))
  | .readGive r listmsg =>
    (w.dev.readGive c listmsg).map fun dev => { w.become t (.read { r with msgs := r.msgs - c.msgSize }) with dev }
  | .setFilter _ [] => some (w.become t .idle)
  | .setFilter actived (bank :: items) => some (w.filterItem c t actived bank items)
  | .connect bank items => some { w.become t (.setFilter true items) with dev := w.dev.connect bank }

def step : CanAction → Option CanWorld
  | .interrupt t tmpmsg overflow => if (w.procs t).ended then w.interrupt t tmpmsg overflow else none
  | .read t size hdrIndex =>
    if (w.procs t).ended then
      some { w.become t (.read ⟨size, size, hdrIndex, []⟩) with taken := Function.update w.taken t [] }
    else none
  | .setFilter t actived items => if (w.procs t).ended then some (w.become t (.setFilter actived items)) else none
  | .go t => w.go c t

end CanWorld

def canStart (c : CanConfigure) : CanWorld where
  dev := canOpen c
  procs _ := .idle
  arrived := []
  number _ := 0
  taken _ := []
  dropped := []

end RtThread.Can
