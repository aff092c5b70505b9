import RtThread.Lib.AvlTree
import Mathlib.Order.Lattice

/-! The AVL tree of `libadt/avl`: nodes in memory with links to their children and their parent, and the search for a
place of `_aspace_bst_insert`. -/

set_option autoImplicit false
namespace RtThread.Adt
open Lib

/-- `struct util_avl_struct` of each node, and `struct util_avl_root`. -/
structure AvlMemory (N : Type) where
  left : N → Option N
  right : N → Option N
  parent : N → Option N
  height : N → Nat
  root : Option N

/-- A pointer to a link: `nodeplace` -/
inductive Place (N : Type) where
  | root
  | left (n : N)
  | right (n : N)
  deriving DecidableEq

namespace AvlMemory
variable {N : Type}

def heightOf (m : AvlMemory N) : Option N → Nat
  | none => 0
  | some n => m.height n

def read (m : AvlMemory N) : Place N → Option N
  | .root => m.root
  | .left n => m.left n
  | .right n => m.right n

section code
variable [DecidableEq N]

def setLeft (m : AvlMemory N) (n : N) (child : Option N) : AvlMemory N :=
  { m with left := Function.update m.left n child }

def setRight (m : AvlMemory N) (n : N) (child : Option N) : AvlMemory N :=
  { m with right := Function.update m.right n child }

def setParent (m : AvlMemory N) (n : N) (parent : Option N) : AvlMemory N :=
  { m with parent := Function.update m.parent n parent }

def setHeight (m : AvlMemory N) (n : N) (height : Nat) : AvlMemory N :=
  { m with height := Function.update m.height n height }

def adopt (m : AvlMemory N) (child : Option N) (parent : Option N) : AvlMemory N :=
  match child with
  | none => m
  | some n => m.setParent n parent

/-- `*nodeplace = n` -/
def assign (m : AvlMemory N) (nodeplace : Place N) (n : Option N) : AvlMemory N :=
  match nodeplace with
  | .root => { m with root := n }
  | .left p => m.setLeft p n
  | .right p => m.setRight p n

/-- NODE_PLACE, and the root for a node without parent -/
def nodePlace (m : AvlMemory N) (n : N) : Place N :=
  match m.parent n with
  | none => .root
  | some p => if m.left p = some n then .left p else .right p

def rotateRight (m : AvlMemory N) (axis lchild : N) (lrchild : Option N) (nodeplace : Place N) (lrheight : Nat) :
    AvlMemory N :=
  let m := m.setLeft axis lrchild
  let m := m.setRight lchild (some axis)
  let m := m.setHeight axis (lrheight + 1)
  let m := m.setHeight lchild (m.height axis + 1)
  let m := m.setParent lchild (m.parent axis)
  let m := m.setParent axis (some lchild)
  let m := m.assign nodeplace (some lchild)
  m.adopt lrchild (some axis)

def midmountRight (m : AvlMemory N) (axis lchild lrchild : N) (nodeplace : Place N) (lrheight : Nat) : AvlMemory N :=
  let m := m.setRight lchild (m.left lrchild)
  let m := m.setLeft axis (m.right lrchild)
  let m := m.setLeft lrchild (some lchild)
  let m := m.setRight lrchild (some axis)
  let m := m.setHeight lrchild (m.height lchild)
  let m := m.setHeight lchild lrheight
  let m := m.setHeight axis lrheight
  let m := m.setParent lrchild (m.parent axis)
  let m := m.setParent lchild (some lrchild)
  let m := m.setParent axis (some lrchild)
  let m := m.adopt (m.right lchild) (some lchild)
  let m := m.adopt (m.left axis) (some axis)
  m.assign nodeplace (some lrchild)

def rotateLeft (m : AvlMemory N) (axis rchild : N) (rlchild : Option N) (nodeplace : Place N) (rlheight : Nat) :
    AvlMemory N :=
  let m := m.setRight axis rlchild
  let m := m.setLeft rchild (some axis)
  let m := m.setHeight axis (rlheight + 1)
  let m := m.setHeight rchild (m.height axis + 1)
  let m := m.setParent rchild (m.parent axis)
  let m := m.setParent axis (some rchild)
  let m := m.assign nodeplace (some rchild)
  m.adopt rlchild (some axis)

def midmountLeft (m : AvlMemory N) (axis rchild rlchild : N) (nodeplace : Place N) (rlheight : Nat) : AvlMemory N :=
  let m := m.setLeft rchild (m.right rlchild)
  let m := m.setRight axis (m.left rlchild)
  let m := m.setRight rlchild (some rchild)
  let m := m.setLeft rlchild (some axis)
  let m := m.setHeight rlchild (m.height rchild)
  let m := m.setHeight rchild rlheight
  let m := m.setHeight axis rlheight
  let m := m.setParent rlchild (m.parent axis)
  let m := m.setParent rchild (some rlchild)
  let m := m.setParent axis (some rlchild)
  let m := m.adopt (m.left rchild) (some rchild)
  let m := m.adopt (m.right axis) (some axis)
  m.assign nodeplace (some rlchild)

/-- The body of the loop of `util_avl_rebalance`: the memory, and where the loop goes on. There is nothing after a null
pointer has been read. -/
def balance (m : AvlMemory N) (axis : N) : Option (AvlMemory N × Option N) :=
  let nodeplace := m.nodePlace axis
  let lheight := m.heightOf (m.left axis)
  let rheight := m.heightOf (m.right axis)
  if rheight + 1 < lheight then
    match m.left axis with
    | none => none
    | some lchild =>
      let lrheight := m.heightOf (m.right lchild)
      if m.heightOf (m.left lchild) ≥ lrheight then
        let m := m.rotateRight axis lchild (m.right lchild) nodeplace lrheight
        some (m, m.parent lchild)
      else
        match m.right lchild with
        | none => none
        | some lrchild =>
          let m := m.midmountRight axis lchild lrchild nodeplace lrheight
          some (m, m.parent lrchild)
  else if lheight + 1 < rheight then
    match m.right axis with
    | none => none
    | some rchild =>
      let rlheight := m.heightOf (m.left rchild)
      if m.heightOf (m.right rchild) ≥ rlheight then
        let m := m.rotateLeft axis rchild (m.left rchild) nodeplace rlheight
        some (m, m.parent rchild)
      else
        match m.left rchild with
        | none => none
        | some rlchild =>
          let m := m.midmountLeft axis rchild rlchild nodeplace rlheight
          some (m, m.parent rlchild)
  else
    let height := (if lheight < rheight then rheight else lheight) + 1
    if height = m.height axis then some (m, none) else some (m.setHeight axis height, m.parent axis)

/-- `util_avl_rebalance`, with at most `fuel` rounds of the loop -/
def rebalance (m : AvlMemory N) : Nat → Option N → Option (AvlMemory N)
  | _, none => some m
  | 0, some _ => none
  | fuel + 1, some axis =>
    match m.balance axis with
    | none => none
    | some (m, next) => m.rebalance fuel next

/-- The loop of `util_avl_remove`: from a successor and its parent to the first node. -/
def descend (m : AvlMemory N) : Nat → N → N → Option (N × N)
  | 0, _, _ => none
  | fuel + 1, successor, sparent =>
    match m.left successor with
    | none => some (successor, sparent)
    | some next => m.descend fuel next successor

/-- The writes of `util_avl_remove` for a node without right child -/
def raiseLeft (m : AvlMemory N) (node : N) (nodeplace : Place N) : AvlMemory N :=
  let m := m.assign nodeplace (m.left node)
  m.adopt (m.left node) (m.parent node)

def raiseRight (m : AvlMemory N) (node rchild : N) (nodeplace : Place N) : AvlMemory N :=
  let m := m.assign nodeplace (some rchild)
  let m := m.setLeft rchild (m.left node)
  let m := m.adopt (m.left rchild) (some rchild)
  m.setParent rchild (m.parent node)

def raiseSuccessor (m : AvlMemory N) (node successor sparent : N) (nodeplace : Place N) : AvlMemory N :=
  let m := m.assign nodeplace (some successor)
  let m := m.setLeft sparent (m.right successor)
  let m := m.setLeft successor (m.left node)
  let m := m.setRight successor (m.right node)
  let m := m.adopt (m.left successor) (some successor)
  let m := m.adopt (m.right successor) (some successor)
  let m := m.adopt (m.left sparent) (some sparent)
  m.setParent successor (m.parent node)

def remove (m : AvlMemory N) (fuel : Nat) (node : N) : Option (AvlMemory N) :=
  match m.root with
  | none => some m
  | some _ =>
    let nodeplace := m.nodePlace node
    match m.right node with
    | none =>
      let m := m.raiseLeft node nodeplace
      m.rebalance fuel (m.parent node)
    | some rchild =>
      match m.left rchild with
      | none =>
        match (m.raiseRight node rchild nodeplace).rebalance fuel (some rchild) with
        | none => none
        | some m => m.rebalance fuel (m.parent rchild)
      | some successor =>
        match m.descend fuel successor rchild with
        | none => none
        | some (successor, sparent) =>
          match (m.raiseSuccessor node successor sparent nodeplace).rebalance fuel (some sparent) with
          | none => none
          | some m => m.rebalance fuel (some successor)

def link (m : AvlMemory N) (newNode : N) (parent : Option N) (nodeplace : Place N) : AvlMemory N :=
  let m := m.setLeft newNode none
  let m := m.setRight newNode none
  let m := m.setParent newNode parent
  let m := m.setHeight newNode 1
  m.assign nodeplace (some newNode)

end code

section search
variable {K : Type} [LinearOrder K]

/-- The search of `_aspace_bst_insert`: the place and its node, or nothing if the key is there. -/
def search (m : AvlMemory N) (key : N → K) (k : K) : Nat → Option N → Place N → Option (Option (Option N × Place N))
  | fuel, current, next =>
    match m.read next with
    | none => some (some (current, next))
    | some data =>
      match fuel with
      | 0 => none
      | fuel + 1 =>
        if k < key data then m.search key k fuel (some data) (.left data)
        else if k > key data then m.search key k fuel (some data) (.right data)
        else some none

def insert [DecidableEq N] (m : AvlMemory N) (key : N → K) (fuel : Nat) (newNode : N) : Option (AvlMemory N × Bool) :=
  match m.search key (key newNode) fuel none .root with
  | none => none
  | some none => some (m, false)
  | some (some (current, next)) =>
    let m := m.link newNode current next
    (m.rebalance fuel current).map (·, true)

end search

section traversal

def leftmost (m : AvlMemory N) : Nat → N → Option N
  | 0, _ => none
  | fuel + 1, node =>
    match m.left node with
    | none => some node
    | some next => m.leftmost fuel next

def rightmost (m : AvlMemory N) : Nat → N → Option N
  | 0, _ => none
  | fuel + 1, node =>
    match m.right node with
    | none => some node
    | some next => m.rightmost fuel next

variable [DecidableEq N]

def upFromRight (m : AvlMemory N) : Nat → N → Option (Option N)
  | 0, _ => none
  | fuel + 1, node =>
    match m.parent node with
    | none => some none
    | some successor => if m.right successor = some node then m.upFromRight fuel successor else some (some successor)

def upFromLeft (m : AvlMemory N) : Nat → N → Option (Option N)
  | 0, _ => none
  | fuel + 1, node =>
    match m.parent node with
    | none => some none
    | some predecessor =>
      if m.left predecessor = some node then m.upFromLeft fuel predecessor else some (some predecessor)

def next (m : AvlMemory N) (fuel : Nat) (node : N) : Option (Option N) :=
  match m.right node with
  | some right => (m.leftmost fuel right).map some
  | none => m.upFromRight fuel node

def prev (m : AvlMemory N) (fuel : Nat) (node : N) : Option (Option N) :=
  match m.left node with
  | some left => (m.rightmost fuel left).map some
  | none => m.upFromLeft fuel node

def first (m : AvlMemory N) (fuel : Nat) : Option (Option N) :=
  match m.root with
  | none => some none
  | some first => (m.leftmost fuel first).map some

def last (m : AvlMemory N) (fuel : Nat) : Option (Option N) :=
  match m.root with
  | none => some none
  | some last => (m.rightmost fuel last).map some

end traversal

end AvlMemory

end RtThread.Adt
