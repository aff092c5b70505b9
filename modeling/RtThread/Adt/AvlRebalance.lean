import RtThread.Adt.AvlRepr

/-! The rotations of the AVL tree: what they make of a tree in memory. Then `util_avl_rebalance`: from a subtree that
has changed by 1 up to the root, or to the node whose height is as it was. -/

set_option autoImplicit false
namespace RtThread.Adt
open Lib NodeTree

namespace AvlMemory
variable {N : Type}

section apart
variable {ll lr r : NodeTree N} {n c : N} {rest : List N}

/-- The nodes `n` and `c` of a single rotation are outside the parts that stay as they are, and so are the nodes of `lr`,
which gets another parent. -/
structure Apart (ll lr r : NodeTree N) (n c : N) (rest : List N) : Prop where
  differ : n ≠ c
  axis : n ∉ rest ∧ n ∉ lr.inorder
  child : c ∉ rest ∧ c ∉ lr.inorder
  outer : ∀ x ∈ rest, x ≠ n ∧ x ≠ c ∧ x ∉ lr.inorder
  left : ∀ x ∈ ll.inorder, x ≠ n ∧ x ≠ c ∧ x ∉ lr.inorder ∧ x ∉ rest
  middle : ∀ x ∈ lr.inorder, x ≠ n ∧ x ≠ c ∧ x ∉ rest
  right : ∀ x ∈ r.inorder, x ≠ n ∧ x ≠ c ∧ x ∉ lr.inorder ∧ x ∉ rest
  moved : lr.inorder.Nodup
  nodup : rest.Nodup

theorem apart (nodup : ((node (node ll c lr) n r).inorder ++ rest).Nodup) : Apart ll lr r n c rest := by
  simp only [inorder_node, List.nodup_append, List.nodup_cons, List.mem_append, List.mem_cons] at nodup
  constructor <;> grind

theorem root_outside {t : NodeTree N} {x : N} (outside : x ∉ t.inorder) : t.root ≠ some x :=
  fun top => outside (root_mem top)

end apart

variable [DecidableEq N] {m : AvlMemory N} {ctx : List (Frame N)}

section right
variable {ll lr r a b : NodeTree N} {n c d : N}

theorem rotateRight_stands (stands : m.Stands ctx (node (node ll c lr) n r))
    (nodup : ((node (node ll c lr) n r).inorder ++ around ctx).Nodup) (height : Nat) :
    (m.rotateRight n c lr.root (.of ctx) height).Stands ctx (node ll c (node lr n r)) := by
  have parts := apart nodup
  obtain ⟨mount, -, right, up, ⟨left, middle, -, inll, inlr⟩, inr⟩ := stands
  have same (x : N) (own : x ≠ n) (child : x ≠ c) (moved : x ∉ lr.inorder) :
      Same (m.assign (.of ctx) (some c)) (m.rotateRight n c lr.root (.of ctx) height) x := by
    constructor <;> simp [rotateRight, own, child, root_outside moved]
  have axis := place_outside parts.axis.1
  have child := place_outside parts.child.1
  have kept (x : N) (inside : x ≠ n ∧ x ≠ c ∧ x ∉ lr.inorder ∧ x ∉ around ctx) :
      Same m (m.rotateRight n c lr.root (.of ctx) height) x := by
    have place := place_outside inside.2.2.2
    constructor <;> simp [rotateRight, inside.1, inside.2.1, root_outside inside.2.2.1, place]
  refine ⟨?_, ?_, ?_, ?_, ?_, ?_, ?_, ?_, ?_, ?_⟩
  · refine (mount.assign parts.nodup (some c)).congr (fun x inside => ?_) (by simp [rotateRight])
    obtain ⟨own, child, moved⟩ := parts.outer x inside
    exact same x own child moved
  · simp [rotateRight, child, parts.differ.symm, left]
  · simp [rotateRight, child]
  · simp [rotateRight, root_outside parts.child.2, parts.differ.symm, up]
  · exact inll.congr fun x inside => kept x (parts.left x inside)
  · simp [rotateRight, axis]
  · simp [rotateRight, axis, parts.differ, right]
  · simp [rotateRight, root_outside parts.axis.2]
  · refine inlr.reparent parts.moved (fun x inside => ?_) (fun x top => by simp [rotateRight, top]) fun x inside top => ?_
    · obtain ⟨own, child, outside⟩ := parts.middle x inside
      have place := place_outside outside
      constructor <;> simp [rotateRight, own, child, place]
    · obtain ⟨own, child, outside⟩ := parts.middle x inside
      simp [rotateRight, own, child, top]
  · exact inr.congr fun x inside => kept x (parts.right x inside)

theorem rotateRight_height (child : Option N) (place : Place N) (height : Nat) (x : N) :
    (m.rotateRight n c child place height).height x =
      if x = c then height + 2 else if x = n then height + 1 else m.height x := by
  simp [rotateRight]

/-- The same for a double rotation, where `a` and `b` get other parents. -/
structure ApartTwice (ll a b r : NodeTree N) (n c d : N) (rest : List N) : Prop where
  differ : n ≠ c ∧ n ≠ d ∧ c ≠ d
  axis : n ∉ rest ∧ n ∉ a.inorder ∧ n ∉ b.inorder
  child : c ∉ rest ∧ c ∉ a.inorder ∧ c ∉ b.inorder
  grandchild : d ∉ rest ∧ d ∉ a.inorder ∧ d ∉ b.inorder
  outer : ∀ x ∈ rest, x ≠ n ∧ x ≠ c ∧ x ≠ d ∧ x ∉ a.inorder ∧ x ∉ b.inorder
  left : ∀ x ∈ ll.inorder, x ≠ n ∧ x ≠ c ∧ x ≠ d ∧ x ∉ a.inorder ∧ x ∉ b.inorder ∧ x ∉ rest
  front : ∀ x ∈ a.inorder, x ≠ n ∧ x ≠ c ∧ x ≠ d ∧ x ∉ b.inorder ∧ x ∉ rest
  back : ∀ x ∈ b.inorder, x ≠ n ∧ x ≠ c ∧ x ≠ d ∧ x ∉ a.inorder ∧ x ∉ rest
  right : ∀ x ∈ r.inorder, x ≠ n ∧ x ≠ c ∧ x ≠ d ∧ x ∉ a.inorder ∧ x ∉ b.inorder ∧ x ∉ rest
  moved : a.inorder.Nodup ∧ b.inorder.Nodup
  nodup : rest.Nodup

omit [DecidableEq N] in
theorem apartTwice {rest : List N} (nodup : ((node (node ll c (node a d b)) n r).inorder ++ rest).Nodup) :
    ApartTwice ll a b r n c d rest := by
  simp only [inorder_node, List.nodup_append, List.nodup_cons, List.mem_append, List.mem_cons] at nodup
  constructor <;> grind

attribute [local simp] midmountRight

theorem midmountRight_stands (stands : m.Stands ctx (node (node ll c (node a d b)) n r))
    (nodup : ((node (node ll c (node a d b)) n r).inorder ++ around ctx).Nodup) (height : Nat) :
    (m.midmountRight n c d (.of ctx) height).Stands ctx (node (node ll c a) d (node b n r)) := by
  have parts := apartTwice nodup
  obtain ⟨nc, nd, cd⟩ := parts.differ
  obtain ⟨mount, -, right, up, ⟨left, -, -, inll, ⟨front, back, -, ina, inb⟩⟩, inr⟩ := stands
  have axis := place_outside parts.axis.1
  have child := place_outside parts.child.1
  have grandchild := place_outside parts.grandchild.1
  have kept (x : N) (own : x ≠ n ∧ x ≠ c ∧ x ≠ d) (moved : a.root ≠ some x ∧ b.root ≠ some x) :
      Same (m.assign (.of ctx) (some d)) (m.midmountRight n c d (.of ctx) height) x := by
    constructor <;> simp [own, moved, nd, cd, cd.symm, front, back]
  have still (x : N) (inside : x ≠ n ∧ x ≠ c ∧ x ≠ d ∧ x ∉ a.inorder ∧ x ∉ b.inorder ∧ x ∉ around ctx) :
      Same m (m.midmountRight n c d (.of ctx) height) x := by
    obtain ⟨own, child, grandchild, ina, inb, outside⟩ := inside
    have place := assign_same (m := m) outside (some d)
    have same := kept x ⟨own, child, grandchild⟩ ⟨root_outside ina, root_outside inb⟩
    exact ⟨same.left.trans place.left, same.right.trans place.right, same.parent.trans place.parent⟩
  refine ⟨?_, ?_, ?_, ?_, ⟨?_, ?_, ?_, ?_, ?_⟩, ?_, ?_, ?_, ?_, ?_⟩
  · refine (mount.assign parts.nodup (some d)).congr (fun x inside => ?_) (by simp)
    obtain ⟨own, child, grandchild, ina, inb⟩ := parts.outer x inside
    exact kept x ⟨own, child, grandchild⟩ ⟨root_outside ina, root_outside inb⟩
  · simp [grandchild]
  · simp [grandchild]
  · simp [root_outside parts.grandchild.2.1, root_outside parts.grandchild.2.2, nd, nd.symm, cd, cd.symm, front, back, up]
  · simp [child, nc.symm, cd, left]
  · simp [child, cd, front]
  · simp [root_outside parts.child.2.1, root_outside parts.child.2.2, nd, cd, cd.symm, nc.symm, front, back]
  · exact inll.congr fun x inside => still x (parts.left x inside)
  · refine ina.reparent parts.moved.1 (fun x inside => ?_) (fun x top => ?_) fun x inside top => ?_
    · obtain ⟨own, child, grandchild, -, outside⟩ := parts.front x inside
      have place := place_outside outside
      constructor <;> simp [own, child, grandchild, place]
    · have inside := root_mem top
      obtain ⟨-, -, -, inb, -⟩ := parts.front x inside
      simp [nd, cd, cd.symm, front, back, root_outside inb, top]
    · obtain ⟨own, child, grandchild, inb, -⟩ := parts.front x inside
      simp [own, child, grandchild, nd, cd, cd.symm, front, back, root_outside inb, top]
  · simp [axis, nd, cd.symm, back]
  · simp [axis, nc, nd, right]
  · simp [root_outside parts.axis.2.1, root_outside parts.axis.2.2, nd, cd, cd.symm, front, back]
  · refine inb.reparent parts.moved.2 (fun x inside => ?_) (fun x top => ?_) fun x inside top => ?_
    · obtain ⟨own, child, grandchild, -, outside⟩ := parts.back x inside
      have place := place_outside outside
      constructor <;> simp [own, child, grandchild, place]
    · simp [nd, cd, cd.symm, front, back, top]
    · obtain ⟨own, child, grandchild, ina, -⟩ := parts.back x inside
      simp [own, child, grandchild, nd, cd, cd.symm, front, back, root_outside ina, top]
  · exact inr.congr fun x inside => still x (parts.right x inside)

theorem midmountRight_height (parts : n ≠ c ∧ n ≠ d ∧ c ≠ d) (place : Place N) (height : Nat) (x : N) :
    (m.midmountRight n c d place height).height x =
      if x = n ∨ x = c then height else if x = d then m.height c else m.height x := by
  obtain ⟨nc, nd, cd⟩ := parts
  by_cases own : x = n
  · simp [own]
  · by_cases child : x = c <;> simp [own, child]

end right

/-- What a round of `util_avl_rebalance` makes of a subtree that is out of balance. -/
structure Mended (m : AvlMemory N) (ctx : List (Frame N)) (l : NodeTree N) (n : N) (r : NodeTree N) (m' : AvlMemory N)
    (t : NodeTree N) : Prop where
  stands : m'.Stands ctx t
  avl : Avl m'.height none t
  inorder : t.inorder = (node l n r).inorder
  height : t.height = max l.height r.height ∨ t.height = max l.height r.height + 1
  outer : ∀ x ∈ around ctx, m'.height x = m.height x

section left
variable {l r : NodeTree N} {n : N}

theorem rotateRight_mended {ll lr : NodeTree N} {c : N} (stands : m.Stands ctx (node (node ll c lr) n r))
    (nodup : ((node (node ll c lr) n r).inorder ++ around ctx).Nodup) (left : Avl m.height none (node ll c lr))
    (right : Avl m.height none r) (heavy : (node ll c lr).height = r.height + 2) (single : lr.height ≤ ll.height) :
    Mended m ctx (node ll c lr) n r (m.rotateRight n c lr.root (.of ctx) lr.height) (node ll c (node lr n r)) := by
  have parts := apart nodup
  obtain ⟨inner, middle, close⟩ := left.parts
  rw [height_node] at heavy
  have other (x : N) (own : x ≠ n ∧ x ≠ c) :
      (m.rotateRight n c lr.root (.of ctx) lr.height).height x = m.height x := by
    rw [rotateRight_height, if_neg own.2, if_neg own.1]
  have lower : Avl (m.rotateRight n c lr.root (.of ctx) lr.height).height none (node lr n r) := by
    refine Avl.node (middle.congr fun x inside => ?_) (right.congr fun x inside => ?_) (by omega) fun _ => ?_
    · exact other x ⟨(parts.middle x inside).1, (parts.middle x inside).2.1⟩
    · exact other x ⟨(parts.right x inside).1, (parts.right x inside).2.1⟩
    · rw [rotateRight_height, if_neg parts.differ, if_pos rfl]
      omega
  refine ⟨rotateRight_stands stands nodup _, ?_, by simp, ?_, fun x inside => ?_⟩
  · refine Avl.node (inner.congr fun x inside => ?_) lower (by rw [height_node]; omega) fun _ => ?_
    · exact other x ⟨(parts.left x inside).1, (parts.left x inside).2.1⟩
    · rw [rotateRight_height, if_pos rfl, height_node]
      omega
  · simp only [height_node]
    omega
  · exact other x ⟨(parts.outer x inside).1, (parts.outer x inside).2.1⟩

theorem midmountRight_mended {ll a b : NodeTree N} {c d : N} (stands : m.Stands ctx (node (node ll c (node a d b)) n r))
    (nodup : ((node (node ll c (node a d b)) n r).inorder ++ around ctx).Nodup)
    (left : Avl m.height none (node ll c (node a d b))) (right : Avl m.height none r)
    (heavy : (node ll c (node a d b)).height = r.height + 2) (double : ll.height < (node a d b).height) :
    Mended m ctx (node ll c (node a d b)) n r (m.midmountRight n c d (.of ctx) (node a d b).height)
      (node (node ll c a) d (node b n r)) := by
  have parts := apartTwice nodup
  obtain ⟨inner, middle, close⟩ := left.parts
  obtain ⟨front, back, closer⟩ := middle.parts
  have stored : m.height c = max ll.height (node a d b).height + 1 := left.sized.2.2 nofun
  have heights := midmountRight_height (m := m) parts.differ (.of ctx) (node a d b).height
  rw [height_node] at heavy
  rw [height_node] at close double heavy stored
  have other (x : N) (own : x ≠ n ∧ x ≠ c ∧ x ≠ d) :
      (m.midmountRight n c d (.of ctx) (node a d b).height).height x = m.height x := by
    rw [heights, if_neg (not_or.mpr ⟨own.1, own.2.1⟩), if_neg own.2.2]
  have first : Avl (m.midmountRight n c d (.of ctx) (node a d b).height).height none (node ll c a) := by
    refine Avl.node (inner.congr fun x inside => ?_) (front.congr fun x inside => ?_) (by omega) fun _ => ?_
    · obtain ⟨own, child, grandchild, -⟩ := parts.left x inside
      exact other x ⟨own, child, grandchild⟩
    · obtain ⟨own, child, grandchild, -⟩ := parts.front x inside
      exact other x ⟨own, child, grandchild⟩
    · rw [heights, if_pos (.inr rfl), height_node]
      omega
  have second : Avl (m.midmountRight n c d (.of ctx) (node a d b).height).height none (node b n r) := by
    refine Avl.node (back.congr fun x inside => ?_) (right.congr fun x inside => ?_) (by omega) fun _ => ?_
    · obtain ⟨own, child, grandchild, -⟩ := parts.back x inside
      exact other x ⟨own, child, grandchild⟩
    · obtain ⟨own, child, grandchild, -⟩ := parts.right x inside
      exact other x ⟨own, child, grandchild⟩
    · rw [heights, if_pos (.inl rfl), height_node]
      omega
  refine ⟨midmountRight_stands stands nodup _, ?_, by simp, ?_, fun x inside => ?_⟩
  · refine first.node second (by simp only [height_node]; omega) fun _ => ?_
    rw [heights, if_neg (not_or.mpr ⟨parts.differ.2.1.symm, parts.differ.2.2.symm⟩), if_pos rfl, stored]
    simp only [height_node]
    omega
  · simp only [height_node]
    omega
  · obtain ⟨own, child, grandchild, -⟩ := parts.outer x inside
    exact other x ⟨own, child, grandchild⟩

theorem balance_left (stands : m.Stands ctx (node l n r)) (nodup : ((node l n r).inorder ++ around ctx).Nodup)
    (left : Avl m.height none l) (right : Avl m.height none r) (heavy : l.height = r.height + 2) :
    ∃ m' t, m.balance n = some (m', above ctx) ∧ Mended m ctx l n r m' t := by
  obtain ⟨ll, c, lr, rfl⟩ := height_pos (t := l) (by omega)
  have place := nodePlace_of stands nodup
  obtain ⟨leftN, rightN, -, ⟨leftC, rightC, -⟩, -⟩ := stands.shape
  have lheight : m.heightOf (m.left n) = (node ll c lr).height := leftN ▸ heightOf_root left.sized
  have rheight : m.heightOf (m.right n) = r.height := rightN ▸ heightOf_root right.sized
  have llheight : m.heightOf (m.left c) = ll.height := leftC ▸ heightOf_root left.parts.1.sized
  have lrheight : m.heightOf (m.right c) = lr.height := rightC ▸ heightOf_root left.parts.2.1.sized
  have tall : r.height + 1 < (node ll c lr).height := by omega
  rw [root_node] at leftN
  rw [leftN] at lheight
  by_cases single : lr.height ≤ ll.height
  · have mended := rotateRight_mended stands nodup left right heavy single
    refine ⟨_, _, ?_, mended⟩
    simp only [balance, place, leftN, lheight, rheight, llheight, lrheight, if_pos tall, ge_iff_le, if_pos single]
    rw [rightC, mended.stands.shape.2.2.1]
  · obtain ⟨a, d, b, rfl⟩ := height_pos (t := lr) (by omega)
    have mended := midmountRight_mended stands nodup left right heavy (Nat.not_le.mp single)
    refine ⟨_, _, ?_, mended⟩
    rw [root_node] at rightC
    rw [rightC] at lrheight
    simp only [balance, place, leftN, lheight, rheight, llheight, rightC, lrheight, if_pos tall, ge_iff_le,
      if_neg single]
    rw [mended.stands.shape.2.2.1]

end left

section mirror
variable (m : AvlMemory N) (n : N) (v : Option N)

theorem mirror_setLeft : m.mirror.setLeft n v = (m.setRight n v).mirror := rfl
theorem mirror_setRight : m.mirror.setRight n v = (m.setLeft n v).mirror := rfl
theorem mirror_setParent : m.mirror.setParent n v = (m.setParent n v).mirror := rfl
theorem mirror_setHeight (height : Nat) : m.mirror.setHeight n height = (m.setHeight n height).mirror := rfl

theorem mirror_assign (place : Place N) :
    m.mirror.assign (mirrorPlace place) v = (m.assign place v).mirror := by
  cases place <;> rfl

theorem mirror_adopt (child : Option N) : m.mirror.adopt child v = (m.adopt child v).mirror := by
  cases child <;> rfl

theorem mirror_rotateRight (axis child : N) (moved : Option N) (place : Place N) (height : Nat) :
    m.mirror.rotateRight axis child moved (mirrorPlace place) height =
      (m.rotateLeft axis child moved place height).mirror := by
  cases place <;> cases moved <;> rfl

theorem mirror_midmountRight (axis child moved : N) (place : Place N) (height : Nat) :
    m.mirror.midmountRight axis child moved (mirrorPlace place) height =
      (m.midmountLeft axis child moved place height).mirror := by
  simp only [midmountLeft, midmountRight, mirror_left, mirror_right, mirror_parent, mirror_height, mirror_setLeft,
    mirror_setRight, mirror_setParent, mirror_setHeight, mirror_adopt, mirror_assign]

variable {m}

theorem balance_mirror {n : N} (place : m.mirror.nodePlace n = mirrorPlace (m.nodePlace n))
    (heavy : m.heightOf (m.left n) + 1 < m.heightOf (m.right n)) :
    m.balance n = (m.mirror.balance n).map fun done => (done.1.mirror, done.2) := by
  have light : ¬ m.heightOf (m.right n) + 1 < m.heightOf (m.left n) := by omega
  simp only [balance, place, mirror_left, mirror_right, mirror_heightOf, mirror_rotateRight, mirror_midmountRight,
    if_pos heavy, if_neg light]
  cases m.right n with
  | none => rfl
  | some child =>
    dsimp only
    split
    · rfl
    · cases m.left child <;> rfl

theorem balance_right {l r : NodeTree N} {n : N} (stands : m.Stands ctx (node l n r))
    (nodup : ((node l n r).inorder ++ around ctx).Nodup) (left : Avl m.height none l) (right : Avl m.height none r)
    (heavy : r.height = l.height + 2) :
    ∃ m' t, m.balance n = some (m', above ctx) ∧ Mended m ctx l n r m' t := by
  have mirrored : ((node r.mirror n l.mirror).inorder ++ around (ctx.map Frame.mirror)).Nodup :=
    nodup_mirror nodup
  have place : m.mirror.nodePlace n = mirrorPlace (m.nodePlace n) := by
    rw [nodePlace_of stands nodup, nodePlace_of stands.mirror mirrored, of_mirror]
  obtain ⟨m', t, done, mended⟩ := balance_left stands.mirror mirrored right.mirror left.mirror
    (by rw [height_mirror, height_mirror, heavy])
  have lheight : m.heightOf (m.left n) = l.height := stands.shape.1 ▸ heightOf_root left.sized
  have rheight : m.heightOf (m.right n) = r.height := stands.shape.2.1 ▸ heightOf_root right.sized
  refine ⟨m'.mirror, t.mirror, ?_, ?_, mended.avl.mirror, ?_, ?_, fun x inside => ?_⟩
  · rw [balance_mirror place (by omega), done]
    simp
  · have back := mended.stands.mirror
    simpa [Function.comp_def] using back
  · rw [inorder_mirror, mended.inorder]
    simp
  · have height := mended.height
    simp only [height_mirror] at height ⊢
    rwa [Nat.max_comm]
  · exact mended.outer x (mem_around_mirror.mpr inside)

end mirror

end AvlMemory

/-! ## Rebalancing -/

namespace AvlMemory
variable {N : Type} {m : AvlMemory N} {ctx : List (Frame N)} {stale : Option N}

/-- The memory holds a balanced tree with these nodes in this order, whose heights are right, except perhaps that of
`stale`. -/
def Holds (m : AvlMemory N) (stale : Option N) (nodes : List N) : Prop :=
  ∃ t, m.Stands [] t ∧ Avl m.height stale t ∧ t.inorder = nodes

/-- A subtree is right again, and its height has changed from `height` by 1 at most. -/
structure Raised (m : AvlMemory N) (stale : Option N) (ctx : List (Frame N)) (t : NodeTree N) (height : Nat) : Prop where
  stands : m.Stands ctx t
  nodup : (t.inorder ++ around ctx).Nodup
  avl : Avl m.height none t
  little : t.height ≤ height + 1 ∧ height ≤ t.height + 1
  context : Around m.height stale ctx height

/-- The loop is at the node `n`, whose subtrees are right; `height` is the height of its tree before. -/
structure Climb (m : AvlMemory N) (stale : Option N) (ctx : List (Frame N)) (l : NodeTree N) (n : N) (r : NodeTree N)
    (height : Nat) : Prop where
  stands : m.Stands ctx (node l n r)
  nodup : ((node l n r).inorder ++ around ctx).Nodup
  left : Avl m.height none l
  right : Avl m.height none r
  near : Near l.height r.height height
  context : Around m.height stale ctx height
  /-- where the loop stops, the height is as it was -/
  stop : l.height ≤ r.height + 1 → r.height ≤ l.height + 1 → m.height n = max l.height r.height + 1 →
    height = max l.height r.height + 1

theorem Raised.up {f : Frame N} {t : NodeTree N} {height : Nat} (raised : Raised m stale (f :: ctx) t height) :
    ∃ l r, f.fill t = node l f.here r ∧ Climb m stale ctx l f.here r (max height f.sibling.height + 1) := by
  obtain ⟨sibling, close, own, away, outer⟩ := raised.context
  have stands := raised.stands.fill
  have nodup : ((f.fill t).inorder ++ around ctx).Nodup :=
    nodup_plug.mp (show (Lib.plug (f :: ctx) t).inorder.Nodup from nodup_plug.mpr raised.nodup)
  have near := near_change close raised.little
  have stop (stored : m.height f.here = max t.height f.sibling.height + 1) :
      max height f.sibling.height + 1 = max t.height f.sibling.height + 1 := by
    by_cases exact : some f.here = stale
    · exact absurd stored (away exact t.height raised.little.1 raised.little.2)
    · exact (own exact).symm.trans stored
  cases f with
  | left n r =>
    exact ⟨t, r, rfl, stands, nodup, raised.avl, sibling, near, outer, fun _ _ stored => stop stored⟩
  | right l n =>
    refine ⟨l, t, rfl, stands, nodup, sibling, raised.avl, near.symm, outer, fun _ _ stored => ?_⟩
    rw [Nat.max_comm] at stored
    exact (stop stored).trans (congrArg Nat.succ (Nat.max_comm ..))

variable [DecidableEq N] {l r : NodeTree N} {n : N} {height : Nat}

theorem Stands.setHeight {t : NodeTree N} (stands : m.Stands ctx t) (h : Nat) : (m.setHeight n h).Stands ctx t :=
  ⟨stands.mount.congr (fun _ _ => ⟨rfl, rfl, rfl⟩) rfl, stands.shape.congr fun _ _ => ⟨rfl, rfl, rfl⟩⟩

theorem balance_close (stands : m.Stands ctx (node l n r)) (left : Avl m.height none l) (right : Avl m.height none r)
    (close : l.height ≤ r.height + 1 ∧ r.height ≤ l.height + 1) :
    m.balance n = if max l.height r.height + 1 = m.height n then some (m, none)
      else some (m.setHeight n (max l.height r.height + 1), above ctx) := by
  have lheight : m.heightOf (m.left n) = l.height := stands.shape.1 ▸ heightOf_root left.sized
  have rheight : m.heightOf (m.right n) = r.height := stands.shape.2.1 ▸ heightOf_root right.sized
  have up : m.parent n = above ctx := stands.shape.2.2.1
  have higher : (if l.height < r.height then r.height else l.height) = max l.height r.height := by
    split <;> omega
  simp only [AvlMemory.balance, lheight, rheight, up, higher,
    if_neg (show ¬ r.height + 1 < l.height by omega), if_neg (show ¬ l.height + 1 < r.height by omega)]

theorem Climb.round (climb : Climb m stale ctx l n r height) :
    (m.balance n = some (m, none) ∧ m.Holds stale (plug ctx (node l n r)).inorder) ∨
    ∃ m' t, m.balance n = some (m', above ctx) ∧ Raised m' stale ctx t height ∧
      (plug ctx t).inorder = (plug ctx (node l n r)).inorder := by
  have near := climb.near
  -- The rotations leave the nodes around the subtree alone.
  have mended {m' : AvlMemory N} {t : NodeTree N} (done : m.balance n = some (m', above ctx))
      (mended : Mended m ctx l n r m' t) (heavy : ¬ (l.height ≤ r.height + 1 ∧ r.height ≤ l.height + 1)) :
      ∃ m' t, m.balance n = some (m', above ctx) ∧ Raised m' stale ctx t height ∧
        (plug ctx t).inorder = (plug ctx (node l n r)).inorder := by
    have taller := mended.height
    refine ⟨m', t, done, ⟨mended.stands, ?_, mended.avl, ?_, climb.context.congr mended.outer⟩, ?_⟩
    · rw [mended.inorder]
      exact climb.nodup
    · unfold Near at near
      omega
    · rw [inorder_plug, inorder_plug, mended.inorder]
  by_cases tallL : l.height ≤ r.height + 1
  case neg =>
    obtain ⟨m', t, done, mend⟩ := balance_left climb.stands climb.nodup climb.left climb.right
      (by unfold Near at near; omega)
    exact .inr (mended done mend fun close => tallL close.1)
  by_cases tallR : r.height ≤ l.height + 1
  case neg =>
    obtain ⟨m', t, done, mend⟩ := balance_right climb.stands climb.nodup climb.left climb.right
      (by unfold Near at near; omega)
    exact .inr (mended done mend fun close => tallR close.2)
  rw [balance_close climb.stands climb.left climb.right ⟨tallL, tallR⟩]
  by_cases stored : max l.height r.height + 1 = m.height n
  · refine .inl ⟨if_pos stored, plug ctx (node l n r), climb.stands.plug, ?_, rfl⟩
    refine Avl.plug ((climb.left.any stale).node (climb.right.any stale) ⟨tallL, tallR⟩ fun _ => stored.symm) ?_
    rw [height_node, ← climb.stop tallL tallR stored.symm]
    exact climb.context
  · have fresh := climb.nodup
    simp only [inorder_node, List.nodup_append, List.nodup_cons, List.mem_append, List.mem_cons] at fresh
    have other (x : N) (apart : x ≠ n) : (m.setHeight n (max l.height r.height + 1)).height x = m.height x := by
      simp [apart]
    refine .inr ⟨_, node l n r, if_neg stored, ⟨climb.stands.setHeight _, climb.nodup, ?_, ?_, ?_⟩, rfl⟩
    · refine Avl.node (climb.left.congr fun x inside => other x ?_) (climb.right.congr fun x inside => other x ?_)
        ⟨tallL, tallR⟩ fun _ => by simp
      · exact fresh.1.2.2 x inside n (.inl rfl)
      · rintro rfl
        exact fresh.1.2.1.1 inside
    · unfold Near at near
      rw [height_node]
      omega
    · refine climb.context.congr fun x inside => other x ?_
      rintro rfl
      exact fresh.2.2 x (.inr (.inl rfl)) x inside rfl

theorem rebalance_none (m : AvlMemory N) (fuel : Nat) : m.rebalance fuel none = some m := by
  cases fuel <;> rfl

theorem rebalance_some {m' : AvlMemory N} {axis : N} {next : Option N} (done : m.balance axis = some (m', next))
    (fuel : Nat) : m.rebalance (fuel + 1) (some axis) = m'.rebalance fuel next := by
  simp only [AvlMemory.rebalance, done]

theorem Raised.rebalance {t : NodeTree N} (raised : Raised m stale ctx t height) (fuel : Nat) (enough : ctx.length ≤ fuel) :
    ∃ m', m.rebalance fuel (above ctx) = some m' ∧ m'.Holds stale (plug ctx t).inorder := by
  induction ctx generalizing m t height fuel with
  | nil => exact ⟨m, rebalance_none m fuel, t, raised.stands, raised.avl.any stale, rfl⟩
  | cons f rest ih =>
    obtain ⟨l, r, filled, climb⟩ := raised.up
    cases fuel with
    | zero => cases enough
    | succ fuel =>
      have start : above (f :: rest) = some f.here := rfl
      rw [start, Lib.plug, filled]
      rcases climb.round with ⟨done, holds⟩ | ⟨m', t', done, again, same⟩
      · rw [rebalance_some done]
        exact ⟨m, rebalance_none m fuel, holds⟩
      · rw [rebalance_some done]
        obtain ⟨last, rest, holds⟩ := ih again fuel (Nat.le_of_succ_le_succ enough)
        exact ⟨last, rest, same ▸ holds⟩

theorem Climb.rebalance (climb : Climb m stale ctx l n r height) (fuel : Nat) (enough : ctx.length < fuel) :
    ∃ m', m.rebalance fuel (some n) = some m' ∧ m'.Holds stale (plug ctx (node l n r)).inorder := by
  cases fuel with
  | zero => cases enough
  | succ fuel =>
    rcases climb.round with ⟨done, holds⟩ | ⟨m', t, done, raised, same⟩
    · rw [rebalance_some done]
      exact ⟨m, rebalance_none m fuel, holds⟩
    · rw [rebalance_some done]
      obtain ⟨last, rest, holds⟩ := raised.rebalance fuel (Nat.le_of_lt_succ enough)
      exact ⟨last, rest, same ▸ holds⟩

end AvlMemory

end RtThread.Adt
