import RtThread.Adt.Avl

/-! A binary tree in memory, seen from one of its subtrees: the nodes around the subtree and the nodes in it. -/

set_option autoImplicit false
namespace RtThread.Adt
open Lib NodeTree

variable {N : Type}

def Place.hole : Frame N → Place N
  | .left n _ => .left n
  | .right _ n => .right n

def Place.other : Frame N → Place N
  | .left n _ => .right n
  | .right _ n => .left n

def Place.of : List (Frame N) → Place N
  | [] => .root
  | f :: _ => .hole f

namespace AvlMemory

/-- The tree below `parent`. -/
def Shape (m : AvlMemory N) : Option N → NodeTree N → Prop
  | _, leaf => True
  | parent, node l n r =>
    m.left n = l.root ∧ m.right n = r.root ∧ m.parent n = parent ∧ m.Shape (some n) l ∧ m.Shape (some n) r

/-- The frames around a subtree, whose place holds `top`. -/
def Mount (m : AvlMemory N) : List (Frame N) → Option N → Prop
  | [], top => m.root = top
  | f :: rest, top =>
    m.read (.hole f) = top ∧ m.read (.other f) = f.sibling.root ∧ m.parent f.here = above rest ∧
      m.Shape (some f.here) f.sibling ∧ m.Mount rest (some f.here)

/-- The memory holds the tree `plug ctx t`. -/
structure Stands (m : AvlMemory N) (ctx : List (Frame N)) (t : NodeTree N) : Prop where
  mount : m.Mount ctx t.root
  shape : m.Shape (above ctx) t

structure Same (m m' : AvlMemory N) (n : N) : Prop where
  left : m'.left n = m.left n
  right : m'.right n = m.right n
  parent : m'.parent n = m.parent n

section shape
variable {m m' : AvlMemory N}

theorem Shape.congr {parent : Option N} {t : NodeTree N} (shape : m.Shape parent t)
    (same : ∀ n ∈ t.inorder, Same m m' n) : m'.Shape parent t := by
  induction t generalizing parent with
  | leaf => trivial
  | node l n r ihl ihr =>
    obtain ⟨left, right, up, inl, inr⟩ := shape
    have own := same n (List.mem_append_right _ List.mem_cons_self)
    exact ⟨own.left.trans left, own.right.trans right, own.parent.trans up,
      ihl inl fun x inside => same x (List.mem_append_left _ inside),
      ihr inr fun x inside => same x (List.mem_append_right _ (List.mem_cons_of_mem _ inside))⟩

theorem Shape.reparent {parent parent' : Option N} {t : NodeTree N} (shape : m.Shape parent t) (nodup : t.inorder.Nodup)
    (children : ∀ n ∈ t.inorder, m'.left n = m.left n ∧ m'.right n = m.right n)
    (top : ∀ n, t.root = some n → m'.parent n = parent')
    (inner : ∀ n ∈ t.inorder, t.root ≠ some n → m'.parent n = m.parent n) : m'.Shape parent' t := by
  cases t with
  | leaf => trivial
  | node l n r =>
    obtain ⟨left, right, -, inl, inr⟩ := shape
    obtain ⟨-, nodupR, apart⟩ := List.nodup_append.mp nodup
    have own := children n (List.mem_append_right _ List.mem_cons_self)
    have below (x : N) (inside : x ∈ l.inorder ∨ x ∈ r.inorder) : Same m m' x := by
      have member : x ∈ (node l n r).inorder := by simpa using inside.imp_right Or.inr
      refine ⟨(children x member).1, (children x member).2, inner x member ?_⟩
      rintro same
      cases same
      rcases inside with inside | inside
      · exact apart n inside n List.mem_cons_self rfl
      · exact (List.nodup_cons.mp nodupR).1 inside
    exact ⟨own.1.trans left, own.2.trans right, top n rfl, inl.congr fun x inside => below x (.inl inside),
      inr.congr fun x inside => below x (.inr inside)⟩

theorem Same.refl (m : AvlMemory N) (n : N) : Same m m n := ⟨rfl, rfl, rfl⟩

theorem Same.hole {f : Frame N} (own : Same m m' f.here) : m'.read (.hole f) = m.read (.hole f) := by
  cases f with
  | left n r => exact own.left
  | right l n => exact own.right

theorem Same.other {f : Frame N} (own : Same m m' f.here) : m'.read (.other f) = m.read (.other f) := by
  cases f with
  | left n r => exact own.right
  | right l n => exact own.left

theorem Mount.congr {ctx : List (Frame N)} {top : Option N} (mount : m.Mount ctx top)
    (same : ∀ n ∈ around ctx, Same m m' n) (root : m'.root = m.root) : m'.Mount ctx top := by
  induction ctx generalizing top with
  | nil => exact root.trans mount
  | cons f rest ih =>
    obtain ⟨hole, other, up, sibling, outer⟩ := mount
    have own := same f.here (mem_around.mpr (.inl rfl))
    exact ⟨own.hole.trans hole, own.other.trans other, own.parent.trans up,
      sibling.congr fun n inside => same n (mem_around.mpr (.inr (.inl inside))),
      ih outer fun n inside => same n (mem_around.mpr (.inr (.inr inside)))⟩

theorem Mount.read {ctx : List (Frame N)} {top : Option N} (mount : m.Mount ctx top) : m.read (.of ctx) = top := by
  cases ctx with
  | nil => exact mount
  | cons f rest => exact mount.1

theorem Stands.fill {f : Frame N} {rest : List (Frame N)} {t : NodeTree N} (stands : m.Stands (f :: rest) t) :
    m.Stands rest (f.fill t) := by
  obtain ⟨⟨hole, other, up, sibling, outer⟩, shape⟩ := stands
  cases f with
  | left n r => exact ⟨outer, hole, other, up, shape, sibling⟩
  | right l n => exact ⟨outer, other, hole, up, sibling, shape⟩

theorem Stands.unfill {f : Frame N} {rest : List (Frame N)} {t : NodeTree N} (stands : m.Stands rest (f.fill t)) :
    m.Stands (f :: rest) t := by
  cases f with
  | left n r =>
    obtain ⟨outer, hole, other, up, shape, sibling⟩ := stands
    exact ⟨⟨hole, other, up, sibling, outer⟩, shape⟩
  | right l n =>
    obtain ⟨outer, other, hole, up, sibling, shape⟩ := stands
    exact ⟨⟨hole, other, up, sibling, outer⟩, shape⟩

theorem Stands.plug {ctx : List (Frame N)} {t : NodeTree N} (stands : m.Stands ctx t) : m.Stands [] (plug ctx t) := by
  induction ctx generalizing t with
  | nil => exact stands
  | cons f rest ih => exact ih stands.fill

theorem Stands.unplug {ctx : List (Frame N)} {t : NodeTree N} (stands : m.Stands [] (Lib.plug ctx t)) :
    m.Stands ctx t := by
  induction ctx generalizing t with
  | nil => exact stands
  | cons f rest ih => exact (ih stands).unfill

theorem Shape.inside {path : List (Frame N)} {parent : Option N} {t : NodeTree N}
    (shape : m.Shape parent (Lib.plug path t)) : ∃ p, m.Shape p t := by
  induction path generalizing t with
  | nil => exact ⟨parent, shape⟩
  | cons f rest ih =>
    obtain ⟨p, filled⟩ := ih (t := f.fill t) shape
    cases f with
    | left n r => exact ⟨_, filled.2.2.2.1⟩
    | right l n => exact ⟨_, filled.2.2.2.2⟩

theorem Shape.exchange {path : List (Frame N)} {parent : Option N} {t u : NodeTree N}
    (shape : m.Shape parent (Lib.plug path t)) (top : u.root = t.root)
    (inner : ∀ p, m.Shape p t → m'.Shape p u) (same : ∀ x ∈ around path, Same m m' x) :
    m'.Shape parent (Lib.plug path u) := by
  induction path generalizing t u with
  | nil => exact inner parent shape
  | cons f rest ih =>
    refine ih (t := f.fill t) (u := f.fill u) shape (by cases f <;> rfl) (fun p filled => ?_) fun x inside =>
      same x (mem_around.mpr (.inr (.inr inside)))
    have own := same f.here (mem_around.mpr (.inl rfl))
    have sibling (x : N) (inside : x ∈ f.sibling.inorder) := same x (mem_around.mpr (.inr (.inl inside)))
    cases f with
    | left n r =>
      obtain ⟨left, right, up, inl, inr⟩ := filled
      exact ⟨own.left.trans (left.trans top.symm), own.right.trans right, own.parent.trans up, inner _ inl,
        inr.congr sibling⟩
    | right l n =>
      obtain ⟨left, right, up, inl, inr⟩ := filled
      exact ⟨own.left.trans left, own.right.trans (right.trans top.symm), own.parent.trans up, inl.congr sibling,
        inner _ inr⟩

theorem Stands.into {path : List (Frame N)} {ctx : List (Frame N)} {t : NodeTree N}
    (stands : m.Stands ctx (Lib.plug path t)) : m.Stands (path ++ ctx) t := by
  induction path generalizing t with
  | nil => exact stands
  | cons f rest ih => exact (ih stands).unfill

theorem heightOf_root {t : NodeTree N} (sized : Sized m.height none t) : m.heightOf t.root = t.height := by
  cases t with
  | leaf => rfl
  | node l n r => exact sized.2.2 nofun

end shape

section writes
variable [DecidableEq N] (m : AvlMemory N) (n x : N) (v : Option N) (place : Place N)

@[simp] theorem setLeft_left : (m.setLeft n v).left x = if x = n then v else m.left x := Function.update_apply ..
@[simp] theorem setLeft_right : (m.setLeft n v).right = m.right := rfl
@[simp] theorem setLeft_parent : (m.setLeft n v).parent = m.parent := rfl
@[simp] theorem setLeft_height : (m.setLeft n v).height = m.height := rfl
@[simp] theorem setLeft_root : (m.setLeft n v).root = m.root := rfl

@[simp] theorem setRight_left : (m.setRight n v).left = m.left := rfl
@[simp] theorem setRight_right : (m.setRight n v).right x = if x = n then v else m.right x := Function.update_apply ..
@[simp] theorem setRight_parent : (m.setRight n v).parent = m.parent := rfl
@[simp] theorem setRight_height : (m.setRight n v).height = m.height := rfl
@[simp] theorem setRight_root : (m.setRight n v).root = m.root := rfl

@[simp] theorem setParent_left : (m.setParent n v).left = m.left := rfl
@[simp] theorem setParent_right : (m.setParent n v).right = m.right := rfl
@[simp] theorem setParent_parent : (m.setParent n v).parent x = if x = n then v else m.parent x :=
  Function.update_apply ..
@[simp] theorem setParent_height : (m.setParent n v).height = m.height := rfl
@[simp] theorem setParent_root : (m.setParent n v).root = m.root := rfl

@[simp] theorem setHeight_left (h : Nat) : (m.setHeight n h).left = m.left := rfl
@[simp] theorem setHeight_right (h : Nat) : (m.setHeight n h).right = m.right := rfl
@[simp] theorem setHeight_parent (h : Nat) : (m.setHeight n h).parent = m.parent := rfl
@[simp] theorem setHeight_height (h : Nat) : (m.setHeight n h).height x = if x = n then h else m.height x :=
  Function.update_apply ..
@[simp] theorem setHeight_root (h : Nat) : (m.setHeight n h).root = m.root := rfl

variable (child : Option N)

@[simp] theorem adopt_left : (m.adopt child v).left = m.left := by cases child <;> rfl
@[simp] theorem adopt_right : (m.adopt child v).right = m.right := by cases child <;> rfl
@[simp] theorem adopt_parent : (m.adopt child v).parent x = if child = some x then v else m.parent x := by
  cases child with
  | none => rfl
  | some c => simp [adopt, eq_comm]
@[simp] theorem adopt_height : (m.adopt child v).height = m.height := by cases child <;> rfl
@[simp] theorem adopt_root : (m.adopt child v).root = m.root := by cases child <;> rfl

@[simp] theorem assign_left : (m.assign place v).left x = if place = .left x then v else m.left x := by
  cases place <;> simp [assign, eq_comm]
@[simp] theorem assign_right : (m.assign place v).right x = if place = .right x then v else m.right x := by
  cases place <;> simp [assign, eq_comm]
@[simp] theorem assign_parent : (m.assign place v).parent = m.parent := by cases place <;> rfl
@[simp] theorem assign_height : (m.assign place v).height = m.height := by cases place <;> rfl
@[simp] theorem assign_root : (m.assign place v).root = if place = .root then v else m.root := by
  cases place <;> rfl

end writes

section places
variable {ctx : List (Frame N)} {x : N}

theorem place_outside (outside : x ∉ around ctx) : Place.of ctx ≠ .left x ∧ Place.of ctx ≠ .right x := by
  cases ctx with
  | nil => exact ⟨nofun, nofun⟩
  | cons f rest =>
    have apart : f.here ≠ x := fun same => outside (mem_around.mpr (.inl same.symm))
    cases f with
    | left n r => exact ⟨fun same => apart (Place.left.inj same), nofun⟩
    | right l n => exact ⟨nofun, fun same => apart (Place.right.inj same)⟩

variable [DecidableEq N] {m : AvlMemory N}

theorem assign_same (outside : x ∉ around ctx) (v : Option N) : Same m (m.assign (.of ctx) v) x := by
  obtain ⟨left, right⟩ := place_outside outside
  exact ⟨by simp [left], by simp [right], by simp⟩

theorem Mount.assign {old : Option N} (mount : m.Mount ctx old) (nodup : (around ctx).Nodup) (v : Option N) :
    (m.assign (.of ctx) v).Mount ctx v := by
  cases ctx with
  | nil => rfl
  | cons f rest =>
    obtain ⟨-, other, up, sibling, outer⟩ := mount
    have fresh := (List.nodup_cons.mp (nodup_around.mp nodup)).1
    have same (y : N) (inside : y ∈ f.sibling.inorder ++ around rest) : Same m (m.assign (.hole f) v) y := by
      have apart : f.here ≠ y := fun own => fresh (own ▸ inside)
      cases f with
      | left n r =>
        have differ : n ≠ y := apart
        exact ⟨by simp [Place.hole, differ], by simp [Place.hole], by simp⟩
      | right l n =>
        have differ : n ≠ y := apart
        exact ⟨by simp [Place.hole], by simp [Place.hole, differ], by simp⟩
    refine ⟨?_, ?_, by rw [Place.of, assign_parent]; exact up,
      sibling.congr fun y inside => same y (List.mem_append_left _ inside),
      outer.congr (fun y inside => same y (List.mem_append_right _ inside)) ?_⟩
    · cases f <;> simp [Place.of, Place.hole, AvlMemory.read]
    · rw [← other]
      cases f <;> simp [Place.of, Place.hole, Place.other, AvlMemory.read]
    · cases f <;> simp [Place.of, Place.hole]

theorem nodePlace_of {l r : NodeTree N} {n : N} (stands : m.Stands ctx (node l n r))
    (nodup : ((node l n r).inorder ++ around ctx).Nodup) : m.nodePlace n = .of ctx := by
  have up : m.parent n = above ctx := stands.shape.2.2.1
  cases ctx with
  | nil => simp only [nodePlace, up, above, List.head?_nil, Option.map_none, Place.of]
  | cons f rest =>
    have hole := stands.mount.1
    have other := stands.mount.2.1
    simp only [nodePlace, up, above, List.head?_cons, Option.map_some]
    cases f with
    | left p q => exact if_pos hole
    | right q p =>
      refine if_neg fun same => ?_
      have member : n ∈ q.inorder := root_mem (other.symm.trans same)
      refine (List.nodup_append.mp nodup).2.2 n (by simp) n ?_ rfl
      exact mem_around.mpr (.inr (.inl member))

end places

/-! ## Mirror images -/

def mirror (m : AvlMemory N) : AvlMemory N where
  left := m.right
  right := m.left
  parent := m.parent
  height := m.height
  root := m.root

theorem mirror_left (m : AvlMemory N) : m.mirror.left = m.right := rfl
theorem mirror_right (m : AvlMemory N) : m.mirror.right = m.left := rfl
theorem mirror_parent (m : AvlMemory N) : m.mirror.parent = m.parent := rfl
theorem mirror_height (m : AvlMemory N) : m.mirror.height = m.height := rfl
theorem mirror_heightOf (m : AvlMemory N) (v : Option N) : m.mirror.heightOf v = m.heightOf v := by cases v <;> rfl

def mirrorPlace : Place N → Place N
  | .root => .root
  | .left n => .right n
  | .right n => .left n

theorem of_mirror (ctx : List (Frame N)) : Place.of (ctx.map Frame.mirror) = mirrorPlace (Place.of ctx) := by
  cases ctx with
  | nil => rfl
  | cons f rest => cases f <;> rfl

theorem Shape.mirror {m : AvlMemory N} {parent : Option N} {t : NodeTree N} (shape : m.Shape parent t) :
    m.mirror.Shape parent t.mirror := by
  induction t generalizing parent with
  | leaf => trivial
  | node l n r ihl ihr =>
    obtain ⟨left, right, up, inl, inr⟩ := shape
    exact ⟨right.trans (root_mirror r).symm, left.trans (root_mirror l).symm, up, ihr inr, ihl inl⟩

theorem Mount.mirror {m : AvlMemory N} {ctx : List (Frame N)} {top : Option N} (mount : m.Mount ctx top) :
    m.mirror.Mount (ctx.map Frame.mirror) top := by
  induction ctx generalizing top with
  | nil => exact mount
  | cons f rest ih =>
    obtain ⟨hole, other, up, sibling, outer⟩ := mount
    have above : m.mirror.parent f.mirror.here = Lib.above (rest.map Frame.mirror) := by
      rw [f.here_mirror, above_mirror]
      exact up
    cases f with
    | left n r => exact ⟨hole, other.trans (root_mirror r).symm, above, sibling.mirror, ih outer⟩
    | right l n => exact ⟨hole, other.trans (root_mirror l).symm, above, sibling.mirror, ih outer⟩

theorem Stands.mirror {m : AvlMemory N} {ctx : List (Frame N)} {t : NodeTree N} (stands : m.Stands ctx t) :
    m.mirror.Stands (ctx.map Frame.mirror) t.mirror :=
  ⟨(root_mirror t).symm ▸ stands.mount.mirror, (above_mirror ctx).symm ▸ stands.shape.mirror⟩

end AvlMemory

end RtThread.Adt
