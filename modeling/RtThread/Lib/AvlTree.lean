import Mathlib.Data.List.Nodup
import Mathlib.Data.Nat.Fib.Basic

/-! Binary trees and their contexts; trees whose nodes store their heights and whose sibling heights differ by at most
1, and the rotations that bring a tree back to that. -/

set_option autoImplicit false

namespace RtThread.Lib

inductive NodeTree (N : Type) where
  | leaf
  | node (left : NodeTree N) (n : N) (right : NodeTree N)
  deriving DecidableEq

inductive Frame (N : Type) where
  /-- the left one is missing -/
  | left (n : N) (right : NodeTree N)
  | right (left : NodeTree N) (n : N)
  deriving DecidableEq

variable {N : Type}

namespace NodeTree

def root : NodeTree N → Option N
  | leaf => none
  | node _ n _ => some n

def inorder : NodeTree N → List N
  | leaf => []
  | node l n r => l.inorder ++ n :: r.inorder

def height : NodeTree N → Nat
  | leaf => 0
  | node l _ r => max l.height r.height + 1

@[simp] theorem root_leaf : (leaf : NodeTree N).root = none := rfl

@[simp] theorem root_node (l : NodeTree N) (n : N) (r : NodeTree N) : (node l n r).root = some n := rfl

@[simp] theorem height_leaf : (leaf : NodeTree N).height = 0 := rfl

@[simp] theorem height_node (l : NodeTree N) (n : N) (r : NodeTree N) : (node l n r).height = max l.height r.height + 1 := rfl

@[simp] theorem inorder_leaf : (leaf : NodeTree N).inorder = [] := rfl

@[simp] theorem inorder_node (l : NodeTree N) (n : N) (r : NodeTree N) :
    (node l n r).inorder = l.inorder ++ n :: r.inorder := rfl

theorem root_mem {t : NodeTree N} {n : N} (top : t.root = some n) : n ∈ t.inorder := by
  cases t with
  | leaf => cases top
  | node l n r =>
    cases top
    exact List.mem_append_right _ List.mem_cons_self

theorem height_pos {t : NodeTree N} (some : 0 < t.height) : ∃ l n r, t = node l n r := by
  cases t with
  | leaf => exact absurd some (Nat.lt_irrefl 0)
  | node l n r => exact ⟨l, n, r, rfl⟩

end NodeTree

open NodeTree

namespace Frame

def fill : Frame N → NodeTree N → NodeTree N
  | .left n r, t => node t n r
  | .right l n, t => node l n t

def here : Frame N → N
  | .left n _ => n
  | .right _ n => n

def sibling : Frame N → NodeTree N
  | .left _ r => r
  | .right l _ => l

theorem height_fill (f : Frame N) (t : NodeTree N) : (f.fill t).height = max t.height f.sibling.height + 1 := by
  cases f with
  | left n r => rfl
  | right l n =>
    show max l.height t.height + 1 = _
    rw [Nat.max_comm]
    rfl

end Frame

def plug : List (Frame N) → NodeTree N → NodeTree N
  | [], t => t
  | f :: rest, t => plug rest (f.fill t)

def before : List (Frame N) → List N
  | [] => []
  | .left _ _ :: rest => before rest
  | .right l n :: rest => before rest ++ (l.inorder ++ [n])

def after : List (Frame N) → List N
  | [] => []
  | .left n r :: rest => n :: r.inorder ++ after rest
  | .right _ _ :: rest => after rest

theorem inorder_plug (ctx : List (Frame N)) (t : NodeTree N) :
    (plug ctx t).inorder = before ctx ++ t.inorder ++ after ctx := by
  induction ctx generalizing t with
  | nil => simp [plug, before, after]
  | cons f rest ih =>
    rw [plug, ih]
    cases f with
    | left n r | right l n => simp [Frame.fill, before, after]

theorem plug_append (ctx more : List (Frame N)) (t : NodeTree N) : plug (ctx ++ more) t = plug more (plug ctx t) := by
  induction ctx generalizing t with
  | nil => rfl
  | cons f rest ih => exact ih _

theorem root_plug (ctx : List (Frame N)) {t u : NodeTree N} (same : t.root = u.root) :
    (plug ctx t).root = (plug ctx u).root := by
  induction ctx generalizing t u with
  | nil => exact same
  | cons f rest ih => exact ih (by cases f <;> rfl)

theorem exists_plug {t : NodeTree N} {n : N} (inside : n ∈ t.inorder) : ∃ ctx l r, t = plug ctx (node l n r) := by
  induction t with
  | leaf => cases inside
  | node l m r ihl ihr =>
    rcases List.mem_append.mp inside with left | rest
    · obtain ⟨ctx, l', r', rfl⟩ := ihl left
      exact ⟨ctx ++ [.left m r], l', r', by rw [plug_append]; rfl⟩
    rcases List.mem_cons.mp rest with rfl | right
    · exact ⟨[], l, r, rfl⟩
    · obtain ⟨ctx, l', r', rfl⟩ := ihr right
      exact ⟨ctx ++ [.right l m], l', r', by rw [plug_append]; rfl⟩

theorem erase_plug [DecidableEq N] {ctx : List (Frame N)} {l r t : NodeTree N} {n : N}
    (nodup : (plug ctx (node l n r)).inorder.Nodup) (rest : t.inorder = l.inorder ++ r.inorder) :
    (plug ctx (node l n r)).inorder.erase n = (plug ctx t).inorder := by
  have split : (plug ctx (node l n r)).inorder = (before ctx ++ l.inorder) ++ n :: (r.inorder ++ after ctx) := by
    simp [inorder_plug]
  rw [split] at nodup ⊢
  have fresh : n ∉ before ctx ++ l.inorder := fun inside =>
    (List.nodup_append.mp nodup).2.2 n inside n List.mem_cons_self rfl
  rw [List.erase_append_right _ fresh, List.erase_cons_head, inorder_plug, rest]
  simp

theorem length_plug (ctx : List (Frame N)) (t : NodeTree N) :
    ctx.length + t.inorder.length ≤ (plug ctx t).inorder.length := by
  induction ctx generalizing t with
  | nil => exact Nat.le_of_eq (Nat.zero_add _)
  | cons f rest ih =>
    refine Nat.le_trans ?_ (ih (f.fill t))
    cases f <;> simp [Frame.fill] <;> omega

theorem height_le_length (t : NodeTree N) : t.height ≤ t.inorder.length := by
  induction t with
  | leaf => exact Nat.le_refl 0
  | node l n r ihl ihr =>
    simp only [height_node, inorder_node, List.length_append, List.length_cons]
    omega

def around (ctx : List (Frame N)) : List N := before ctx ++ after ctx

def above (ctx : List (Frame N)) : Option N := ctx.head?.map Frame.here

theorem mem_around {f : Frame N} {rest : List (Frame N)} {n : N} :
    n ∈ around (f :: rest) ↔ n = f.here ∨ n ∈ f.sibling.inorder ∨ n ∈ around rest := by
  cases f with
  | left m r | right l m => simp [around, before, after, Frame.here, Frame.sibling]; tauto

theorem nodup_around {f : Frame N} {rest : List (Frame N)} :
    (around (f :: rest)).Nodup ↔ (f.here :: f.sibling.inorder ++ around rest).Nodup := by
  refine List.Perm.nodup_iff ?_
  cases f with
  | left n r =>
    refine List.perm_middle.trans (.cons n ?_)
    show (before rest ++ (r.inorder ++ after rest)).Perm (r.inorder ++ (before rest ++ after rest))
    rw [← List.append_assoc, ← List.append_assoc]
    exact List.perm_append_comm.append_right _
  | right l n =>
    show (before rest ++ (l.inorder ++ [n]) ++ after rest).Perm (n :: l.inorder ++ (before rest ++ after rest))
    rw [← List.append_assoc (n :: l.inorder)]
    refine List.Perm.append_right _ (List.perm_append_comm.trans (.append_right _ ?_))
    exact List.perm_append_comm

theorem above_mem {ctx : List (Frame N)} {n : N} (top : above ctx = some n) : n ∈ around ctx := by
  cases ctx with
  | nil => cases top
  | cons f rest =>
    cases top
    exact mem_around.mpr (.inl rfl)

theorem nodup_plug {ctx : List (Frame N)} {t : NodeTree N} :
    (plug ctx t).inorder.Nodup ↔ (t.inorder ++ around ctx).Nodup := by
  rw [inorder_plug, around]
  refine List.Perm.nodup_iff ?_
  rw [← List.append_assoc]
  exact List.perm_append_comm.append_right _

def lefts (path : List (N × NodeTree N)) : List (Frame N) := path.map fun p => .left p.1 p.2

section
variable (path : List (N × NodeTree N))
include path

theorem before_lefts (rest : List (Frame N)) :
    before (lefts path ++ rest) = before rest := by
  induction path with
  | nil => rfl
  | cons p path ih => exact ih

theorem around_lefts : around (lefts path) = after (lefts path) := by
  have none := before_lefts path []
  rw [List.append_nil] at none
  rw [around, none]
  rfl

theorem inorder_lefts (t : NodeTree N) :
    (plug (lefts path) t).inorder = t.inorder ++ after (lefts path) := by
  have none := before_lefts path []
  rw [List.append_nil] at none
  rw [inorder_plug, none]
  rfl

theorem root_lefts {t : NodeTree N} {x : N} (top : (plug (lefts path) t).root = some x) :
    t.root = some x ∨ x ∈ after (lefts path) := by
  induction path generalizing t with
  | nil => exact .inl top
  | cons p path ih =>
    rcases ih (t := node t p.1 p.2) top with own | way
    · exact .inr (Option.some.inj own ▸ List.mem_cons_self)
    · exact .inr (List.mem_cons_of_mem _ (List.mem_append_right _ way))

theorem height_lefts (t : NodeTree N) :
    t.height + path.length ≤ (plug (lefts path) t).height := by
  induction path generalizing t with
  | nil => exact Nat.le_refl _
  | cons p path ih =>
    have step := ih (node t p.1 p.2)
    rw [height_node] at step
    show t.height + (path.length + 1) ≤ (plug (lefts path) (node t p.1 p.2)).height
    omega

end

/-! ## Mirror images -/

namespace NodeTree

def mirror : NodeTree N → NodeTree N
  | leaf => leaf
  | node l n r => node r.mirror n l.mirror

@[simp] theorem mirror_mirror (t : NodeTree N) : t.mirror.mirror = t := by
  induction t with
  | leaf => rfl
  | node l n r ihl ihr => rw [mirror, mirror, ihl, ihr]

@[simp] theorem root_mirror (t : NodeTree N) : t.mirror.root = t.root := by
  cases t <;> rfl

@[simp] theorem height_mirror (t : NodeTree N) : t.mirror.height = t.height := by
  induction t with
  | leaf => rfl
  | node l n r ihl ihr => rw [mirror, height_node, height_node, ihl, ihr, Nat.max_comm]

@[simp] theorem inorder_mirror (t : NodeTree N) : t.mirror.inorder = t.inorder.reverse := by
  induction t with
  | leaf => rfl
  | node l n r ihl ihr => simp [mirror, ihl, ihr]

end NodeTree

def Frame.mirror : Frame N → Frame N
  | .left n r => .right r.mirror n
  | .right l n => .left n l.mirror

@[simp] theorem Frame.mirror_mirror (f : Frame N) : f.mirror.mirror = f := by
  cases f <;> simp [Frame.mirror]

@[simp] theorem Frame.here_mirror (f : Frame N) : f.mirror.here = f.here := by
  cases f <;> rfl

theorem Frame.sibling_mirror (f : Frame N) : f.mirror.sibling = f.sibling.mirror := by
  cases f <;> rfl

@[simp] theorem above_mirror (ctx : List (Frame N)) : above (ctx.map Frame.mirror) = above ctx := by
  cases ctx with
  | nil => rfl
  | cons f rest => exact congrArg some f.here_mirror

theorem mem_around_mirror {ctx : List (Frame N)} {n : N} : n ∈ around (ctx.map Frame.mirror) ↔ n ∈ around ctx := by
  induction ctx with
  | nil => rfl
  | cons f rest ih =>
    rw [List.map_cons, mem_around, mem_around, ih, f.here_mirror, f.sibling_mirror, inorder_mirror, List.mem_reverse]

theorem plug_mirror (ctx : List (Frame N)) (t : NodeTree N) :
    (plug ctx t).mirror = plug (ctx.map Frame.mirror) t.mirror := by
  induction ctx generalizing t with
  | nil => rfl
  | cons f rest ih =>
    rw [plug, ih, List.map_cons, plug]
    cases f <;> rfl

theorem nodup_mirror {ctx : List (Frame N)} {t : NodeTree N} (nodup : (t.inorder ++ around ctx).Nodup) :
    (t.mirror.inorder ++ around (ctx.map Frame.mirror)).Nodup := by
  rw [← nodup_plug, ← plug_mirror, inorder_mirror, List.nodup_reverse, nodup_plug]
  exact nodup

/-! ## Balance -/

/-- Sibling heights differ by at most 1. -/
def Balanced : NodeTree N → Prop
  | leaf => True
  | node l _ r => Balanced l ∧ Balanced r ∧ l.height ≤ r.height + 1 ∧ r.height ≤ l.height + 1

/-- A balanced tree of a height has at least as many nodes as Fibonacci numbers tell. -/
theorem Balanced.fib_le {t : NodeTree N} (balanced : Balanced t) : Nat.fib (t.height + 2) ≤ t.inorder.length + 1 := by
  induction t with
  | leaf => exact Nat.le_refl 1
  | node l n r ihl ihr =>
    obtain ⟨left, right, near, near'⟩ := balanced
    have less := ihl left
    have more := ihr right
    have step := @Nat.fib_add_two (max l.height r.height + 1)
    have low := Nat.fib_mono (show max l.height r.height + 1 ≤ min l.height r.height + 2 by omega)
    rw [height_node, inorder_node, List.length_append, List.length_cons, step]
    rcases Nat.le_total l.height r.height with order | order <;>
      simp only [max_eq_left order, max_eq_right order, min_eq_left order, min_eq_right order, Nat.add_assoc,
        Nat.reduceAdd] at low less more ⊢ <;> omega

/-- Each node stores its height, except perhaps the node `stale`. -/
def Sized (stored : N → Nat) (stale : Option N) : NodeTree N → Prop
  | leaf => True
  | node l n r =>
    Sized stored stale l ∧ Sized stored stale r ∧ (some n ≠ stale → stored n = max l.height r.height + 1)

structure Avl (stored : N → Nat) (stale : Option N) (t : NodeTree N) : Prop where
  balanced : Balanced t
  sized : Sized stored stale t

section sized
variable {stored stored' : N → Nat} {stale : Option N} {t : NodeTree N}

theorem Sized.congr (sized : Sized stored stale t) (same : ∀ n ∈ t.inorder, stored' n = stored n) :
    Sized stored' stale t := by
  induction t with
  | leaf => trivial
  | node l n r ihl ihr =>
    refine ⟨ihl sized.1 fun m inside => same m (List.mem_append_left _ inside),
      ihr sized.2.1 fun m inside => same m (List.mem_append_right _ (List.mem_cons_of_mem _ inside)), fun exact => ?_⟩
    rw [same n (List.mem_append_right _ List.mem_cons_self)]
    exact sized.2.2 exact

theorem Avl.congr (avl : Avl stored stale t) (same : ∀ n ∈ t.inorder, stored' n = stored n) : Avl stored' stale t :=
  ⟨avl.balanced, avl.sized.congr same⟩

theorem Sized.exact (sized : Sized stored stale t) (outside : ∀ n ∈ t.inorder, some n ≠ stale)
    (other : Option N) : Sized stored other t := by
  induction t with
  | leaf => trivial
  | node l n r ihl ihr =>
    refine ⟨ihl sized.1 fun m inside => outside m (List.mem_append_left _ inside),
      ihr sized.2.1 fun m inside => outside m (List.mem_append_right _ (List.mem_cons_of_mem _ inside)), fun _ => ?_⟩
    exact sized.2.2 (outside n (List.mem_append_right _ List.mem_cons_self))

theorem Avl.exact (avl : Avl stored stale t) (outside : ∀ n ∈ t.inorder, some n ≠ stale) (other : Option N) :
    Avl stored other t :=
  ⟨avl.balanced, avl.sized.exact outside other⟩

theorem Avl.any (avl : Avl stored none t) (other : Option N) : Avl stored other t := avl.exact (fun _ _ => nofun) other

theorem Avl.leaf : Avl stored stale (leaf : NodeTree N) := ⟨trivial, trivial⟩

theorem Avl.node {l r : NodeTree N} {n : N} (left : Avl stored stale l) (right : Avl stored stale r)
    (close : l.height ≤ r.height + 1 ∧ r.height ≤ l.height + 1)
    (own : some n ≠ stale → stored n = max l.height r.height + 1) : Avl stored stale (.node l n r) :=
  ⟨⟨left.balanced, right.balanced, close⟩, left.sized, right.sized, own⟩

theorem Avl.parts {l r : NodeTree N} {n : N} (avl : Avl stored stale (.node l n r)) :
    Avl stored stale l ∧ Avl stored stale r ∧ l.height ≤ r.height + 1 ∧ r.height ≤ l.height + 1 :=
  ⟨⟨avl.balanced.1, avl.sized.1⟩, ⟨avl.balanced.2.1, avl.sized.2.1⟩, avl.balanced.2.2⟩

theorem Balanced.mirror (balanced : Balanced t) : Balanced t.mirror := by
  induction t with
  | leaf => trivial
  | node l n r ihl ihr =>
    obtain ⟨left, right, close⟩ := balanced
    refine ⟨ihr right, ihl left, ?_⟩
    rw [height_mirror, height_mirror]
    exact close.symm

theorem Sized.mirror (sized : Sized stored stale t) : Sized stored stale t.mirror := by
  induction t with
  | leaf => trivial
  | node l n r ihl ihr =>
    obtain ⟨left, right, own⟩ := sized
    refine ⟨ihr right, ihl left, fun exact => ?_⟩
    rw [height_mirror, height_mirror, Nat.max_comm]
    exact own exact

theorem Avl.mirror (avl : Avl stored stale t) : Avl stored stale t.mirror := ⟨avl.balanced.mirror, avl.sized.mirror⟩

end sized

/-! ## Contexts -/

def Away (stored height sibling : Nat) : Prop :=
  ∀ changed, changed ≤ height + 1 → height ≤ changed + 1 → stored ≠ max changed sibling + 1

def Around (stored : N → Nat) (stale : Option N) : List (Frame N) → Nat → Prop
  | [], _ => True
  | f :: rest, height =>
    Avl stored none f.sibling ∧ (height ≤ f.sibling.height + 1 ∧ f.sibling.height ≤ height + 1) ∧
      (some f.here ≠ stale → stored f.here = max height f.sibling.height + 1) ∧
      (some f.here = stale → Away (stored f.here) height f.sibling.height) ∧
      Around stored stale rest (max height f.sibling.height + 1)

section around
variable {stored stored' : N → Nat} {stale : Option N}

theorem Avl.fill {f : Frame N} {t : NodeTree N} (avl : Avl stored stale t) (sibling : Avl stored stale f.sibling)
    (close : t.height ≤ f.sibling.height + 1 ∧ f.sibling.height ≤ t.height + 1)
    (own : some f.here ≠ stale → stored f.here = max t.height f.sibling.height + 1) :
    Avl stored stale (f.fill t) := by
  cases f with
  | left n r => exact avl.node sibling close own
  | right l n => exact sibling.node avl close.symm fun exact => (own exact).trans (congrArg Nat.succ (Nat.max_comm ..))

theorem Avl.plug {ctx : List (Frame N)} {t : NodeTree N} (avl : Avl stored stale t)
    (context : Around stored stale ctx t.height) : Avl stored stale (plug ctx t) := by
  induction ctx generalizing t with
  | nil => exact avl
  | cons f rest ih =>
    obtain ⟨sibling, close, own, -, outer⟩ := context
    exact ih (avl.fill (sibling.any stale) close own) (f.height_fill t ▸ outer)

theorem Around.append {path rest : List (Frame N)} {t : NodeTree N} (inner : Around stored stale path t.height)
    (outer : Around stored stale rest (Lib.plug path t).height) : Around stored stale (path ++ rest) t.height := by
  induction path generalizing t with
  | nil => exact outer
  | cons f path ih =>
    obtain ⟨sibling, close, own, away, more⟩ := inner
    exact ⟨sibling, close, own, away, f.height_fill t ▸ ih (f.height_fill t ▸ more) outer⟩

theorem Around.any {ctx : List (Frame N)} {height : Nat} (context : Around stored none ctx height) (other : Option N)
    (outside : ∀ n ∈ around ctx, some n ≠ other) : Around stored other ctx height := by
  induction ctx generalizing height with
  | nil => trivial
  | cons f rest ih =>
    obtain ⟨sibling, close, own, -, outer⟩ := context
    exact ⟨sibling, close, fun _ => own nofun, fun same => absurd same (outside f.here (mem_around.mpr (.inl rfl))),
      ih outer fun n inside => outside n (mem_around.mpr (.inr (.inr inside)))⟩

theorem Around.congr {ctx : List (Frame N)} {height : Nat} (context : Around stored stale ctx height)
    (same : ∀ n ∈ around ctx, stored' n = stored n) : Around stored' stale ctx height := by
  induction ctx generalizing height with
  | nil => trivial
  | cons f rest ih =>
    obtain ⟨sibling, close, own, away, outer⟩ := context
    have here := same f.here (mem_around.mpr (.inl rfl))
    refine ⟨sibling.congr fun n inside => same n (mem_around.mpr (.inr (.inl inside))), close, ?_, ?_,
      ih outer fun n inside => same n (mem_around.mpr (.inr (.inr inside)))⟩
    · rwa [here]
    · rwa [here]

theorem Avl.unplug {ctx : List (Frame N)} {t : NodeTree N} (avl : Avl stored stale (Lib.plug ctx t))
    (outside : ∀ n ∈ around ctx, some n ≠ stale) :
    Avl stored stale t ∧ Around stored none ctx t.height := by
  induction ctx generalizing t with
  | nil => exact ⟨avl, trivial⟩
  | cons f rest ih =>
    have apart := outside f.here (mem_around.mpr (.inl rfl))
    have siblings (n : N) (inside : n ∈ f.sibling.inorder) := outside n (mem_around.mpr (.inr (.inl inside)))
    obtain ⟨inner, outer⟩ := ih avl fun n inside => outside n (mem_around.mpr (.inr (.inr inside)))
    rw [f.height_fill] at outer
    cases f with
    | left n r =>
      obtain ⟨left, right, close⟩ := inner.parts
      exact ⟨left, right.exact siblings none, close, fun _ => inner.sized.2.2 apart, nofun, outer⟩
    | right l n =>
      obtain ⟨left, right, close⟩ := inner.parts
      refine ⟨right, left.exact siblings none, close.symm, fun _ => ?_, nofun, outer⟩
      exact (inner.sized.2.2 apart).trans (congrArg Nat.succ (Nat.max_comm ..))

end around

/-- The subtrees of a node are out of balance by 2 at most, and the height that the node had fits them: it is that of a
balanced node one of whose subtrees was by 1 higher or lower. -/
def Near (left right height : Nat) : Prop :=
  (left ≤ right + 1 ∧ right ≤ left + 1 ∧ max left right ≤ height ∧ height ≤ max left right + 2) ∨
    (left = right + 2 ∧ (height = left ∨ height = left + 1)) ∨ (right = left + 2 ∧ (height = right ∨ height = right + 1))

theorem Near.symm {left right height : Nat} (near : Near left right height) : Near right left height := by
  unfold Near at *
  omega

theorem near_change {height changed sibling : Nat} (close : height ≤ sibling + 1 ∧ sibling ≤ height + 1)
    (little : changed ≤ height + 1 ∧ height ≤ changed + 1) : Near changed sibling (max height sibling + 1) := by
  unfold Near
  omega

theorem near_same {left right : Nat} (close : left ≤ right + 1 ∧ right ≤ left + 1) :
    Near left right (max left right + 1) := by
  unfold Near
  omega

end RtThread.Lib
