import RtThread.Adt.AvlRebalance

/-! Insertion and removal of the AVL tree: the writes of each and the passes of `util_avl_rebalance` behind them. -/

set_option autoImplicit false
namespace RtThread.Adt
open Lib NodeTree

namespace AvlMemory
variable {N : Type} {m : AvlMemory N} {ctx : List (Frame N)}

theorem Stands.top {t : NodeTree N} (stands : m.Stands [] t) : m.root = t.root := stands.mount

theorem Raised.of_plug {t u : NodeTree N} {m' : AvlMemory N} (avl : Avl m.height none (Lib.plug ctx t))
    (stands : m'.Stands ctx u) (nodup : (u.inorder ++ around ctx).Nodup) (own : Avl m'.height none u)
    (little : u.height ≤ t.height + 1 ∧ t.height ≤ u.height + 1)
    (outer : ∀ x ∈ around ctx, m'.height x = m.height x) : Raised m' none ctx u t.height := by
  obtain ⟨-, context⟩ := avl.unplug fun _ _ => nofun
  exact ⟨stands, nodup, own, little, context.congr outer⟩

variable [DecidableEq N]

theorem Holds.settle {stale : Option N} {nodes : List N} (holds : m.Holds stale nodes) (nodup : nodes.Nodup) {n : N}
    (inside : n ∈ nodes) (only : stale = none ∨ stale = some n) (fuel : Nat) (enough : nodes.length ≤ fuel) :
    ∃ m', m.rebalance fuel (some n) = some m' ∧ m'.Holds none nodes := by
  obtain ⟨t, stands, avl, rfl⟩ := holds
  obtain ⟨ctx, l, r, rfl⟩ := exists_plug inside
  have apart := nodup_plug.mp nodup
  have deep := length_plug ctx (node l n r)
  have outside (x : N) (elsewhere : x ≠ n) : some x ≠ stale := by
    rcases only with rfl | rfl
    · nofun
    · exact fun same => elsewhere (Option.some.inj same)
  simp only [inorder_node, List.nodup_append, List.nodup_cons, List.mem_append, List.mem_cons] at apart
  have clean (x : N) (outer : x ∈ around ctx) : some x ≠ stale :=
    outside x fun same => apart.2.2 n (.inr (.inl rfl)) x outer same.symm
  obtain ⟨own, context⟩ := avl.unplug clean
  obtain ⟨left, right, close⟩ := own.parts
  have climb : Climb m none ctx l n r (max l.height r.height + 1) := by
    refine ⟨stands.unplug, nodup_plug.mp nodup, left.exact (fun x inner => outside x ?_) none,
      right.exact (fun x inner => outside x ?_) none, near_same close, context, fun _ _ _ => rfl⟩
    · exact fun same => apart.1.2.2 x inner n (.inl rfl) same
    · rintro rfl
      exact apart.1.2.1.1 inner
  exact climb.rebalance fuel (by simp at deep; omega)

theorem Holds.settle_parent {nodes : List N} (holds : m.Holds none nodes) (nodup : nodes.Nodup) {n : N}
    (inside : n ∈ nodes) (fuel : Nat) (enough : nodes.length ≤ fuel) :
    ∃ m', m.rebalance fuel (m.parent n) = some m' ∧ m'.Holds none nodes := by
  obtain ⟨t, stands, avl, same⟩ := holds
  obtain ⟨ctx, l, r, rfl⟩ := exists_plug (same ▸ inside)
  have up : m.parent n = above ctx := stands.unplug.shape.2.2.1
  cases top : above ctx with
  | none => exact ⟨m, up.trans top ▸ rebalance_none m fuel, _, stands, avl, same⟩
  | some p =>
    rw [up.trans top]
    refine Holds.settle ⟨_, stands, avl, same⟩ nodup ?_ (.inl rfl) fuel enough
    have outer := above_mem top
    rw [← same, inorder_plug]
    simp only [around, List.mem_append] at outer ⊢
    tauto

section remove
variable {l : NodeTree N} {n : N}

attribute [local simp] raiseRight raiseLeft

theorem remove_left (stands : m.Stands ctx (node l n leaf)) (nodup : ((node l n leaf).inorder ++ around ctx).Nodup)
    (avl : Avl m.height none (Lib.plug ctx (node l n leaf))) (fuel : Nat) (enough : ctx.length ≤ fuel) :
    ∃ m', (m.raiseLeft n (.of ctx)).rebalance fuel ((m.raiseLeft n (.of ctx)).parent n) = some m' ∧
      m'.Holds none (Lib.plug ctx l).inorder := by
  obtain ⟨mount, left, -, up, inl, -⟩ := stands
  simp only [inorder_node, inorder_leaf, List.nodup_append, List.nodup_cons, List.mem_append, List.mem_cons,
    List.not_mem_nil, or_false] at nodup
  obtain ⟨⟨nodupL, -, apart⟩, around, outside⟩ := nodup
  have fresh : n ∉ Lib.around ctx := fun inside => outside n (.inr rfl) n inside rfl
  have place := place_outside fresh
  have axis : n ∉ l.inorder := fun inside => apart n inside n rfl rfl
  have still (x : N) : (m.raiseLeft n (.of ctx)).height x = m.height x := by simp
  have stands : (m.raiseLeft n (.of ctx)).Stands ctx l := by
    refine ⟨?_, ?_⟩
    · refine (mount.assign around l.root).congr (fun x inside => ?_) (by simp [place, left])
      have other : l.root ≠ some x := fun top => outside x (.inl (root_mem top)) x inside rfl
      constructor <;> simp [place, left, other]
    · refine inl.reparent nodupL (fun x inside => ?_) (fun x top => by simp [place, left, top, up])
        fun x inside top => by simp [place, left, top]
      have elsewhere := place_outside fun inner => outside x (.inl inside) x inner rfl
      constructor <;> simp [elsewhere]
  have raised : Raised (m.raiseLeft n (.of ctx)) none ctx l (node l n leaf).height := by
    refine .of_plug avl stands ?_ ?_ ?_ fun x _ => still x
    · exact List.nodup_append.mpr ⟨nodupL, around, fun x inside => outside x (.inl inside)⟩
    · exact (avl.unplug fun _ _ => nofun).1.parts.1.congr fun x _ => still x
    · simp only [height_node, height_leaf]
      omega
  have next : (m.raiseLeft n (.of ctx)).parent n = above ctx := by
    simp [place, left, root_outside axis, up]
  rw [next]
  exact raised.rebalance fuel enough

theorem remove_right {rr : NodeTree N} {c : N} (stands : m.Stands ctx (node l n (node leaf c rr)))
    (nodup : ((node l n (node leaf c rr)).inorder ++ around ctx).Nodup)
    (avl : Avl m.height none (Lib.plug ctx (node l n (node leaf c rr)))) (fuel : Nat)
    (enough : (Lib.plug ctx (node l c rr)).inorder.length ≤ fuel) :
    ∃ mid m', (m.raiseRight n c (.of ctx)).rebalance fuel (some c) = some mid ∧
      mid.rebalance fuel (mid.parent c) = some m' ∧ m'.Holds none (Lib.plug ctx (node l c rr)).inorder := by
  obtain ⟨mount, left, -, up, inl, -, right, -, -, inr⟩ := stands
  simp only [inorder_node, inorder_leaf, List.nil_append, List.nodup_append, List.nodup_cons, List.mem_append,
    List.mem_cons] at nodup
  have whole : ((node l c rr).inorder ++ around ctx).Nodup := by
    simp only [inorder_node, List.nodup_append, List.nodup_cons, List.mem_append, List.mem_cons]
    grind
  have differ : c ≠ n := by grind
  have freshN := place_outside (show n ∉ around ctx by grind)
  have freshC := place_outside (show c ∉ around ctx by grind)
  have apartN : l.root ≠ some n := root_outside (by grind)
  have apartC : l.root ≠ some c := root_outside (by grind)
  have still (x : N) : (m.raiseRight n c (.of ctx)).height x = m.height x := by simp
  have stands : (m.raiseRight n c (.of ctx)).Stands ctx (node l c rr) := by
    refine ⟨?_, ?_, ?_, ?_, ?_, ?_⟩
    · refine (mount.assign nodup.2.1 (some c)).congr (fun x inside => ?_) (by simp [freshN, left])
      have other : l.root ≠ some x := root_outside (by grind)
      have child : x ≠ c := by grind
      constructor <;> simp [freshN, left, other, child]
    · simp [freshN, left]
    · simp [freshC, right]
    · simp [freshN, left, apartN, up]
    · refine inl.reparent (by grind) (fun x inside => ?_) (fun x top => ?_) fun x inside top => ?_
      · have elsewhere := place_outside (show x ∉ around ctx by grind)
        have child : x ≠ c := by grind
        constructor <;> simp [elsewhere, child]
      · have child : x ≠ c := fun same => apartC (same ▸ top)
        simp [freshN, left, top, child]
      · have child : x ≠ c := by grind
        simp [freshN, left, top, child]
    · refine inr.congr fun x inside => ?_
      have elsewhere := place_outside (show x ∉ around ctx by grind)
      have child : x ≠ c := by grind
      have other : l.root ≠ some x := root_outside (by grind)
      constructor <;> simp [freshN, left, elsewhere, child, other]
  obtain ⟨own, -⟩ := avl.unplug fun _ _ => nofun
  obtain ⟨ownL, ownR, close⟩ := own.parts
  have ownRR := ownR.parts.2.1
  have low := ownR.parts.2.2.2
  have stored : m.height c = max 0 rr.height + 1 := ownR.sized.2.2 nofun
  simp only [height_node, height_leaf] at close low
  have left' := ownL.congr fun x _ => still x
  have right' := ownRR.congr fun x _ => still x
  have deep := length_plug ctx (node l c rr)
  simp only [inorder_node, List.length_append, List.length_cons] at deep
  have height : (node l n (node leaf c rr)).height = max l.height (max 0 rr.height + 1) + 1 := rfl
  by_cases level : l.height = rr.height
  · -- The height of `c` is right, and the first pass stops there although its tree is lower than that of `n`.
    have round := balance_close stands left' right' ⟨by omega, by omega⟩
    rw [still, stored, level, Nat.max_self, Nat.zero_max, if_pos rfl] at round
    have first : (m.raiseRight n c (.of ctx)).rebalance fuel (some c) = some (m.raiseRight n c (.of ctx)) := by
      cases fuel with
      | zero => omega
      | succ fuel =>
        rw [AvlMemory.rebalance, round]
        exact rebalance_none _ fuel
    have up : (m.raiseRight n c (.of ctx)).parent c = above ctx := stands.shape.2.2.1
    have raised : Raised (m.raiseRight n c (.of ctx)) none ctx (node l c rr) (node l n (node leaf c rr)).height := by
      refine .of_plug avl stands whole (left'.node right' ⟨by omega, by omega⟩ fun _ => ?_) ?_ fun x _ => still x
      · rw [still, stored]
        omega
      · rw [height, height_node]
        omega
    obtain ⟨m', second, holds⟩ := raised.rebalance fuel (by omega)
    exact ⟨_, m', first, up ▸ second, holds⟩
  · have climb : Climb (m.raiseRight n c (.of ctx)) none ctx l c rr (node l n (node leaf c rr)).height := by
      refine ⟨stands, whole, left', right', ?_, (avl.unplug fun _ _ => nofun).2.congr fun x _ => still x, ?_⟩
      · rw [height]
        unfold Near
        omega
      · intro _ _ same
        rw [still, stored] at same
        omega
    obtain ⟨mid, first, holds⟩ := climb.rebalance fuel (by omega)
    have inside : c ∈ (Lib.plug ctx (node l c rr)).inorder := by simp [inorder_plug]
    obtain ⟨m', second, last⟩ := holds.settle_parent (nodup_plug.mpr whole) inside fuel enough
    exact ⟨mid, m', first, second, last⟩

section successor
variable {sr : NodeTree N} {s : N} {q : N × NodeTree N} {path : List (N × NodeTree N)}

omit [DecidableEq N] in
theorem descend_first {parent : Option N} {t tl tr : NodeTree N} {x : N} (shape : m.Shape parent t)
    (here : t = node tl x tr) (fuel : Nat) (enough : t.height ≤ fuel) (sparent : N) :
    ∃ path s sr, t = Lib.plug (lefts path) (node leaf s sr) ∧
      m.descend fuel x sparent = some (s, (above (lefts path)).getD sparent) := by
  induction t generalizing parent tl x tr fuel sparent with
  | leaf => cases here
  | node l y r ihl ihr =>
    cases here
    obtain ⟨left, -, -, inl, -⟩ := shape
    cases fuel with
    | zero => simp at enough
    | succ fuel =>
      rw [height_node] at enough
      cases l with
      | leaf => exact ⟨[], y, r, rfl, by simp only [descend, left, root_leaf]; rfl⟩
      | node ll z lr =>
        obtain ⟨path, s, sr, same, found⟩ := ihl inl rfl fuel (by omega) y
        refine ⟨path ++ [(y, r)], s, sr, ?_, ?_⟩
        · have more : lefts (path ++ [(y, r)]) = lefts path ++ [.left y r] := List.map_append
          rw [more, plug_append, ← same]
          rfl
        · simp only [descend, left, root_node, found]
          cases path <;> rfl

section
variable (stands : m.Stands ctx (node l n (Lib.plug (lefts (q :: path)) (node leaf s sr)))) (nodup : ((node l n (Lib.plug (lefts (q :: path)) (node leaf s sr))).inorder ++ around ctx).Nodup)
include stands nodup

theorem raiseSuccessor_stands :
    (m.raiseSuccessor n s q.1 (.of ctx)).Stands ctx (node l s (Lib.plug (lefts (q :: path)) sr)) := by
  obtain ⟨mount, left, right, up, inl, inr⟩ := stands
  have order : after (lefts (q :: path)) = q.1 :: q.2.inorder ++ after (lefts path) := rfl
  simp only [inorder_node, inorder_lefts, order, inorder_leaf, List.nil_append, List.nodup_append, List.nodup_cons,
    List.mem_append, List.mem_cons] at nodup
  -- `r` loses its first node; its root is still below `n`
  have mid : ((m.setLeft q.1 sr.root).adopt sr.root (some q.1)).Shape (some n) (Lib.plug (lefts (q :: path)) sr) := by
    have whole : m.Shape (some n) (Lib.plug (lefts path) (node (node leaf s sr) q.1 q.2)) := inr
    show Shape _ (some n) (Lib.plug (lefts path) (node sr q.1 q.2))
    refine whole.exchange rfl ?_ ?_
    · intro p shape
      obtain ⟨-, other, parent, ⟨-, -, -, -, own⟩, sibling⟩ := shape
      have apart : sr.root ≠ some q.1 := root_outside (by grind)
      refine ⟨by simp, by simp [other], by simp [apart, parent], ?_, sibling.congr fun x inside => ?_⟩
      · refine own.reparent (by grind) (fun x inside => ?_) (fun x top => by simp [top]) fun x inside top => by simp [top]
        have differ : x ≠ q.1 := by grind
        simp [differ]
      · have differ : x ≠ q.1 := by grind
        have other : sr.root ≠ some x := root_outside (by grind)
        constructor <;> simp [differ, other]
    · intro x inside
      rw [around_lefts] at inside
      have own : x ≠ q.1 := by grind
      have other : sr.root ≠ some x := root_outside (by grind)
      constructor <;> simp [own, other]
  have below : ∃ p, m.Shape p (node leaf s sr) := Shape.inside inr
  obtain ⟨-, -, rightS, -⟩ := below
  have differ : n ≠ s ∧ n ≠ q.1 ∧ q.1 ≠ s := by grind
  have freshN := place_outside (show n ∉ around ctx by grind)
  have freshS := place_outside (show s ∉ around ctx by grind)
  have freshQ := place_outside (show q.1 ∉ around ctx by grind)
  have way {x : N} (top : (Lib.plug (lefts (q :: path)) sr).root = some x) : x = q.1 ∨ x ∈ after (lefts path) := by
    have root := root_lefts path (t := node sr q.1 q.2) top
    rwa [root_node, Option.some_inj, eq_comm] at root
  have same : (Lib.plug (lefts (q :: path)) (node leaf s sr)).root = (Lib.plug (lefts (q :: path)) sr).root :=
    root_plug (lefts path) (t := node (node leaf s sr) q.1 q.2) (u := node sr q.1 q.2) rfl
  have fields (x : N) :
      ((m.raiseSuccessor n s q.1 (.of ctx)).left x = if x = s then l.root else if x = q.1 then sr.root
        else if Place.of ctx = .left x then some s else m.left x) ∧
      ((m.raiseSuccessor n s q.1 (.of ctx)).right x = if x = s then (Lib.plug (lefts (q :: path)) sr).root
        else if Place.of ctx = .right x then some s else m.right x) ∧
      ((m.raiseSuccessor n s q.1 (.of ctx)).parent x = if x = s then above ctx else if sr.root = some x then some q.1
        else if (Lib.plug (lefts (q :: path)) sr).root = some x then some s
        else if l.root = some x then some s else m.parent x) := by
    have apart : l.root ≠ some n := root_outside (by grind)
    have apartS : sr.root ≠ some n := root_outside (by grind)
    have apartR : (Lib.plug (lefts (q :: path)) sr).root ≠ some n := fun top => by
      rcases way top with own | inside <;> grind
    refine ⟨?_, ?_, ?_⟩
    · simp [raiseSuccessor, freshN, freshS, differ, left, rightS]
    · simp [raiseSuccessor, freshN, right, same]
    · simp [raiseSuccessor, freshN, freshS, differ, left, right, rightS, same, apart, apartS, apartR, up]
  have root : (m.raiseSuccessor n s q.1 (.of ctx)).root = (m.assign (.of ctx) (some s)).root := by
    simp [raiseSuccessor]
  generalize m.raiseSuccessor n s q.1 (.of ctx) = m' at fields root ⊢
  have outer {x : N} (apart : x ≠ s) (other : x ≠ q.1) (top : (Lib.plug (lefts (q :: path)) sr).root ≠ some x)
      (topL : l.root ≠ some x) (topR : sr.root ≠ some x) : Same (m.assign (.of ctx) (some s)) m' x := by
    obtain ⟨left, right, parent⟩ := fields x
    exact ⟨by simp [left, apart, other], by simp [right, apart], by simp [parent, apart, top, topL, topR]⟩
  refine ⟨(mount.assign (by grind) (some s)).congr (fun x inside => ?_) root, ?_, ?_, ?_, ?_, ?_⟩
  · refine outer (by grind) (by grind) (fun top => ?_) (root_outside (by grind)) (root_outside (by grind))
    rcases way top with own | inner <;> grind
  · simp [fields s]
  · simp [fields s]
  · simp [fields s]
  · have elsewhere (x : N) (inside : x ∈ l.inorder) := place_outside (show x ∉ around ctx by grind)
    have apart (x : N) (inside : x ∈ l.inorder) : x ≠ s ∧ x ≠ q.1 ∧ sr.root ≠ some x ∧
        (Lib.plug (lefts (q :: path)) sr).root ≠ some x := by
      refine ⟨by grind, by grind, root_outside (by grind), fun top => ?_⟩
      rcases way top with own | inner <;> grind
    refine inl.reparent (by grind) (fun x inside => ?_) (fun x top => ?_) fun x inside top => ?_
    · simp [fields x, elsewhere x inside, apart x inside]
    · simp [fields x, apart x (root_mem top), top]
    · simp [fields x, apart x inside, top]
  · have spread {x : N} (inside : x ∈ (Lib.plug (lefts (q :: path)) sr).inorder) :
        x ∈ sr.inorder ∨ x = q.1 ∨ x ∈ q.2.inorder ∨ x ∈ after (lefts path) := by
      rw [inorder_lefts, order] at inside
      simpa using inside
    have elsewhere (x : N) (inside : x ∈ (Lib.plug (lefts (q :: path)) sr).inorder) :=
      place_outside (show x ∉ around ctx by have place := spread inside; grind)
    have apart (x : N) (inside : x ∈ (Lib.plug (lefts (q :: path)) sr).inorder) : x ≠ s ∧ l.root ≠ some x := by
      have place := spread inside
      exact ⟨by grind, root_outside (by grind)⟩
    refine mid.reparent ?_ (fun x inside => ?_) (fun x top => ?_) fun x inside top => ?_
    · rw [inorder_lefts, order]
      simp only [List.nodup_append, List.nodup_cons, List.mem_append, List.mem_cons]
      grind
    · simp [fields x, elsewhere x inside, apart x inside]
    · have inner : sr.root ≠ some x := root_outside (by rcases way top with own | inner <;> grind)
      simp [fields x, apart x (root_mem top), inner, top]
    · simp [fields x, apart x inside, top]

theorem remove_successor
    (avl : Avl m.height none (Lib.plug ctx (node l n (Lib.plug (lefts (q :: path)) (node leaf s sr))))) (fuel : Nat)
    (enough : (Lib.plug ctx (node l s (Lib.plug (lefts (q :: path)) sr))).inorder.length ≤ fuel) :
    ∃ mid m', (m.raiseSuccessor n s q.1 (.of ctx)).rebalance fuel (some q.1) = some mid ∧
      mid.rebalance fuel (some s) = some m' ∧
      m'.Holds none (Lib.plug ctx (node l s (Lib.plug (lefts (q :: path)) sr))).inorder := by
  have still (x : N) : (m.raiseSuccessor n s q.1 (.of ctx)).height x = m.height x := by simp [raiseSuccessor]
  have stands' : (m.raiseSuccessor n s q.1 (.of ctx)).Stands (lefts (q :: path) ++ .right l s :: ctx) sr :=
    Stands.into (Stands.unfill (f := .right l s) (raiseSuccessor_stands stands nodup))
  have same : Lib.plug (lefts (q :: path) ++ .right l s :: ctx) sr =
      Lib.plug ctx (node l s (Lib.plug (lefts (q :: path)) sr)) := plug_append ..
  have order : (Lib.plug ctx (node l s (Lib.plug (lefts (q :: path)) sr))).inorder =
      (Lib.plug ctx (node l n (Lib.plug (lefts (q :: path)) (node leaf s sr)))).inorder.erase n := by
    refine (erase_plug (nodup_plug.mpr nodup) ?_).symm
    simp [inorder_lefts]
  have whole : (Lib.plug ctx (node l s (Lib.plug (lefts (q :: path)) sr))).inorder.Nodup :=
    order ▸ (nodup_plug.mpr nodup).erase n
  simp only [inorder_node, inorder_lefts, inorder_leaf, List.nil_append, List.nodup_append, List.nodup_cons,
    List.mem_append, List.mem_cons] at nodup
  obtain ⟨own, outer⟩ := avl.unplug fun _ _ => nofun
  obtain ⟨ownL, ownR, close⟩ := own.parts
  obtain ⟨least, way⟩ := ownR.unplug fun _ _ => nofun
  -- The successor still has the height that it had at the bottom; it is lower than any it may get here.
  have away : Away (m.height s) (Lib.plug (lefts (q :: path)) (node leaf s sr)).height l.height := by
    have stored : m.height s = max 0 sr.height + 1 := least.sized.2.2 nofun
    have deep := height_lefts (q :: path) (node leaf s sr)
    simp only [height_node, height_leaf, List.length_cons] at deep
    intro changed above below same
    omega
  have context : Around m.height (some s) (lefts (q :: path) ++ .right l s :: ctx) (node leaf s sr).height := by
    refine (way.any (some s) fun x inside => ?_).append ⟨ownL, close.symm, fun differ => absurd rfl differ,
      fun _ => away, ?_⟩
    · rw [around_lefts] at inside
      have differ : x ≠ s := by grind
      exact fun same => differ (Option.some.inj same)
    · have height : (node l n (Lib.plug (lefts (q :: path)) (node leaf s sr))).height =
          max (Lib.plug (lefts (q :: path)) (node leaf s sr)).height l.height + 1 :=
        congrArg Nat.succ (Nat.max_comm ..)
      refine (height ▸ outer).any (some s) fun x inside => ?_
      have differ : x ≠ s := by grind
      exact fun same => differ (Option.some.inj same)
  have raised : Raised (m.raiseSuccessor n s q.1 (.of ctx)) (some s) (lefts (q :: path) ++ .right l s :: ctx) sr
      (node leaf s sr).height := by
    refine ⟨stands', nodup_plug.mp (same ▸ whole), least.parts.2.1.congr fun x _ => still x, ?_,
      context.congr fun x _ => still x⟩
    simp only [height_node, height_leaf]
    omega
  have deep := length_plug (lefts (q :: path) ++ .right l s :: ctx) sr
  rw [same] at deep
  obtain ⟨mid, first, holds⟩ := raised.rebalance fuel (by omega)
  rw [same] at holds
  have inside : s ∈ (Lib.plug ctx (node l s (Lib.plug (lefts (q :: path)) sr))).inorder := by simp [inorder_plug]
  obtain ⟨m', second, last⟩ := holds.settle whole inside (.inr rfl) fuel enough
  exact ⟨mid, m', first, second, last⟩

end

end successor

theorem remove_spec {nodes : List N} (holds : m.Holds none nodes) (nodup : nodes.Nodup) (inside : n ∈ nodes) (fuel : Nat)
    (enough : nodes.length ≤ fuel) : ∃ m', m.remove fuel n = some m' ∧ m'.Holds none (nodes.erase n) := by
  obtain ⟨t, stands, avl, rfl⟩ := holds
  obtain ⟨ctx, l, r, rfl⟩ := exists_plug inside
  have apart := nodup_plug.mp nodup
  have here := stands.unplug
  have place := nodePlace_of here apart
  have right : m.right n = r.root := here.shape.2.1
  have deep := length_plug ctx (node l n r)
  have shorter := List.length_erase_of_mem inside
  rw [inorder_node, List.length_append, List.length_cons] at deep
  have top : m.root ≠ none := by
    rw [stands.top]
    cases whole : Lib.plug ctx (node l n r) with
    | leaf => simp [whole] at inside
    | node => nofun
  obtain ⟨first, top⟩ := Option.ne_none_iff_exists'.mp top
  cases r with
  | leaf =>
    obtain ⟨m', done, last⟩ := remove_left here apart avl fuel (by omega)
    have rest := erase_plug (t := l) nodup (by simp)
    refine ⟨m', ?_, rest.symm ▸ last⟩
    rw [root_leaf] at right
    simp only [AvlMemory.remove, top, place, right]
    exact done
  | node rl c rr =>
    obtain ⟨-, -, -, -, left, -, -, inrl, -⟩ := here.shape
    rw [root_node] at right
    cases rl with
    | leaf =>
      have rest := erase_plug (t := node l c rr) nodup (by simp)
      obtain ⟨mid, m', first, second, last⟩ := remove_right here apart avl fuel (by
        rw [← rest]
        omega)
      refine ⟨m', ?_, rest.symm ▸ last⟩
      rw [root_leaf] at left
      simp only [AvlMemory.remove, top, place, right, left, first]
      exact second
    | node rll x rlr =>
      have fuelL : (node rll x rlr).height ≤ fuel := by
        have low := height_le_length (node rll x rlr)
        rw [inorder_node, List.length_append] at deep
        omega
      obtain ⟨path, s, sr, same, found⟩ := descend_first inrl rfl fuel fuelL c
      have parts : node (node rll x rlr) c rr = Lib.plug (lefts (path ++ [(c, rr)])) (node leaf s sr) := by
        have more : lefts (path ++ [(c, rr)]) = lefts path ++ [.left c rr] := List.map_append
        rw [more, plug_append, ← same]
        rfl
      obtain ⟨q, rest, way⟩ : ∃ q rest, path ++ [(c, rr)] = q :: rest := by
        cases path with
        | nil | cons q path => exact ⟨_, _, rfl⟩
      have parent : (above (lefts path)).getD c = q.1 := by
        cases path with
        | nil | cons q' path =>
          cases way
          rfl
      rw [parts, way] at here apart avl
      have order : (Lib.plug ctx (node l s (Lib.plug (lefts (q :: rest)) sr))).inorder =
          (Lib.plug ctx (node l n (node (node rll x rlr) c rr))).inorder.erase n := by
        refine (erase_plug nodup ?_).symm
        rw [parts, way, inorder_node, inorder_lefts, inorder_lefts]
        simp
      obtain ⟨mid, m', first, second, last⟩ := remove_successor here apart avl fuel (by rw [order]; omega)
      refine ⟨m', ?_, order.symm ▸ last⟩
      rw [root_node] at left
      simp only [AvlMemory.remove, top, place, right, left, found, parent, first]
      exact second

end remove

end AvlMemory

end RtThread.Adt

