import RtThread.Adt.AvlCalls
import RtThread.Lib.Transition
import Mathlib.Data.List.Perm.Basic

/-! The AVL tree over whole runs: insertion at the place of a key, removal, and the way through the tree. -/

set_option autoImplicit false
namespace RtThread.Adt
open Lib NodeTree

namespace AvlMemory
variable {N K : Type} {m : AvlMemory N} {ctx : List (Frame N)}

section insert
variable [LinearOrder K] {key : N → K}

def Ascending (key : N → K) (nodes : List N) : Prop := nodes.Pairwise fun a b => key a < key b

theorem Ascending.nodup {nodes : List N} (ascending : Ascending key nodes) : nodes.Nodup := by
  refine List.Pairwise.imp ?_ ascending
  rintro a b less rfl
  exact lt_irrefl _ less

theorem search_spec {t : NodeTree N} (stands : m.Stands ctx t) (ascending : Ascending key (plug ctx t).inorder) (k : K)
    (smaller : ∀ x ∈ before ctx, key x < k) (larger : ∀ x ∈ after ctx, k < key x) (fuel : Nat)
    (enough : t.height ≤ fuel) :
    (m.search key k fuel (above ctx) (.of ctx) = some none ∧ ∃ x ∈ (plug ctx t).inorder, key x = k) ∨
    ∃ ctx', m.search key k fuel (above ctx) (.of ctx) = some (some (above ctx', .of ctx')) ∧
      plug ctx t = plug ctx' leaf ∧ m.Stands ctx' leaf ∧ (∀ x ∈ before ctx', key x < k) ∧
      ∀ x ∈ after ctx', k < key x := by
  induction t generalizing ctx fuel with
  | leaf =>
    refine .inr ⟨ctx, ?_, rfl, stands, smaller, larger⟩
    have empty : m.read (.of ctx) = none := stands.mount.read
    cases fuel <;> simp only [search, empty]
  | node l n r ihl ihr =>
    have here : m.read (.of ctx) = some n := stands.mount.read
    cases fuel with
    | zero => simp at enough
    | succ fuel =>
      rw [height_node] at enough
      have parts := ascending
      rw [inorder_plug, inorder_node] at parts
      simp only [Ascending, List.pairwise_append, List.pairwise_cons, List.mem_append, List.mem_cons] at parts
      obtain ⟨⟨-, ⟨-, ⟨right, -⟩, left⟩, -⟩, -, -⟩ := parts
      rcases lt_trichotomy k (key n) with below | same | beyond
      · have found : m.search key k (fuel + 1) (above ctx) (.of ctx) = m.search key k fuel (some n) (.left n) := by
          rw [search, here]
          simp only [if_pos below]
        rw [found]
        have inner : m.Stands (.left n r :: ctx) l := stands.unfill
        refine ihl inner ascending smaller (fun x inside => ?_) fuel (by omega)
        rcases List.mem_cons.mp inside with rfl | inside
        · exact below
        rcases List.mem_append.mp inside with inner | outer
        · exact lt_trans below (right x inner)
        · exact larger x outer
      · refine .inl ⟨?_, n, by simp [inorder_plug], same.symm⟩
        rw [search, here]
        simp only [gt_iff_lt, if_neg (not_lt_of_ge (le_of_eq same.symm)), if_neg (not_lt_of_ge (le_of_eq same))]
      · have found : m.search key k (fuel + 1) (above ctx) (.of ctx) = m.search key k fuel (some n) (.right n) := by
          rw [search, here]
          simp only [gt_iff_lt, if_neg (not_lt_of_gt beyond), if_pos beyond]
        rw [found]
        have inner : m.Stands (.right l n :: ctx) r := stands.unfill
        refine ihr inner ascending (fun x inside => ?_) larger fuel (by omega)
        rcases List.mem_append.mp inside with outer | inside
        · exact smaller x outer
        rcases List.mem_append.mp inside with inner | own
        · exact lt_trans (left x inner n (.inl rfl)) beyond
        · exact List.mem_singleton.mp own ▸ beyond

variable [DecidableEq N]

theorem link_stands {x : N} (stands : m.Stands ctx leaf) (fresh : x ∉ around ctx) (nodup : (around ctx).Nodup) :
    (m.link x (above ctx) (.of ctx)).Stands ctx (node leaf x leaf) := by
  have place := place_outside fresh
  refine ⟨(stands.mount.assign nodup (some x)).congr (fun y inside => ?_) (by simp [link]), by simp [link, place],
    by simp [link, place], by simp [link], trivial, trivial⟩
  have differ : y ≠ x := fun same => fresh (same ▸ inside)
  constructor <;> simp [link, differ]

theorem insert_spec {nodes : List N} (holds : m.Holds none nodes) (ascending : Ascending key nodes) (x : N) (fuel : Nat)
    (enough : nodes.length ≤ fuel) :
    (m.insert key fuel x = some (m, false) ∧ ∃ y ∈ nodes, key y = key x) ∨
    ∃ m' pre post, m.insert key fuel x = some (m', true) ∧ nodes = pre ++ post ∧ m'.Holds none (pre ++ x :: post) ∧
      (∀ y ∈ pre, key y < key x) ∧ ∀ y ∈ post, key x < key y := by
  obtain ⟨t, stands, avl, rfl⟩ := holds
  have nothing (x : N) : x ∉ (before [] : List N) ∧ x ∉ (after [] : List N) := ⟨nofun, nofun⟩
  have found := search_spec stands ascending (key x) (fun x inside => absurd inside (nothing x).1)
    (fun x inside => absurd inside (nothing x).2) fuel (Nat.le_trans (height_le_length t) enough)
  rcases found with ⟨found, there⟩ | ⟨ctx, found, same, here, smaller, larger⟩
  · refine .inl ⟨?_, there⟩
    have found : m.search key (key x) fuel none .root = some none := found
    simp only [insert, found]
  · have found : m.search key (key x) fuel none .root = some (some (above ctx, .of ctx)) := found
    have same : t = plug ctx leaf := same
    subst same
    have nodup : (around ctx).Nodup := (List.nodup_append.mp (nodup_plug.mp ascending.nodup)).2.1
    have fresh : x ∉ around ctx := by
      intro inside
      rcases List.mem_append.mp inside with front | back
      · exact lt_irrefl _ (smaller x front)
      · exact lt_irrefl _ (larger x back)
    have other (y : N) (inside : y ∈ around ctx) : (m.link x (above ctx) (.of ctx)).height y = m.height y := by
      have differ : y ≠ x := fun same => fresh (same ▸ inside)
      simp [link, differ]
    have raised : Raised (m.link x (above ctx) (.of ctx)) none ctx (node leaf x leaf) (leaf : NodeTree N).height := by
      refine .of_plug avl (link_stands here fresh nodup) ?_ (Avl.leaf.node .leaf ⟨Nat.zero_le _, Nat.zero_le _⟩ fun _ => ?_)
        ⟨Nat.le_refl _, Nat.zero_le _⟩ other
      · exact List.nodup_cons.mpr ⟨fresh, nodup⟩
      · simp [link]
    obtain ⟨m', done, holds⟩ := raised.rebalance fuel (by
      have deep := length_plug ctx (leaf : NodeTree N)
      omega)
    refine .inr ⟨m', before ctx, after ctx, ?_, by simp [inorder_plug], ?_, smaller, larger⟩
    · simp only [insert, found, done, Option.map_some]
    · have order : (plug ctx (node leaf x leaf)).inorder = before ctx ++ x :: after ctx := by simp [inorder_plug]
      exact order ▸ holds

end insert

/-! ## The way through the tree -/

section traversal

theorem leftmost_spec {parent : Option N} {l r : NodeTree N} {n : N} (shape : m.Shape parent (node l n r)) (fuel : Nat)
    (enough : (node l n r).height ≤ fuel) : m.leftmost fuel n = (node l n r).inorder.head? := by
  induction l generalizing parent n r fuel with
  | leaf =>
    obtain ⟨left, -⟩ := shape
    cases fuel with
    | zero => simp at enough
    | succ fuel => simp [leftmost, left]
  | node ll c lr ihl ihr =>
    obtain ⟨left, -, -, inl, -⟩ := shape
    cases fuel with
    | zero => simp at enough
    | succ fuel =>
      rw [height_node] at enough
      rw [root_node] at left
      have next := ihl inl fuel (by omega)
      simp only [leftmost, left, next]
      cases first : ll.inorder <;> simp [first]

variable [DecidableEq N]

theorem upFromRight_spec {l r : NodeTree N} {n : N} (stands : m.Stands ctx (node l n r))
    (nodup : ((node l n r).inorder ++ around ctx).Nodup) (fuel : Nat) (enough : ctx.length < fuel) :
    m.upFromRight fuel n = some (after ctx).head? := by
  induction ctx generalizing l n r fuel with
  | nil =>
    have up : m.parent n = none := stands.shape.2.2.1
    cases fuel with
    | zero => cases enough
    | succ fuel => simp only [upFromRight, up, after, List.head?_nil]
  | cons f rest ih =>
    have up : m.parent n = some f.here := stands.shape.2.2.1
    cases fuel with
    | zero => cases enough
    | succ fuel =>
      have filled := stands.fill
      have still : ((f.fill (node l n r)).inorder ++ around rest).Nodup :=
        nodup_plug.mp (show (plug (f :: rest) (node l n r)).inorder.Nodup from nodup_plug.mpr nodup)
      cases f with
      | left p pr =>
        have other : m.right p = pr.root := stands.mount.2.1
        have apart : m.right p ≠ some n := by
          rw [other]
          refine root_outside fun inside => (List.nodup_append.mp nodup).2.2 n (by simp) n ?_ rfl
          exact mem_around.mpr (.inr (.inl inside))
        simp only [upFromRight, up, Frame.here, if_neg apart, after]
        rfl
      | right pl p =>
        have hole : m.right p = some n := stands.mount.1
        have next := ih filled still fuel (Nat.lt_of_succ_lt_succ enough)
        simp only [upFromRight, up, Frame.here, if_pos hole, after]
        exact next

theorem next_spec {l r : NodeTree N} {n : N} (stands : m.Stands ctx (node l n r))
    (nodup : ((node l n r).inorder ++ around ctx).Nodup) (fuel : Nat)
    (enough : (plug ctx (node l n r)).inorder.length < fuel) :
    m.next fuel n = some (r.inorder ++ after ctx).head? := by
  have right : m.right n = r.root := stands.shape.2.1
  have deep := length_plug ctx (node l n r)
  rw [inorder_node, List.length_append, List.length_cons] at deep
  cases r with
  | leaf =>
    rw [root_leaf] at right
    simp only [next, right]
    exact upFromRight_spec stands nodup fuel (by omega)
  | node rl c rr =>
    have low := height_le_length (node rl c rr)
    have first := leftmost_spec stands.shape.2.2.2.2 fuel (by omega)
    rw [root_node] at right
    simp only [next, right, first]
    cases head : rl.inorder <;> simp [head]

omit [DecidableEq N] in
theorem mirror_rightmost (fuel : Nat) (n : N) : m.rightmost fuel n = m.mirror.leftmost fuel n := by
  induction fuel generalizing n with
  | zero => rfl
  | succ fuel ih => simp only [rightmost, leftmost, mirror_left, ih]

theorem mirror_upFromLeft (fuel : Nat) (n : N) : m.upFromLeft fuel n = m.mirror.upFromRight fuel n := by
  induction fuel generalizing n with
  | zero => rfl
  | succ fuel ih =>
    simp only [upFromLeft, upFromRight, mirror_right, mirror_parent, ih]
    rfl

theorem mirror_prev (fuel : Nat) (n : N) : m.prev fuel n = m.mirror.next fuel n := by
  simp only [prev, next, mirror_right, mirror_rightmost, mirror_upFromLeft]

/-- From `start` on, each step leads to the next of the nodes, and the last one to the end. -/
def Visits (step : N → Option (Option N)) : Option N → List N → Prop
  | start, [] => start = none
  | start, n :: rest => start = some n ∧ ∃ following, step n = some following ∧ Visits step following rest

omit [DecidableEq N] in
theorem visits_of_next {step : N → Option (Option N)} {nodes : List N}
    (next : ∀ pre n post, nodes = pre ++ n :: post → step n = some post.head?) : Visits step nodes.head? nodes := by
  induction nodes with
  | nil => rfl
  | cons n rest ih =>
    exact ⟨rfl, rest.head?, next [] n rest rfl,
      ih fun pre m post same => next (n :: pre) m post (congrArg (List.cons n) same)⟩

omit [DecidableEq N] in
theorem plug_split {t : NodeTree N} (nodup : t.inorder.Nodup) {pre post : List N} {n : N}
    (split : t.inorder = pre ++ n :: post) :
    ∃ ctx l r, t = plug ctx (node l n r) ∧ pre = before ctx ++ l.inorder ∧ post = r.inorder ++ after ctx := by
  obtain ⟨ctx, l, r, rfl⟩ := exists_plug (split ▸ List.mem_append_right pre List.mem_cons_self)
  have own : (plug ctx (node l n r)).inorder = (before ctx ++ l.inorder) ++ n :: (r.inorder ++ after ctx) := by
    simp [inorder_plug]
  have front : n ∉ before ctx ++ l.inorder := by
    rw [own] at nodup
    exact fun inside => (List.nodup_append.mp nodup).2.2 n inside n List.mem_cons_self rfl
  have back : n ∉ r.inorder ++ after ctx := by
    rw [own] at nodup
    exact (List.nodup_cons.mp (List.nodup_append.mp nodup).2.1).1
  rw [split] at own
  obtain ⟨first, -, last⟩ := (List.append_cons_inj_of_notMem front back).mp own.symm
  exact ⟨ctx, l, r, rfl, first.symm, last.symm⟩

omit [DecidableEq N] in
theorem first_spec {t : NodeTree N} (stands : m.Stands [] t) (fuel : Nat) (enough : t.inorder.length < fuel) :
    m.first fuel = some t.inorder.head? := by
  have top := stands.top
  cases t with
  | leaf =>
    rw [root_leaf] at top
    simp only [first, top, inorder_leaf, List.head?_nil]
  | node l n r =>
    have low := height_le_length (node l n r)
    rw [root_node] at top
    simp only [first, top, leftmost_spec stands.shape fuel (by omega)]
    cases head : l.inorder <;> simp [head]

theorem next_visits {t : NodeTree N} (stands : m.Stands [] t) (nodup : t.inorder.Nodup) (fuel : Nat)
    (enough : t.inorder.length < fuel) :
    m.first fuel = some t.inorder.head? ∧ Visits (m.next fuel) t.inorder.head? t.inorder := by
  refine ⟨first_spec stands fuel enough, visits_of_next fun pre n post split => ?_⟩
  obtain ⟨ctx, l, r, rfl, -, rfl⟩ := plug_split nodup split
  exact next_spec stands.unplug (nodup_plug.mp nodup) fuel enough

theorem prev_visits {t : NodeTree N} (stands : m.Stands [] t) (nodup : t.inorder.Nodup) (fuel : Nat)
    (enough : t.inorder.length < fuel) :
    m.last fuel = some t.inorder.reverse.head? ∧ Visits (m.prev fuel) t.inorder.reverse.head? t.inorder.reverse := by
  have last : m.last fuel = m.mirror.first fuel := by
    simp only [AvlMemory.last, first, mirror_rightmost]
    rfl
  have step : m.prev fuel = m.mirror.next fuel := funext fun n => mirror_prev fuel n
  rw [last, step, ← inorder_mirror]
  refine next_visits stands.mirror ?_ fuel ?_
  · rw [inorder_mirror, List.nodup_reverse]
    exact nodup
  · rw [inorder_mirror, List.length_reverse]
    exact enough

end traversal

end AvlMemory

/-! ## Runs -/

structure AvlTree (N : Type) where
  memory : AvlMemory N
  members : List N

inductive AvlCall (N : Type) where
  | insert (n : N)
  | remove (n : N)

namespace AvlTree
open AvlMemory
variable {N K : Type} [LinearOrder K] {key : N → K}

def fuel (w : AvlTree N) : Nat := w.members.length + 1

section calls
variable [DecidableEq N]

/-- Nodes are inserted by key, and only members are removed. The output tells whether there has been a change. -/
def step (key : N → K) (w : AvlTree N) : AvlCall N → Option (AvlTree N × Bool)
  | .insert n =>
    (w.memory.insert key w.fuel n).map fun done =>
      (⟨done.1, if done.2 then n :: w.members else w.members⟩, done.2)
  | .remove n =>
    if n ∈ w.members then (w.memory.remove w.fuel n).map fun m => (⟨m, w.members.erase n⟩, true) else none

end calls

def start (m : AvlMemory N) : AvlTree N := ⟨{ m with root := none }, []⟩

structure Sound (key : N → K) (w : AvlTree N) (t : NodeTree N) : Prop where
  links : w.memory.Stands [] t
  avl : Avl w.memory.height none t
  ascending : Ascending key t.inorder
  members : t.inorder.Perm w.members

variable {w : AvlTree N} {t : NodeTree N}

theorem Sound.length (sound : Sound key w t) : t.inorder.length < w.fuel :=
  Nat.lt_succ_of_le (Nat.le_of_eq sound.members.length_eq)

theorem start_sound (key : N → K) (m : AvlMemory N) : Sound key (start m) .leaf :=
  ⟨⟨rfl, trivial⟩, .leaf, List.Pairwise.nil, .nil⟩

variable [DecidableEq N]

theorem insert_sound (sound : Sound key w t) (n : N) :
    ∃ w' changed t', step key w (.insert n) = some (w', changed) ∧ Sound key w' t' := by
  rcases insert_spec ⟨t, sound.links, sound.avl, rfl⟩ sound.ascending n w.fuel (Nat.le_of_lt sound.length)
    with ⟨done, -⟩ | ⟨m', pre, post, done, split, ⟨t', stands, avl, order⟩, smaller, larger⟩
  · exact ⟨w, false, t, by simp only [step, done, Option.map_some]; rfl, sound⟩
  · have ascending := sound.ascending
    refine ⟨⟨m', n :: w.members⟩, true, t', by simp only [step, done, Option.map_some]; rfl, stands, avl, ?_, ?_⟩
    · rw [split] at ascending
      rw [order]
      obtain ⟨front, back, across⟩ := List.pairwise_append.mp ascending
      refine List.pairwise_append.mpr ⟨front, List.pairwise_cons.mpr ⟨larger, back⟩, fun x inside y after => ?_⟩
      rcases List.mem_cons.mp after with rfl | after
      · exact smaller x inside
      · exact across x inside y after
    · rw [order]
      exact List.perm_middle.trans ((split ▸ sound.members).cons n)

theorem remove_sound (sound : Sound key w t) {n : N} (member : n ∈ w.members) :
    ∃ w' changed t', step key w (.remove n) = some (w', changed) ∧ Sound key w' t' := by
  have nodup := sound.ascending.nodup
  obtain ⟨m', done, t', stands, avl, order⟩ := remove_spec ⟨t, sound.links, sound.avl, rfl⟩ nodup
    (sound.members.mem_iff.mpr member) w.fuel (Nat.le_of_lt sound.length)
  refine ⟨⟨m', w.members.erase n⟩, true, t', by simp only [step, if_pos member, done, Option.map_some], stands, avl, ?_, ?_⟩
  · rw [order]
    exact sound.ascending.sublist (List.erase_sublist ..)
  · rw [order]
    exact sound.members.erase n

theorem step_sound (sound : Sound key w t) (call : AvlCall N) {w' : AvlTree N} {changed : Bool}
    (taken : step key w call = some (w', changed)) : ∃ t', Sound key w' t' := by
  cases call with
  | insert n =>
    obtain ⟨_, _, t', done, sound⟩ := insert_sound sound n
    cases done.symm.trans taken
    exact ⟨t', sound⟩
  | remove n =>
    by_cases member : n ∈ w.members
    · obtain ⟨_, _, t', done, sound⟩ := remove_sound sound member
      cases done.symm.trans taken
      exact ⟨t', sound⟩
    · simp only [step, if_neg member, reduceCtorEq] at taken

/-- Whatever has been inserted and removed, the memory holds a tree whose links are consistent, whose heights are right
and which is balanced; its nodes in order are the members by key, and they are visited so from either end; and each
further call returns. -/
theorem avl_tree (key : N → K) (m : AvlMemory N) {labels : List (AvlCall N × Bool)}
    (run : Run (Performs (step key)) (start m) labels w) :
    (∃ t, Sound key w t ∧
      (w.memory.first w.fuel = some t.inorder.head? ∧ Visits (w.memory.next w.fuel) t.inorder.head? t.inorder) ∧
      (w.memory.last w.fuel = some t.inorder.reverse.head? ∧
        Visits (w.memory.prev w.fuel) t.inorder.reverse.head? t.inorder.reverse)) ∧
    (∀ n, (step key w (.insert n)).isSome) ∧ ∀ n ∈ w.members, (step key w (.remove n)).isSome := by
  have sound : ∃ t, Sound key w t := by
    refine run.invariant (fun w => ∃ t, Sound key w t) ?_ ⟨.leaf, start_sound key m⟩
    rintro w label w' ⟨t, sound⟩ taken
    exact step_sound sound label.1 taken
  obtain ⟨t, sound⟩ := sound
  refine ⟨⟨t, sound, next_visits sound.links sound.ascending.nodup w.fuel sound.length,
    prev_visits sound.links sound.ascending.nodup w.fuel sound.length⟩, fun n => ?_, fun n member => ?_⟩
  · obtain ⟨_, _, _, done, -⟩ := insert_sound sound n
    rw [done]
    rfl
  · obtain ⟨_, _, _, done, -⟩ := remove_sound sound member
    rw [done]
    rfl

section demo

def demoMemory : AvlMemory Nat := ⟨fun _ => none, fun _ => none, fun _ => none, fun _ => 0, none⟩

/-- The removals take a node with two children whose successor is further down, and one with a right child only. -/
def demo : List (AvlCall Nat) :=
  [.insert 4, .insert 2, .insert 8, .insert 6, .insert 9, .insert 1, .insert 7, .insert 5, .remove 4, .remove 2, .insert 5]

theorem avl_tree_demo :
    let w := ((drive (step id) (start demoMemory) demo).get (by decide)).1
    w.members = [5, 7, 1, 9, 6, 8] ∧ ∃ t, Sound id w t ∧
      (w.memory.first w.fuel = some t.inorder.head? ∧ Visits (w.memory.next w.fuel) t.inorder.head? t.inorder) ∧
      (w.memory.last w.fuel = some t.inorder.reverse.head? ∧
        Visits (w.memory.prev w.fuel) t.inorder.reverse.head? t.inorder.reverse) :=
  ⟨by decide, (avl_tree id demoMemory (drive_get (by decide))).1⟩

/-- A search ends within the steps that Fibonacci numbers allow the tree, and finds the keys that are there. -/
theorem search_logarithmic (key : N → K) (m : AvlMemory N) {labels : List (AvlCall N × Bool)}
    (run : Run (Performs (step key)) (start m) labels w) (k : K) {fuel : Nat}
    (enough : w.members.length + 1 < Nat.fib (fuel + 3)) :
    ∃ result, w.memory.search key k fuel none .root = some result ∧ (result = none ↔ ∃ n ∈ w.members, key n = k) := by
  obtain ⟨t, sound⟩ : ∃ t, Sound key w t := by
    refine run.invariant (fun w => ∃ t, Sound key w t) ?_ ⟨.leaf, start_sound key m⟩
    rintro w label w' ⟨t, sound⟩ taken
    exact step_sound sound label.1 taken
  have low : t.height ≤ fuel := by
    by_contra high
    have least := sound.avl.balanced.fib_le
    rw [sound.members.length_eq] at least
    have grows := Nat.fib_mono (show fuel + 3 ≤ t.height + 2 by omega)
    omega
  rcases search_spec sound.links sound.ascending k nofun nofun fuel low with
    ⟨found, n, inside, same⟩ | ⟨ctx, found, plugged, -, smaller, larger⟩
  · exact ⟨none, found, iff_of_true rfl ⟨n, sound.members.mem_iff.mp inside, same⟩⟩
  · refine ⟨_, found, iff_of_false nofun ?_⟩
    rintro ⟨n, inside, rfl⟩
    have there := sound.members.mem_iff.mpr inside
    rw [show t = plug ctx leaf from plugged, inorder_plug, inorder_leaf, List.append_nil] at there
    rcases List.mem_append.mp there with front | back
    · exact lt_irrefl _ (smaller n front)
    · exact lt_irrefl _ (larger n back)

theorem search_logarithmic_demo :
    ∃ result, ((drive (step id) (start demoMemory) demo).get (by decide)).1.memory.search id 5 3 none .root = some result ∧
      (result = none ↔ ∃ n ∈ ((drive (step id) (start demoMemory) demo).get (by decide)).1.members, id n = 5) :=
  search_logarithmic id demoMemory (drive_get (by decide)) 5 (by decide)

end demo

end AvlTree

end RtThread.Adt
