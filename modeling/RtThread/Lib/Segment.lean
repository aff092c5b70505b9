import Mathlib.Data.List.Nodup

/-! Singly linked lists in memory: the nodes a `next` pointer leads through from one link to another. -/

set_option autoImplicit false

namespace RtThread.Lib
open Function (update update_of_ne update_self)

variable {Node : Type}

/-- From `start` the links lead through just `nodes` to `stop`. -/
def Segment (next : Node → Option Node) : Option Node → List Node → Option Node → Prop
  | start, [], stop => start = stop
  | start, n :: rest, stop => start = some n ∧ Segment next (next n) rest stop

/-- The nodes from `start` on, `fuel` of them at most. -/
def follow (next : Node → Option Node) : Option Node → Nat → List Node
  | some n, fuel + 1 => n :: follow next (next n) fuel
  | _, _ => []

variable {next next' : Node → Option Node} {start mid stop : Option Node}

theorem Segment.congr {nodes : List Node} (held : Segment next start nodes stop)
    (same : ∀ n ∈ nodes, next' n = next n) : Segment next' start nodes stop := by
  induction nodes generalizing start with
  | nil => exact held
  | cons n rest ih =>
    refine ⟨held.1, ?_⟩
    rw [same n List.mem_cons_self]
    exact ih held.2 fun m inside => same m (List.mem_cons_of_mem n inside)

theorem Segment.append {nodes more : List Node} (first : Segment next start nodes mid)
    (second : Segment next mid more stop) : Segment next start (nodes ++ more) stop := by
  induction nodes generalizing start with
  | nil =>
    cases first
    exact second
  | cons n rest ih => exact ⟨first.1, ih first.2⟩

theorem Segment.split {nodes more : List Node} (held : Segment next start (nodes ++ more) stop) :
    ∃ mid, Segment next start nodes mid ∧ Segment next mid more stop := by
  induction nodes generalizing start with
  | nil => exact ⟨start, rfl, held⟩
  | cons n rest ih =>
    obtain ⟨mid, first, second⟩ := ih held.2
    exact ⟨mid, ⟨held.1, first⟩, second⟩

theorem Segment.empty {nodes : List Node} (held : Segment next none nodes none) : nodes = [] := by
  cases nodes with
  | nil => rfl
  | cons n rest => cases held.1

theorem Segment.follow {nodes : List Node} (held : Segment next start nodes none) (fuel : Nat)
    (enough : nodes.length ≤ fuel) : follow next start fuel = nodes := by
  induction nodes generalizing start fuel with
  | nil =>
    cases held
    cases fuel <;> rfl
  | cons n rest ih =>
    obtain ⟨rfl, after⟩ := held
    cases fuel with
    | zero => simp at enough
    | succ fuel =>
      rw [List.length_cons] at enough
      rw [Lib.follow, ih after fuel (by omega)]

theorem Segment.unique {nodes more : List Node} (held : Segment next start nodes none)
    (other : Segment next start more none) : nodes = more := by
  induction nodes generalizing start more with
  | nil =>
    cases held
    exact other.empty.symm
  | cons n rest ih =>
    obtain ⟨rfl, after⟩ := held
    cases more with
    | nil => cases other
    | cons m more =>
      obtain ⟨same, behind⟩ := other
      cases same
      rw [ih after behind]

theorem Segment.head {nodes : List Node} (held : Segment next start nodes none) : start = nodes.head? := by
  cases nodes with
  | nil => exact held
  | cons n rest => exact held.1

theorem Segment.last {nodes : List Node} {n : Node} (held : Segment next start (nodes ++ [n]) stop) :
    Segment next start nodes (some n) ∧ next n = stop := by
  obtain ⟨mid, first, only, last⟩ := held.split
  cases only
  exact ⟨first, last⟩

/-- A node that ends a segment is hung in before the rest: only its own link and the one in front
of it change. -/
theorem Segment.insert {before after : List Node} {p n : Node}
    (first : Segment next start before (some p)) (rest : Segment next mid after stop)
    (apart : n ∉ before ∧ n ∉ after ∧ p ∉ before ∧ p ∉ after ∧ n ≠ p)
    (link : next' p = some n) (own : next' n = mid)
    (same : ∀ m, m ≠ p → m ≠ n → next' m = next m) :
    Segment next' start (before ++ [p, n] ++ after) stop := by
  obtain ⟨nBefore, nAfter, pBefore, pAfter, differ⟩ := apart
  have head : Segment next' start before (some p) :=
    first.congr fun m inside => same m (fun own => pBefore (own ▸ inside)) fun own => nBefore (own ▸ inside)
  have tail : Segment next' mid after stop :=
    rest.congr fun m inside => same m (fun own => pAfter (own ▸ inside)) fun own => nAfter (own ▸ inside)
  have pair : Segment next' (some p) [p, n] mid := ⟨rfl, link, own⟩
  exact (head.append pair).append tail

/-! ## Lists with a head -/

/-- From `head` the links lead through just `nodes` to the end of the list. -/
structure Hung (next : Node → Option Node) (head : Node) (nodes : List Node) : Prop where
  links : Segment next (next head) nodes none
  nodup : (head :: nodes).Nodup

def lastNode (head : Node) : List Node → Node
  | [] => head
  | n :: rest => lastNode n rest

theorem lastNode_mem (head : Node) (nodes : List Node) : lastNode head nodes ∈ head :: nodes := by
  induction nodes generalizing head with
  | nil => exact List.mem_cons_self
  | cons n rest ih => exact List.mem_cons_of_mem _ (ih n)

theorem lastNode_append (head : Node) (nodes more : List Node) :
    lastNode head (nodes ++ more) = lastNode (lastNode head nodes) more := by
  induction nodes generalizing head with
  | nil => rfl
  | cons n rest ih => exact ih n

theorem lastNode_concat (head n : Node) (nodes : List Node) : lastNode head (nodes ++ [n]) = n :=
  lastNode_append head nodes [n]

variable {head n : Node} {nodes before after : List Node}

theorem Hung.rest (hung : Hung next head (n :: nodes)) : next head = some n ∧ Hung next n nodes :=
  ⟨hung.links.1, hung.links.2, (List.nodup_cons.mp hung.nodup).2⟩

theorem Hung.first (hung : Hung next head nodes) : next head = nodes.head? := hung.links.head

theorem Hung.congr (hung : Hung next head nodes) (same : ∀ m ∈ head :: nodes, next' m = next m) :
    Hung next' head nodes where
  links := by
    rw [same head List.mem_cons_self]
    exact hung.links.congr fun m inside => same m (List.mem_cons_of_mem _ inside)
  nodup := hung.nodup

section
variable [DecidableEq Node]

theorem Hung.push (hung : Hung next head nodes) (fresh : n ∉ head :: nodes) :
    Hung (update (update next n (next head)) head (some n)) head (n :: nodes) := by
  have apart : n ≠ head := fun own => fresh (own ▸ List.mem_cons_self)
  have once := List.nodup_cons.mp hung.nodup
  refine ⟨⟨update_self .., ?_⟩, ?_⟩
  · rw [update_of_ne apart, update_self]
    apply hung.links.congr
    intro m inside
    have notHead : m ≠ head := fun own => once.1 (own ▸ inside)
    have notNew : m ≠ n := fun own => fresh (own ▸ List.mem_cons_of_mem _ inside)
    rw [update_of_ne notHead, update_of_ne notNew]
  · have perm : (n :: head :: nodes).Perm (head :: n :: nodes) := List.Perm.swap head n nodes
    exact perm.nodup_iff.mp (List.nodup_cons.mpr ⟨fresh, hung.nodup⟩)

theorem Hung.append (hung : Hung next head nodes) (fresh : n ∉ head :: nodes) :
    Hung (update (update next (lastNode head nodes) (some n)) n none) head (nodes ++ [n]) := by
  induction nodes generalizing head with
  | nil =>
    have apart : head ≠ n := fun own => fresh (own ▸ List.mem_cons_self)
    refine ⟨⟨?_, update_self ..⟩, by simp [apart]⟩
    rw [update_of_ne apart, lastNode, update_self]
  | cons m rest ih =>
    obtain ⟨link, tail⟩ := hung.rest
    have apart : head ≠ n := fun own => fresh (own ▸ List.mem_cons_self)
    have once := (List.nodup_cons.mp hung.nodup).1
    obtain ⟨links, nodup⟩ := ih tail fun inside => fresh (List.mem_cons_of_mem _ inside)
    have other : head ≠ lastNode m rest := fun own => once (own ▸ lastNode_mem m rest)
    refine ⟨⟨?_, links⟩, List.nodup_cons.mpr ⟨?_, nodup⟩⟩
    · rw [update_of_ne apart, lastNode, update_of_ne other, link]
    · intro inside
      rw [List.mem_append, List.mem_singleton] at inside
      exact inside.elim once apart

theorem Hung.remove (hung : Hung next head (before ++ n :: after)) :
    next (lastNode head before) = some n ∧
      Hung (update next (lastNode head before) (next n)) head (before ++ after) := by
  induction before generalizing head with
  | nil =>
    obtain ⟨link, tail⟩ := hung.rest
    have once := (List.nodup_cons.mp hung.nodup).1
    refine ⟨link, ?_, ?_⟩
    · rw [lastNode, update_self]
      apply tail.links.congr
      intro m inside
      have notHead : m ≠ head := fun own => once (own ▸ List.mem_cons_of_mem _ inside)
      exact update_of_ne notHead _ _
    · exact List.nodup_cons.mpr ⟨fun inside => once (List.mem_cons_of_mem _ inside),
        (List.nodup_cons.mp tail.nodup).2⟩
  | cons m rest ih =>
    obtain ⟨link, tail⟩ := hung.rest
    have once := (List.nodup_cons.mp hung.nodup).1
    obtain ⟨follows, links, nodup⟩ := ih tail
    have other : head ≠ lastNode m rest := by
      intro own
      apply once
      have inside := lastNode_mem m rest
      rw [← own] at inside
      simp only [List.cons_append, List.mem_cons, List.mem_append] at inside ⊢
      tauto
    refine ⟨follows, ⟨?_, links⟩, List.nodup_cons.mpr ⟨?_, nodup⟩⟩
    · rw [lastNode, update_of_ne other, link]
    · intro inside
      apply once
      simp only [List.cons_append, List.mem_cons, List.mem_append] at inside ⊢
      tauto

end

end RtThread.Lib
