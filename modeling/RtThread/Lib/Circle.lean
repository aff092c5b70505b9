import Mathlib.Data.List.Chain
import Mathlib.Data.List.Nodup

/-! Circular lists linked both ways: a hub, which is always there, and the nodes met on the way
round. Nodes are hung in and unhung at any place by four writes and two writes. -/

set_option autoImplicit false

namespace RtThread.Lib

variable {Node : Type} {next prev next' prev' : Node → Node} {hub n : Node} {nodes xs ys : List Node}

/-- `b` follows `a`, and both know. -/
def Joined (next prev : Node → Node) (a b : Node) : Prop := next a = b ∧ prev b = a

/-- From `hub` the links lead through just `nodes` and back to it, in both directions. -/
structure Circle (next prev : Node → Node) (hub : Node) (nodes : List Node) : Prop where
  joined : (hub :: nodes ++ [hub]).IsChain (Joined next prev)
  nodup : (hub :: nodes).Nodup

/-- The node in front of what follows `xs`. -/
def lastOr (hub : Node) (xs : List Node) : Node := xs.getLast?.getD hub

/-- The node behind what precedes `ys`. -/
def firstOr (hub : Node) (ys : List Node) : Node := ys.head?.getD hub

theorem lastOr_mem : lastOr hub xs ∈ hub :: xs := by
  rcases List.eq_nil_or_concat' xs with rfl | ⟨rest, last, rfl⟩
  · exact List.mem_cons_self
  · simp [lastOr]

theorem firstOr_mem : firstOr hub ys ∈ hub :: ys := by
  cases ys with
  | nil => exact List.mem_cons_self
  | cons y rest => exact List.mem_cons_of_mem hub List.mem_cons_self

theorem ne_lastOr (out : n ∉ hub :: xs) : n ≠ lastOr hub xs := fun own => out (own ▸ lastOr_mem)

theorem ne_firstOr (out : n ∉ hub :: ys) : n ≠ firstOr hub ys := fun own => out (own ▸ firstOr_mem)

theorem lastOr_mem_append : lastOr hub xs ∈ hub :: (xs ++ ys) := by
  have member : lastOr hub xs ∈ hub :: xs := lastOr_mem
  simp only [List.mem_cons, List.mem_append] at member ⊢
  tauto

theorem firstOr_mem_append : firstOr hub ys ∈ hub :: (xs ++ ys) := by
  have member : firstOr hub ys ∈ hub :: ys := firstOr_mem
  simp only [List.mem_cons, List.mem_append] at member ⊢
  tauto

theorem getLast_hub_cons : (hub :: xs).getLast? = some (lastOr hub xs) := by
  rw [lastOr, List.getLast?_cons]

theorem head_concat_hub : (ys ++ [hub]).head? = some (firstOr hub ys) := by
  cases ys <;> rfl

/-- A chain only looks at the forward links of all but its last node and at the backward links of
all but its first. -/
theorem joined_congr (chain : nodes.IsChain (Joined next prev))
    (forward : ∀ m ∈ nodes.dropLast, next' m = next m) (backward : ∀ m ∈ nodes.tail, prev' m = prev m) :
    nodes.IsChain (Joined next' prev') := by
  induction nodes with
  | nil => exact .nil
  | cons a rest ih =>
    cases rest with
    | nil => exact .singleton a
    | cons b rest =>
      obtain ⟨pair, others⟩ := List.isChain_cons_cons.mp chain
      have first : next' a = next a := forward a List.mem_cons_self
      have second : prev' b = prev b := backward b List.mem_cons_self
      apply List.isChain_cons_cons.mpr
      refine ⟨⟨first.trans pair.1, second.trans pair.2⟩, ?_⟩
      apply ih others
      · exact fun m inside => forward m (List.mem_cons_of_mem a inside)
      · exact fun m inside => backward m (List.mem_cons_of_mem b inside)

theorem joined_meet : (hub :: (xs ++ ys) ++ [hub]).IsChain (Joined next prev) ↔
    (hub :: xs).IsChain (Joined next prev) ∧ (ys ++ [hub]).IsChain (Joined next prev) ∧
      Joined next prev (lastOr hub xs) (firstOr hub ys) := by
  have shape : hub :: (xs ++ ys) ++ [hub] = (hub :: xs) ++ (ys ++ [hub]) := by simp
  rw [shape, List.isChain_append, getLast_hub_cons, head_concat_hub]
  simp

namespace Circle

theorem once (circle : Circle next prev hub (xs ++ n :: ys)) : n ∉ hub :: (xs ++ ys) := by
  have perm : (hub :: (xs ++ n :: ys)).Perm (n :: hub :: (xs ++ ys)) :=
    (List.perm_middle.cons hub).trans (List.Perm.swap n hub _)
  exact (List.nodup_cons.mp (perm.nodup_iff.mp circle.nodup)).1

theorem meet (circle : Circle next prev hub (xs ++ ys)) :
    Joined next prev (lastOr hub xs) (firstOr hub ys) :=
  (joined_meet.mp circle.joined).2.2

theorem meet_hub (circle : Circle next prev hub nodes) :
    next hub = firstOr hub nodes ∧ prev hub = lastOr hub nodes := by
  have front : Circle next prev hub ([] ++ nodes) := circle
  have back : Circle next prev hub (nodes ++ []) := by simpa using circle
  exact ⟨front.meet.1, back.meet.2⟩

theorem around (circle : Circle next prev hub (xs ++ n :: ys)) :
    prev n = lastOr hub xs ∧ next (lastOr hub xs) = n ∧
      next n = firstOr hub ys ∧ prev (firstOr hub ys) = n := by
  have before : Joined next prev (lastOr hub xs) n := circle.meet
  have split : Circle next prev hub ((xs ++ [n]) ++ ys) := by simpa using circle
  have after : Joined next prev n (firstOr hub ys) := by
    have last : lastOr hub (xs ++ [n]) = n := by simp [lastOr]
    rw [← last]
    simpa [last] using split.meet
  exact ⟨before.2, before.1, after.1, after.2⟩

theorem congr (circle : Circle next prev hub nodes)
    (same : ∀ m ∈ hub :: nodes, next' m = next m ∧ prev' m = prev m) : Circle next' prev' hub nodes where
  nodup := circle.nodup
  joined := by
    apply joined_congr circle.joined
    · intro m inside
      rw [List.dropLast_concat] at inside
      exact (same m inside).1
    · intro m inside
      apply (same m _).2
      simpa [or_comm] using inside

theorem apart (circle : Circle next prev hub (xs ++ ys)) :
    (∀ m ∈ (hub :: xs).dropLast, m ≠ lastOr hub xs) ∧ (∀ m ∈ ys, m ≠ lastOr hub xs) ∧
      (∀ m ∈ xs, m ≠ firstOr hub ys) ∧ ∀ m ∈ (ys ++ [hub]).tail, m ≠ firstOr hub ys := by
  have nodup := circle.nodup
  have whole : (hub :: xs ++ ys).Nodup := nodup
  obtain ⟨firstNodup, secondNodup, differ⟩ := List.nodup_append.mp whole
  refine ⟨?_, ?_, ?_, ?_⟩
  · rcases List.eq_nil_or_concat' xs with rfl | ⟨rest, last, rfl⟩
    · intro m inside
      simp at inside
    · intro m inside
      have ends : lastOr hub (rest ++ [last]) = last := by simp [lastOr]
      rw [ends]
      rintro rfl
      have all : (hub :: rest ++ [m]).Nodup := firstNodup
      have none := (List.nodup_append.mp all).2.2
      rw [← List.cons_append, List.dropLast_concat] at inside
      exact none m inside m (List.mem_singleton_self m) rfl
  · exact fun m inside own => differ _ lastOr_mem m inside own.symm
  · rintro m inside rfl
    have member : firstOr hub ys ∈ hub :: ys := firstOr_mem
    rcases List.mem_cons.mp member with own | own
    · exact (List.nodup_cons.mp firstNodup).1 (own ▸ inside)
    · exact differ _ (List.mem_cons_of_mem hub inside) _ own rfl
  · cases ys with
    | nil => simp
    | cons y rest =>
      rintro m inside rfl
      rw [List.cons_append, List.tail_cons] at inside
      rcases List.mem_append.mp inside with own | own
      · exact (List.nodup_cons.mp secondNodup).1 own
      · exact differ hub List.mem_cons_self m List.mem_cons_self (List.mem_singleton.mp own).symm

theorem insert (circle : Circle next prev hub (xs ++ ys)) (fresh : n ∉ hub :: (xs ++ ys))
    (before : next' (lastOr hub xs) = n ∧ prev' n = lastOr hub xs)
    (after : next' n = firstOr hub ys ∧ prev' (firstOr hub ys) = n)
    (forward : ∀ m ∈ hub :: (xs ++ ys), m ≠ lastOr hub xs → next' m = next m)
    (backward : ∀ m ∈ hub :: (xs ++ ys), m ≠ firstOr hub ys → prev' m = prev m) :
    Circle next' prev' hub (xs ++ n :: ys) where
  joined := by
    obtain ⟨front, back, _⟩ := joined_meet.mp circle.joined
    obtain ⟨frontLast, backLast, frontFirst, backFirst⟩ := circle.apart
    apply joined_meet.mpr
    refine ⟨?_, ?_, before⟩
    · apply joined_congr front
      · intro m inside
        apply forward m _ (frontLast m inside)
        have member := List.dropLast_subset _ inside
        simp only [List.mem_cons, List.mem_append] at member ⊢
        tauto
      · intro m inside
        exact backward m (by simp [show m ∈ xs from inside]) (frontFirst m inside)
    · have chain : (ys ++ [hub]).IsChain (Joined next' prev') := by
        apply joined_congr back
        · intro m inside
          rw [List.dropLast_concat] at inside
          exact forward m (by simp [inside]) (backLast m inside)
        · intro m inside
          apply backward m _ (backFirst m inside)
          have member := List.mem_of_mem_tail inside
          simp only [List.mem_cons, List.mem_append, List.not_mem_nil, or_false] at member ⊢
          tauto
      apply List.IsChain.cons chain
      intro m first
      rw [head_concat_hub] at first
      cases first
      exact after
  nodup := by
    have perm : (n :: hub :: (xs ++ ys)).Perm (hub :: (xs ++ n :: ys)) :=
      (List.Perm.swap hub n _).trans (List.perm_middle.symm.cons hub)
    exact perm.nodup_iff.mp (List.nodup_cons.mpr ⟨fresh, circle.nodup⟩)

theorem remove (circle : Circle next prev hub (xs ++ n :: ys))
    (across : next' (lastOr hub xs) = firstOr hub ys ∧ prev' (firstOr hub ys) = lastOr hub xs)
    (forward : ∀ m ∈ hub :: (xs ++ ys), m ≠ lastOr hub xs → next' m = next m)
    (backward : ∀ m ∈ hub :: (xs ++ ys), m ≠ firstOr hub ys → prev' m = prev m) :
    Circle next' prev' hub (xs ++ ys) where
  joined := by
    have split : Circle next prev hub ((xs ++ [n]) ++ ys) := by simpa using circle
    obtain ⟨front, _, _⟩ := joined_meet.mp circle.joined
    obtain ⟨_, back, _⟩ := joined_meet.mp split.joined
    obtain ⟨frontLast, backLast, _, _⟩ := circle.apart
    obtain ⟨_, _, frontFirst, backFirst⟩ := split.apart
    apply joined_meet.mpr
    refine ⟨?_, ?_, across⟩
    · apply joined_congr front
      · intro m inside
        apply forward m _ (frontLast m inside)
        have member := List.dropLast_subset _ inside
        simp only [List.mem_cons, List.mem_append] at member ⊢
        tauto
      · intro m inside
        exact backward m (by simp [show m ∈ xs from inside]) (frontFirst m (by simp [show m ∈ xs from inside]))
    · apply joined_congr back
      · intro m inside
        rw [List.dropLast_concat] at inside
        exact forward m (by simp [inside]) (backLast m (List.mem_cons_of_mem n inside))
      · intro m inside
        apply backward m _ (backFirst m inside)
        have member := List.mem_of_mem_tail inside
        simp only [List.mem_cons, List.mem_append, List.not_mem_nil, or_false] at member ⊢
        tauto
  nodup := by
    have perm : (n :: hub :: (xs ++ ys)).Perm (hub :: (xs ++ n :: ys)) :=
      (List.Perm.swap hub n _).trans (List.perm_middle.symm.cons hub)
    exact (List.nodup_cons.mp (perm.nodup_iff.mpr circle.nodup)).2

theorem one (differ : hub ≠ n) (there : next hub = n ∧ prev n = hub) (back : next n = hub ∧ prev hub = n) :
    Circle next prev hub [n] where
  joined := by simp [Joined, there, back]
  nodup := by simp [differ]

theorem unique_from {a : Node} (first : (a :: xs ++ [hub]).IsChain (Joined next prev))
    (second : (a :: ys ++ [hub]).IsChain (Joined next prev)) (firstOut : hub ∉ xs) (secondOut : hub ∉ ys) : xs = ys := by
  induction xs generalizing a ys with
  | nil =>
    have back : next a = hub := (List.isChain_cons_cons.mp first).1.1
    cases ys with
    | nil => rfl
    | cons y rest =>
      have on : next a = y := (List.isChain_cons_cons.mp second).1.1
      exact absurd (back.symm.trans on ▸ List.mem_cons_self) secondOut
  | cons x more ih =>
    obtain ⟨pair, others⟩ := List.isChain_cons_cons.mp first
    cases ys with
    | nil =>
      have back : next a = hub := (List.isChain_cons_cons.mp second).1.1
      exact absurd (back.symm.trans pair.1 ▸ List.mem_cons_self) firstOut
    | cons y rest =>
      obtain ⟨pair', others'⟩ := List.isChain_cons_cons.mp second
      have same : x = y := pair.1.symm.trans pair'.1
      subst same
      rw [ih others others' (fun inside => firstOut (List.mem_cons_of_mem _ inside))
        fun inside => secondOut (List.mem_cons_of_mem _ inside)]

theorem unique (first : Circle next prev hub xs) (second : Circle next prev hub ys) :
    xs = ys :=
  unique_from first.joined second.joined (List.nodup_cons.mp first.nodup).1 (List.nodup_cons.mp second.nodup).1

end Circle

end RtThread.Lib
