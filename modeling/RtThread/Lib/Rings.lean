import RtThread.Lib.Circle

/-! Several circular lists in one memory. A node is the hub of a list of its own or hangs on the list of another hub,
and the three operations move nodes between the two. -/

set_option autoImplicit false

namespace RtThread.Lib
open Function (update update_of_ne update_self)

structure Links (Node : Type) where
  next : Node → Node
  prev : Node → Node

variable {Node : Type} {l : Links Node} {ring : Node → Option (List Node)} {hub n : Node}
  {nodes xs ys : List Node}

/-- `ring` has the list of each hub, and no node is on two of them. -/
structure Rings (l : Links Node) (ring : Node → Option (List Node)) : Prop where
  circle : ∀ hub nodes, ring hub = some nodes → Circle l.next l.prev hub nodes
  apart : ∀ hub nodes other others n, ring hub = some nodes → ring other = some others → n ∈ hub :: nodes →
    n ∈ other :: others → hub = other

/-! ## What the links say -/

theorem Circle.alone (next prev : Node → Node) (own : next n = n ∧ prev n = n) : Circle next prev n [] where
  joined := by simp [Joined, own]
  nodup := by simp

theorem Circle.next_eq_hub {next prev : Node → Node} (circle : Circle next prev hub nodes) : next hub = hub ↔ nodes = [] := by
  rw [circle.meet_hub.1]
  cases nodes with
  | nil => exact iff_of_true rfl rfl
  | cons first rest =>
    have differ : first ≠ hub := fun same => (List.nodup_cons.mp circle.nodup).1 (same ▸ List.mem_cons_self)
    exact iff_of_false differ (List.cons_ne_nil _ _)

theorem Rings.first (rings : Rings l ring) (here : ring hub = some (n :: nodes)) : l.next hub = n :=
  (rings.circle hub _ here).meet_hub.1

theorem Rings.not_mem (rings : Rings l ring) {other : Node} {others : List Node} (here : ring hub = some nodes)
    (there : ring other = some others) (differ : hub ≠ other) {n : Node} (inside : n ∈ hub :: nodes) : n ∉ other :: others :=
  fun also => differ (rings.apart hub nodes other others n here there inside also)

theorem Rings.congr {ring' : Node → Option (List Node)} (rings : Rings l ring) (same : ∀ n, ring n = ring' n) : Rings l ring' :=
  funext same ▸ rings

theorem Rings.own (rings : Rings l ring) (alone : ring n = some []) : l.next n = n ∧ l.prev n = n :=
  (rings.circle n [] alone).meet_hub

/-! ## The operations -/

variable [DecidableEq Node]

def Links.init (l : Links Node) (n : Node) : Links Node :=
  { next := Function.update l.next n n, prev := Function.update l.prev n n }

def Links.insertBefore (l : Links Node) (hub n : Node) : Links Node :=
  { next := Function.update (Function.update l.next (l.prev hub) n) n hub
    prev := Function.update (Function.update l.prev n (l.prev hub)) hub n }

def Links.remove (l : Links Node) (n : Node) : Links Node :=
  { next := Function.update (Function.update l.next (l.prev n) (l.next n)) n n
    prev := Function.update (Function.update l.prev (l.next n) (l.prev n)) n n }

attribute [local simp] Links.insertBefore

theorem Circle.insertBefore_other {other : Node} {others : List Node} (circle : Circle l.next l.prev other others)
    (hubOut : hub ∉ other :: others) (lastOut : l.prev hub ∉ other :: others) (out : n ∉ other :: others) :
    Circle (l.insertBefore hub n).next (l.insertBefore hub n).prev other others := by
  refine circle.congr fun m inside => ?_
  have notHub : m ≠ hub := fun same => hubOut (same ▸ inside)
  have notLast : m ≠ l.prev hub := fun same => lastOut (same ▸ inside)
  have notNode : m ≠ n := fun same => out (same ▸ inside)
  simp [update_of_ne, notHub, notLast, notNode]

theorem Circle.remove_other {other : Node} {others : List Node} (circle : Circle l.next l.prev other others)
    (nextOut : l.next n ∉ other :: others) (prevOut : l.prev n ∉ other :: others) (out : n ∉ other :: others) :
    Circle (l.remove n).next (l.remove n).prev other others := by
  refine circle.congr fun m inside => ?_
  have notNext : m ≠ l.next n := fun same => nextOut (same ▸ inside)
  have notPrev : m ≠ l.prev n := fun same => prevOut (same ▸ inside)
  have notNode : m ≠ n := fun same => out (same ▸ inside)
  simp [Links.remove, update_of_ne, notNext, notPrev, notNode]

theorem Circle.insertBefore (circle : Circle l.next l.prev hub nodes) (fresh : n ∉ hub :: nodes) :
    Circle (l.insertBefore hub n).next (l.insertBefore hub n).prev hub (nodes ++ [n]) := by
  have whole : Circle l.next l.prev hub (nodes ++ []) := by simpa using circle
  have last : l.prev hub = lastOr hub nodes := circle.meet_hub.2
  have notHub : n ≠ hub := fun same => fresh (same ▸ List.mem_cons_self)
  have notLast : n ≠ lastOr hub nodes := ne_lastOr fresh
  have out : ∀ m ∈ hub :: (nodes ++ []), m ≠ n := by
    rintro m inside rfl
    exact fresh (by simpa using inside)
  refine whole.insert (by simpa using fresh) ⟨?_, ?_⟩ ⟨?_, ?_⟩ (fun m inside notBefore => ?_) fun m inside notAfter => ?_
  · simp [last, notLast.symm]
  · simp [last, notHub]
  · simp [firstOr]
  · simp [firstOr]
  · simp [last, out m inside, notBefore]
  · have notHere : m ≠ hub := notAfter
    simp [out m inside, notHere]

theorem Circle.remove_one (circle : Circle l.next l.prev hub (xs ++ n :: ys)) :
    Circle (l.remove n).next (l.remove n).prev hub (xs ++ ys) := by
  obtain ⟨before, _, after, _⟩ := circle.around
  have once := circle.once
  have out : ∀ m ∈ hub :: (xs ++ ys), m ≠ n := fun m inside same => once (same ▸ inside)
  refine circle.remove ⟨?_, ?_⟩ (fun m inside notBefore => ?_) fun m inside notAfter => ?_
  · simp [Links.remove, before, after, out _ lastOr_mem_append]
  · simp [Links.remove, before, after, out _ firstOr_mem_append]
  · simp [Links.remove, before, out m inside, notBefore]
  · simp [Links.remove, after, out m inside, notAfter]

theorem Rings.insertBefore (rings : Rings l ring) (here : ring hub = some nodes) (alone : ring n = some []) (differ : n ≠ hub) :
    Rings (l.insertBefore hub n) (update (update ring n none) hub (some (nodes ++ [n]))) := by
  have fresh : n ∉ hub :: nodes := rings.not_mem alone here differ List.mem_cons_self
  have lists : ∀ h others, update (update ring n none) hub (some (nodes ++ [n])) h = some others →
      h = hub ∧ others = nodes ++ [n] ∨ h ≠ hub ∧ h ≠ n ∧ ring h = some others := by
    intro h others listed
    by_cases isHub : h = hub
    · subst isHub
      rw [update_self] at listed
      exact Or.inl ⟨rfl, (Option.some.inj listed).symm⟩
    · rw [update_of_ne isHub] at listed
      by_cases isNode : h = n
      · rw [isNode, update_self] at listed
        cases listed
      · rw [update_of_ne isNode] at listed
        exact Or.inr ⟨isHub, isNode, listed⟩
  have split : ∀ m, m ∈ hub :: (nodes ++ [n]) → m ∈ hub :: nodes ∨ m = n := by
    intro m inside
    simpa [or_assoc] using inside
  have last : l.prev hub ∈ hub :: nodes := by
    rw [(rings.circle hub nodes here).meet_hub.2]
    exact lastOr_mem
  constructor
  · intro h others listed
    rcases lists h others listed with ⟨rfl, rfl⟩ | ⟨notHub, notNode, was⟩
    · exact (rings.circle h nodes here).insertBefore fresh
    · exact (rings.circle h others was).insertBefore_other (rings.not_mem here was notHub.symm List.mem_cons_self)
        (rings.not_mem here was notHub.symm last) (rings.not_mem alone was notNode.symm List.mem_cons_self)
  · intro h others h' others' m listed listed' inside inside'
    rcases lists h others listed with ⟨rfl, rfl⟩ | ⟨notHub, notNode, was⟩ <;>
      rcases lists h' others' listed' with ⟨rfl, rfl⟩ | ⟨notHub', notNode', was'⟩
    · rfl
    · rcases split m inside with old | rfl
      · exact rings.apart _ _ _ _ m here was' old inside'
      · exact absurd inside' (rings.not_mem alone was' notNode'.symm List.mem_cons_self)
    · rcases split m inside' with old | rfl
      · exact rings.apart _ _ _ _ m was here inside old
      · exact absurd inside (rings.not_mem alone was notNode.symm List.mem_cons_self)
    · exact rings.apart _ _ _ _ m was was' inside inside'

theorem Rings.remove (rings : Rings l ring) (here : ring hub = some (xs ++ n :: ys)) :
    Rings (l.remove n) (update (update ring hub (some (xs ++ ys))) n (some [])) := by
  have circle := rings.circle hub _ here
  have once : n ∉ hub :: (xs ++ ys) := circle.once
  have on : n ∈ hub :: (xs ++ n :: ys) := by simp
  have lists : ∀ h others, update (update ring hub (some (xs ++ ys))) n (some []) h = some others →
      h = n ∧ others = [] ∨ h = hub ∧ others = xs ++ ys ∨ h ≠ n ∧ h ≠ hub ∧ ring h = some others := by
    intro h others listed
    by_cases isNode : h = n
    · rw [isNode, update_self] at listed
      exact Or.inl ⟨isNode, (Option.some.inj listed).symm⟩
    · rw [update_of_ne isNode] at listed
      by_cases isHub : h = hub
      · rw [isHub, update_self] at listed
        exact Or.inr (Or.inl ⟨isHub, (Option.some.inj listed).symm⟩)
      · rw [update_of_ne isHub] at listed
        exact Or.inr (Or.inr ⟨isNode, isHub, listed⟩)
  have within : ∀ m, m ∈ hub :: (xs ++ ys) → m ∈ hub :: (xs ++ n :: ys) := by
    intro m inside
    simp only [List.mem_cons, List.mem_append] at inside ⊢
    tauto
  obtain ⟨before, _, after, _⟩ := circle.around
  constructor
  · intro h others listed
    rcases lists h others listed with ⟨rfl, rfl⟩ | ⟨rfl, rfl⟩ | ⟨notNode, notHub, was⟩
    · exact Circle.alone _ _ (by simp [Links.remove])
    · exact circle.remove_one
    · have other := rings.circle h others was
      refine other.remove_other ?_ ?_ (rings.not_mem here was notHub.symm on)
      · rw [after]
        exact rings.not_mem here was notHub.symm (within _ firstOr_mem_append)
      · rw [before]
        exact rings.not_mem here was notHub.symm (within _ lastOr_mem_append)
  · intro h others h' others' m listed listed' inside inside'
    rcases lists h others listed with ⟨rfl, rfl⟩ | ⟨rfl, rfl⟩ | ⟨notNode, notHub, was⟩ <;>
      rcases lists h' others' listed' with ⟨rfl, rfl⟩ | ⟨rfl, rfl⟩ | ⟨notNode', notHub', was'⟩
    · rfl
    · rw [List.mem_singleton.mp inside] at inside'
      exact absurd inside' once
    · rw [List.mem_singleton.mp inside] at inside'
      exact absurd inside' (rings.not_mem here was' notHub'.symm on)
    · rw [List.mem_singleton.mp inside'] at inside
      exact absurd inside once
    · rfl
    · exact rings.apart _ _ _ _ m here was' (within m inside) inside'
    · rw [List.mem_singleton.mp inside'] at inside
      exact absurd inside (rings.not_mem here was notHub.symm on)
    · exact rings.apart _ _ _ _ m was here inside (within m inside')
    · exact rings.apart _ _ _ _ m was was' inside inside'

theorem update_fixed {f : Node → Node} (fixed : f n = n) : update f n n = f :=
  calc update f n n = update f n (f n) := by rw [fixed]
    _ = f := Function.update_eq_self n f

theorem Rings.remove_alone (rings : Rings l ring) (alone : ring n = some []) : l.remove n = l := by
  obtain ⟨next, prev⟩ := rings.own alone
  unfold Links.remove
  rw [next, prev, Function.update_idem, Function.update_idem, update_fixed next, update_fixed prev]

theorem Rings.init_alone (rings : Rings l ring) (alone : ring n = some []) : l.init n = l := by
  obtain ⟨next, prev⟩ := rings.own alone
  unfold Links.init
  rw [update_fixed next, update_fixed prev]

end RtThread.Lib
