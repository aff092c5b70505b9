import Mathlib.Data.List.Find
import Mathlib.Data.List.Induction
import Mathlib.Data.List.Sort

/-! A waiting line whose members are taken out by hand: what has left the line is in the hand of the one who took it
until it is delivered. Then order by rank, and first come, first served among equals: the list in which each newcomer is
put behind those of its rank, against the list of arrivals. -/

set_option autoImplicit false
namespace RtThread.Lib

/-- How a line of members `α` with marks `K` takes one in, at its place or in front, and lets its first
one out. -/
structure Discipline (Q K α : Type) where
  empty : Q
  append : K → α → Q → Q
  prepend : K → α → Q → Q
  first : Q → Option (α × Q)

inductive LineEvent (T K α : Type) where
  | append (k : K) (a : α)
  | prepend (k : K) (a : α)
  /-- the first of the line goes into the empty hand of `t` -/
  | take (t : T)
  /-- what `t` has in hand is delivered, and is as it should be -/
  | deliver (t : T) (accept : α → Bool)
  | clear
  | refused
  /-- what no line does -/
  | broken

structure Line (Q T α : Type) where
  queue : Q
  hand : T → Option α

variable {Q K T α : Type} [DecidableEq T]

def LineEvent.apply (d : Discipline Q K α) (line : Line Q T α) : LineEvent T K α → Option (Line Q T α)
  | .append k a => some { line with queue := d.append k a line.queue }
  | .prepend k a => some { line with queue := d.prepend k a line.queue }
  | .take t =>
    match line.hand t, d.first line.queue with
    | none, some (a, rest) => some ⟨rest, Function.update line.hand t (some a)⟩
    | _, _ => none
  | .deliver t accept =>
    match line.hand t with
    | some a => if accept a then some { line with hand := Function.update line.hand t none } else none
    | none => none
  | .clear => some { line with queue := d.empty }
  | .refused => some line
  | .broken => none

def lineReplay (d : Discipline Q K α) (line : Line Q T α) : List (LineEvent T K α) → Option (Line Q T α)
  | [] => some line
  | e :: rest => (e.apply d line).bind fun next => lineReplay d next rest

theorem lineReplay_append (d : Discipline Q K α) (before after : List (LineEvent T K α))
    (line mid : Line Q T α) (first : lineReplay d line before = some mid) :
    lineReplay d line (before ++ after) = lineReplay d mid after := by
  induction before generalizing line with
  | nil =>
    cases first
    rfl
  | cons e rest ih =>
    rw [lineReplay, Option.bind_eq_some_iff] at first
    obtain ⟨next, step, done⟩ := first
    rw [List.cons_append, lineReplay, step, Option.bind_some]
    exact ih next done

theorem lineReplay_one (d : Discipline Q K α) (line : Line Q T α) (e : LineEvent T K α) :
    lineReplay d line [e] = e.apply d line := by
  simp [lineReplay]

def Discipline.fifo (K α : Type) : Discipline (List α) K α where
  empty := []
  append _ a queue := queue ++ [a]
  prepend _ a queue := a :: queue
  first
    | [] => none
    | a :: rest => some (a, rest)

/-! ## Ranks -/

section
variable {R α : Type} [LinearOrder R] (rank : α → R)

def foremost (members : List α) (a : α) : Bool := members.all fun b => decide (rank b ≤ rank a)

def byRank (members : List α) : List α :=
  members.foldl (fun sorted a => sorted.orderedInsert (fun a b => rank b < rank a) a) []

theorem byRank_append (members : List α) (a : α) :
    byRank rank (members ++ [a]) = (byRank rank members).orderedInsert (fun a b => rank b < rank a) a := by
  simp [byRank]

theorem byRank_perm (members : List α) : (byRank rank members).Perm members := by
  induction members using List.reverseRecOn with
  | nil => exact .refl _
  | append_singleton members a ih =>
    rw [byRank_append]
    exact ((List.perm_orderedInsert _ a _).trans (ih.cons a)).trans (List.perm_append_singleton a _).symm

theorem foremost_append (members : List α) (a b : α) :
    foremost rank (members ++ [a]) b = (foremost rank members b && decide (rank a ≤ rank b)) := by
  simp [foremost]

omit [LinearOrder R] in
theorem eraseP_congr {p q : α → Bool} {members : List α} (same : ∀ b ∈ members, p b = q b) :
    members.eraseP p = members.eraseP q := by
  induction members with
  | nil => rfl
  | cons b rest ih =>
    rw [List.eraseP_cons, List.eraseP_cons, same b List.mem_cons_self,
      ih fun c inside => same c (List.mem_cons_of_mem b inside)]

theorem byRank_first (members : List α) {first : α} {rest : List α}
    (sorted : byRank rank members = first :: rest) :
    members.find? (foremost rank members) = some first ∧
      byRank rank (members.eraseP (foremost rank members)) = rest := by
  induction members using List.reverseRecOn generalizing first rest with
  | nil => cases sorted
  | append_singleton members a ih =>
    rw [byRank_append] at sorted
    cases before : byRank rank members with
    | nil =>
      have none : members = [] := by
        have perm := byRank_perm rank members
        rw [before] at perm
        exact perm.symm.eq_nil
      subst none
      rw [before] at sorted
      cases sorted
      simp [foremost, byRank]
    | cons head tail =>
      obtain ⟨found, left⟩ := ih before
      have top : foremost rank members head = true := List.find?_some found
      have member : head ∈ members := List.mem_of_find?_eq_some found
      have under : ∀ b ∈ members, rank b ≤ rank head := by
        intro b inside
        simpa using List.all_eq_true.mp top b inside
      rw [before, List.orderedInsert_cons] at sorted
      by_cases above : rank head < rank a
      · -- the newcomer outranks everything before it
        rw [if_pos above] at sorted
        cases sorted
        have nobody : ∀ b ∈ members, ¬foremost rank (members ++ [a]) b = true := by
          intro b inside
          rw [foremost_append, Bool.and_eq_true, decide_eq_true_eq, not_and, not_le]
          exact fun _ => lt_of_le_of_lt (under b inside) above
        have newcomer : foremost rank (members ++ [a]) a = true := by
          rw [foremost_append, Bool.and_eq_true, decide_eq_true_eq]
          refine ⟨List.all_eq_true.mpr fun b inside => ?_, le_rfl⟩
          exact decide_eq_true (le_trans (under b inside) above.le)
        constructor
        · rw [List.find?_append, List.find?_eq_none.mpr nobody, Option.none_or]
          simp [newcomer]
        · rw [List.eraseP_append_right [a] nobody]
          simpa [newcomer] using before
      · rw [if_neg above] at sorted
        cases sorted
        have same : ∀ b ∈ members, foremost rank (members ++ [a]) b = foremost rank members b := by
          intro b inside
          rw [foremost_append]
          cases beyond : foremost rank members b with
          | false => rfl
          | true =>
            have most : rank first ≤ rank b := by simpa using List.all_eq_true.mp beyond first member
            simpa using le_trans (not_lt.mp above) most
        have still : members.find? (foremost rank (members ++ [a])) = some first := by
          rw [← found]
          exact List.find?_congr same
        have erased : members.eraseP (foremost rank (members ++ [a])) =
            members.eraseP (foremost rank members) := eraseP_congr same
        constructor
        · rw [List.find?_append, still, Option.some_or]
        · rw [List.eraseP_append_left (List.find?_some still) [a] member, erased, byRank_append, left]

theorem orderedInsert_sorted (a : α) {sorted : List α} (order : sorted.Pairwise fun a b => rank b ≤ rank a) :
    (sorted.orderedInsert (fun a b => rank b < rank a) a).Pairwise fun a b => rank b ≤ rank a := by
  induction sorted with
  | nil => simp
  | cons b rest ih =>
    obtain ⟨below, tail⟩ := List.pairwise_cons.mp order
    rw [List.orderedInsert_cons]
    by_cases above : rank b < rank a
    · rw [if_pos above]
      refine List.pairwise_cons.mpr ⟨fun c inside => ?_, order⟩
      rcases List.mem_cons.mp inside with rfl | later
      · exact above.le
      · exact (below c later).trans above.le
    · rw [if_neg above]
      refine List.pairwise_cons.mpr ⟨fun c inside => ?_, ih tail⟩
      rcases (List.mem_orderedInsert _).mp inside with rfl | later
      · exact not_lt.mp above
      · exact below c later

variable [DecidableEq α]

end

structure RankedQueue (R α : Type) where
  urgents : List α
  /-- in the order in which they came -/
  pending : List (R × α)

variable {R K α : Type} [LinearOrder R]

def RankedQueue.first (q : RankedQueue R α) : Option (α × RankedQueue R α) :=
  match q.urgents with
  | a :: rest => some (a, { q with urgents := rest })
  | [] =>
    (q.pending.find? (foremost Prod.fst q.pending)).map fun m =>
      (m.2, { q with pending := q.pending.eraseP (foremost Prod.fst q.pending) })

/-- What was put in front comes out first, the last of it before the others; then come the members of the
largest rank, the earliest of them before the others. -/
def Discipline.ranked (rank : K → R) : Discipline (RankedQueue R α) K α where
  empty := ⟨[], []⟩
  append k a q := { q with pending := q.pending ++ [(rank k, a)] }
  prepend _ a q := { q with urgents := a :: q.urgents }
  first := RankedQueue.first

end RtThread.Lib
