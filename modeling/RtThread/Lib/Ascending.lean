import Mathlib.Data.List.Basic

/-! Intervals in ascending order, and intervals handed out round a buffer: first upwards, then again from
its beginning, up to the oldest one. -/

set_option autoImplicit false
namespace RtThread.Lib

variable {B : Type} (start size : B → Nat)

/-- The intervals lie between `lo` and `hi`, each behind the one in front of it. -/
def Ascending : Nat → List B → Nat → Prop
  | lo, [], hi => lo ≤ hi
  | lo, b :: rest, hi => lo ≤ start b ∧ Ascending (start b + size b) rest hi

variable {start size} {start' size' : B → Nat} {lo lo' mid hi hi' : Nat} {b c : B} {xs ys upper lower : List B}

theorem Ascending.le (asc : Ascending start size lo xs hi) : lo ≤ hi := by
  induction xs generalizing lo with
  | nil => exact asc
  | cons b rest ih =>
    have after := ih asc.2
    have front := asc.1
    omega

theorem Ascending.mono (asc : Ascending start size lo xs hi) (low : lo' ≤ lo) (high : hi ≤ hi') :
    Ascending start size lo' xs hi' := by
  induction xs generalizing lo lo' with
  | nil => exact Nat.le_trans (Nat.le_trans low asc) high
  | cons b rest ih => exact ⟨Nat.le_trans low asc.1, ih asc.2 (Nat.le_refl _)⟩

theorem Ascending.append (first : Ascending start size lo xs mid) (second : Ascending start size mid ys hi) :
    Ascending start size lo (xs ++ ys) hi := by
  induction xs generalizing lo with
  | nil => exact second.mono first (Nat.le_refl _)
  | cons b rest ih => exact ⟨first.1, ih first.2⟩

theorem Ascending.split (asc : Ascending start size lo (xs ++ ys) hi) :
    ∃ mid, Ascending start size lo xs mid ∧ Ascending start size mid ys hi := by
  induction xs generalizing lo with
  | nil => exact ⟨lo, Nat.le_refl _, asc⟩
  | cons b rest ih =>
    obtain ⟨mid, first, second⟩ := ih asc.2
    exact ⟨mid, ⟨asc.1, first⟩, second⟩

theorem Ascending.congr (asc : Ascending start size lo xs hi)
    (same : ∀ b ∈ xs, start' b = start b ∧ size' b = size b) : Ascending start' size' lo xs hi := by
  induction xs generalizing lo with
  | nil => exact asc
  | cons b rest ih =>
    obtain ⟨place, length⟩ := same b List.mem_cons_self
    refine ⟨place ▸ asc.1, ?_⟩
    rw [place, length]
    exact ih asc.2 fun c inside => same c (List.mem_cons_of_mem _ inside)

theorem Ascending.remove (asc : Ascending start size lo (xs ++ b :: ys) hi) :
    Ascending start size lo (xs ++ ys) hi := by
  obtain ⟨mid, first, low, second⟩ := asc.split
  exact first.append (second.mono (by omega) (Nat.le_refl _))

theorem Ascending.inside (asc : Ascending start size lo xs hi) (member : b ∈ xs) :
    lo ≤ start b ∧ start b + size b ≤ hi := by
  obtain ⟨first, rest, rfl⟩ := List.append_of_mem member
  obtain ⟨mid, front, low, back⟩ := asc.split
  exact ⟨Nat.le_trans front.le low, back.le⟩

theorem Ascending.ordered (asc : Ascending start size lo xs hi) :
    xs.Pairwise fun a b => start a + size a ≤ start b := by
  induction xs generalizing lo with
  | nil => exact .nil
  | cons b rest ih => exact List.pairwise_cons.mpr ⟨fun c member => (asc.2.inside member).1, ih asc.2⟩

/-- From the oldest to the newest, the intervals are `upper` and then `lower`: `lower` lies in front of the
oldest one, and does not start with it. -/
structure Round (start size : B → Nat) (lo hi : Nat) (upper lower : List B) : Prop where
  ascending : Ascending start size lo (lower ++ upper) hi
  behind : ∀ b ∈ lower, ∀ oldest ∈ upper.head?, start b < start oldest
  first : upper = [] → lower = []

namespace Round

variable (round : Round start size lo hi upper lower)
include round

theorem apart : (upper ++ lower).Pairwise fun a b => start a + size a ≤ start b ∨ start b + size b ≤ start a := by
  have ordered := round.ascending.ordered
  have sym : (lower ++ upper).Pairwise fun a b => start a + size a ≤ start b ∨ start b + size b ≤ start a :=
    ordered.imp fun before => Or.inl before
  refine (List.perm_append_comm.pairwise_iff ?_).mp sym
  rintro a b (before | behind)
  · exact Or.inr before
  · exact Or.inl behind

theorem inside (member : b ∈ upper ++ lower) : lo ≤ start b ∧ start b + size b ≤ hi := by
  apply round.ascending.inside
  rw [List.mem_append] at member ⊢
  exact member.symm

theorem congr (same : ∀ b ∈ upper ++ lower, start' b = start b ∧ size' b = size b) :
    Round start' size' lo hi upper lower where
  ascending := round.ascending.congr fun b member => same b (List.mem_append.mpr (List.mem_append.mp member).symm)
  behind := by
    intro b member oldest head
    rw [(same b (List.mem_append_right _ member)).1,
      (same oldest (List.mem_append_left _ (List.mem_of_mem_head? head))).1]
    exact round.behind b member oldest head
  first := round.first

theorem erase {before after : List B} (cut : upper ++ lower = before ++ b :: after) :
    ∃ upper' lower', before ++ after = upper' ++ lower' ∧ Round start size lo hi upper' lower' := by
  rcases List.append_eq_append_iff.mp cut with ⟨front, rfl, same⟩ | ⟨back, rfl, same⟩
  · -- the interval is in `lower`
    refine ⟨upper, front ++ after, by simp, ?_, ?_, ?_⟩
    · have asc := round.ascending
      rw [same, List.append_assoc, List.cons_append] at asc
      rw [List.append_assoc]
      exact asc.remove
    · intro c member oldest head
      apply round.behind c _ oldest head
      rw [same]
      simp only [List.mem_append, List.mem_cons] at member ⊢
      tauto
    · intro empty
      have none := round.first empty
      rw [same] at none
      simp at none
  · cases back with
    | nil =>
      -- it is the oldest one of `lower`
      have asc := round.ascending
      rw [List.nil_append] at same
      rw [← same, List.append_nil] at *
      refine ⟨before, after, rfl, asc.2.mono (by have := asc.1; omega) (Nat.le_refl _), ?_, ?_⟩
      · exact fun c member => round.behind c (List.mem_cons_of_mem _ member)
      · intro empty
        cases round.first empty
    | cons d back =>
      obtain ⟨rfl, rfl⟩ := List.cons.inj same
      have asc := round.ascending
      cases before with
      | nil =>
        -- the oldest one goes; without others in `upper`, `lower` is the oldest part
        cases back with
        | nil =>
          refine ⟨lower, [], by simp, ?_, by simp, fun _ => rfl⟩
          rw [List.nil_append] at asc ⊢
          simpa using asc.remove
        | cons e back =>
          refine ⟨e :: back, lower, by simp, asc.remove, ?_, by simp⟩
          intro c member oldest head
          obtain rfl : e = oldest := by simpa using head
          have old := round.behind c member b (by simp)
          obtain ⟨mid, -, low, next, -⟩ := asc.split
          omega
      | cons e before =>
        refine ⟨e :: before ++ back, lower, by simp, ?_, ?_, by simp⟩
        · have split : lower ++ (e :: before ++ b :: back) = (lower ++ e :: before) ++ b :: back := by simp
          rw [split] at asc
          simpa using asc.remove
        · exact fun c member oldest head => round.behind c member oldest (by simpa using head)

end Round

theorem Round.single (low : lo ≤ start b) (high : start b + size b ≤ hi) : Round start size lo hi [b] [] :=
  ⟨⟨low, high⟩, by simp, by simp⟩

theorem Round.extend (round : Round start size lo hi (xs ++ [b]) []) (low : start b + size b ≤ start c)
    (high : start c + size c ≤ hi) : Round start size lo hi (xs ++ [b] ++ [c]) [] := by
  have asc : Ascending start size lo (xs ++ [b]) hi := round.ascending
  obtain ⟨mid, first, front, -⟩ := asc.split
  refine ⟨?_, by simp, by simp⟩
  have tail : Ascending start size mid ([b] ++ [c]) hi := ⟨front, low, high⟩
  simpa using first.append tail

theorem Round.wrap (round : Round start size lo hi (b :: xs) []) (place : start c = lo) (some : 0 < size c)
    (room : start c + size c ≤ start b) : Round start size lo hi (b :: xs) [c] := by
  obtain ⟨low, rest⟩ := round.ascending
  refine ⟨⟨by omega, room, rest⟩, ?_, by simp⟩
  intro d member oldest head
  obtain rfl : d = c := by simpa using member
  obtain rfl : b = oldest := by simpa using head
  omega

theorem Round.fill {d : B} (round : Round start size lo hi (b :: xs) (ys ++ [c])) (low : start c + size c ≤ start d)
    (less : start d < start b) (room : start d + size d ≤ start b) :
    Round start size lo hi (b :: xs) (ys ++ [c] ++ [d]) := by
  have asc := round.ascending
  rw [List.append_assoc] at asc
  obtain ⟨mid, first, front, -, rest⟩ := asc.split
  refine ⟨?_, ?_, by simp⟩
  · have tail : Ascending start size mid ([c] ++ ([d] ++ b :: xs)) hi := ⟨front, low, room, rest⟩
    simpa using first.append tail
  · intro e member oldest head
    rw [List.mem_append, List.mem_singleton] at member
    rcases member with old | rfl
    · exact round.behind e old oldest head
    · obtain rfl : b = oldest := by simpa using head
      exact less

end RtThread.Lib
