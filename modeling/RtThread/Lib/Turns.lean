import Mathlib.Data.Finset.Card

/-! Waiting lines in which one may leave, join at the end, or jump in front: how far one gets to the front while
others are served, and which wake-ups are still owed. -/

set_option autoImplicit false
namespace RtThread.Lib

/-! ## Places in the line -/

section
variable {α : Type} [DecidableEq α] {x a : α} {l l' l'' : List α} {served jumped served' jumped' : Nat}

/-- From one line to another `x` stays, and its place gets better by the number of those served, but for those that
jumped in front. -/
def Advances (x : α) (l l' : List α) (served jumped : Nat) : Prop :=
  x ∈ l → x ∈ l' ∧ l'.idxOf x + served ≤ l.idxOf x + jumped

namespace Advances

theorem refl (x : α) (l : List α) : Advances x l l 0 0 := fun inside => ⟨inside, Nat.le_refl _⟩

theorem trans (first : Advances x l l' served jumped) (second : Advances x l' l'' served' jumped') :
    Advances x l l'' (served + served') (jumped + jumped') := by
  intro inside
  obtain ⟨stays, before⟩ := first inside
  obtain ⟨still, after⟩ := second stays
  exact ⟨still, by omega⟩

theorem leave (other : x ≠ a) (l : List α) : Advances x l (l.erase a) 0 0 := by
  intro inside
  refine ⟨(List.mem_erase_of_ne other).mpr inside, ?_⟩
  induction l with
  | nil => exact Nat.le_refl _
  | cons b rest ih =>
    by_cases first : b = a
    · rw [first, List.erase_cons_head, List.idxOf_cons_ne _ other.symm]
      exact Nat.le_succ _
    · rw [List.erase_cons_tail (by simpa using first)]
      by_cases own : b = x
      · simp only [own, List.idxOf_cons_self, Nat.le_refl]
      · rw [List.idxOf_cons_ne _ own, List.idxOf_cons_ne _ own]
        have later : x ∈ rest := List.mem_of_ne_of_mem (Ne.symm own) inside
        exact Nat.succ_le_succ (ih later)

theorem join (x a : α) (l : List α) : Advances x l (l ++ [a]) 0 0 := fun inside =>
  ⟨List.mem_append_left _ inside, Nat.le_of_eq (List.idxOf_append_of_mem inside)⟩

theorem jump (other : x ≠ a) (l : List α) : Advances x l (a :: l) 0 1 := fun inside =>
  ⟨List.mem_cons_of_mem _ inside, Nat.le_of_eq (List.idxOf_cons_ne _ other.symm)⟩

theorem serve (other : x ≠ a) (l : List α) : Advances x (a :: l) l 1 0 := fun inside =>
  ⟨List.mem_of_ne_of_mem other inside, Nat.le_of_eq (List.idxOf_cons_ne _ other.symm).symm⟩

end Advances

end

/-! ## Wake-ups -/

variable {T : Type}

def Promised (units : Nat) (waiting : List T) (woken : Finset T) : Prop :=
  waiting ≠ [] → units ≤ woken.card

theorem Promised.of_none {units : Nat} {waiting : List T} {woken : Finset T} (none : units = 0) :
    Promised units waiting woken := by
  intro _
  omega

theorem Promised.of_nobody {units : Nat} {waiting : List T} {woken : Finset T} (nobody : waiting = []) :
    Promised units waiting woken :=
  fun someone => absurd nobody someone

theorem Promised.change {units units' : Nat} {waiting waiting' : List T} {woken woken' : Finset T}
    (held : Promised units waiting woken) (still : waiting' ≠ [] → waiting ≠ [])
    (paid : units' + woken.card ≤ units + woken'.card) : Promised units' waiting' woken' := by
  intro someone
  have before := held (still someone)
  omega

variable [DecidableEq T] {woken woken' : Finset T}

theorem card_except (t : T) (same : ∀ u, u ≠ t → u ∈ woken → u ∈ woken') :
    woken.card ≤ woken'.card + 1 := by
  have sub : woken ⊆ insert t woken' := by
    intro u inside
    by_cases own : u = t
    · exact own ▸ Finset.mem_insert_self t woken'
    · exact Finset.mem_insert_of_mem (same u own inside)
  exact (Finset.card_le_card sub).trans (Finset.card_insert_le t woken')

theorem card_gain (t : T) (fresh : t ∉ woken) (got : t ∈ woken')
    (same : ∀ u, u ∈ woken → u ∈ woken') : woken.card + 1 ≤ woken'.card := by
  rw [← Finset.card_insert_of_notMem fresh]
  apply Finset.card_le_card
  exact Finset.insert_subset got same

end RtThread.Lib
