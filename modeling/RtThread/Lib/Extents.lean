import Mathlib.Algebra.GroupWithZero.Nat
import Mathlib.Data.List.Perm.Basic

/-! Runs of places on a number line: which places a list of them holds and how often, and lists of runs in order with
gaps between them. -/

set_option autoImplicit false
namespace RtThread.Lib

/-- The `count` places from `start` on. -/
structure Extent where
  start : Nat
  count : Nat
  deriving DecidableEq, Repr

def Extent.Holds (e : Extent) (x : Nat) : Prop := e.start ≤ x ∧ x < e.start + e.count

instance (e : Extent) (x : Nat) : Decidable (e.Holds x) := inferInstanceAs (Decidable (_ ∧ _))

def hits (es : List Extent) (x : Nat) : Nat := es.countP fun e => decide (e.Holds x)

def places (es : List Extent) : Nat := (es.map Extent.count).sum

section
variable {es fs : List Extent} {e f : Extent} {x lo hi : Nat}

@[simp] theorem hits_nil : hits [] x = 0 := rfl

theorem hits_cons : hits (e :: es) x = hits es x + if e.Holds x then 1 else 0 := by
  simp only [hits, List.countP_cons, decide_eq_true_eq]

@[simp] theorem hits_append : hits (es ++ fs) x = hits es x + hits fs x := List.countP_append ..

@[simp] theorem places_nil : places [] = 0 := rfl

@[simp] theorem places_cons : places (e :: es) = e.count + places es := by simp [places]

@[simp] theorem places_append : places (es ++ fs) = places es + places fs := by simp [places]

theorem hits_pos (member : e ∈ es) (holds : e.Holds x) : 0 < hits es x :=
  List.countP_pos_iff.mpr ⟨e, member, decide_eq_true holds⟩

/-! ## The same places in other pieces -/

structure Recut (es fs : List Extent) : Prop where
  hits : ∀ x, hits es x = hits fs x
  places : places es = places fs

namespace Recut

theorem refl (es : List Extent) : Recut es es := ⟨fun _ => rfl, rfl⟩

theorem symm (same : Recut es fs) : Recut fs es := ⟨fun x => (same.hits x).symm, same.places.symm⟩

theorem trans {gs : List Extent} (first : Recut es fs) (second : Recut fs gs) : Recut es gs :=
  ⟨fun x => (first.hits x).trans (second.hits x), first.places.trans second.places⟩

theorem append {es' fs' : List Extent} (first : Recut es fs) (second : Recut es' fs') :
    Recut (es ++ es') (fs ++ fs') where
  hits x := by rw [hits_append, hits_append, first.hits, second.hits]
  places := by rw [places_append, places_append, first.places, second.places]

theorem cons (e : Extent) (same : Recut es fs) : Recut (e :: es) (e :: fs) := append (refl [e]) same

theorem perm (same : es.Perm fs) : Recut es fs where
  hits _ := same.countP_eq _
  places := (same.map Extent.count).sum_nat

theorem cut (start first second : Nat) : Recut [⟨start, first + second⟩] [⟨start, first⟩, ⟨start + first, second⟩] where
  hits x := by
    have whole : (⟨start, first + second⟩ : Extent).Holds x ↔
        (⟨start, first⟩ : Extent).Holds x ∨ (⟨start + first, second⟩ : Extent).Holds x := by
      simp only [Extent.Holds]
      omega
    have once : (⟨start, first⟩ : Extent).Holds x → ¬(⟨start + first, second⟩ : Extent).Holds x := by
      simp only [Extent.Holds]
      omega
    simp only [hits_cons, hits_nil, whole]
    by_cases one : (⟨start, first⟩ : Extent).Holds x
    · simp [one, once one]
    · simp [one]
  places := by simp

end Recut

/-! ## A tiled interval -/

/-- The extents hold every place from `lo` to `hi` once, and no other. -/
structure Exact (lo hi : Nat) (es : List Extent) : Prop where
  hits : ∀ x, hits es x = if lo ≤ x ∧ x < hi then 1 else 0
  places : places es = hi - lo

theorem Exact.recut (exact : Exact lo hi es) (same : Recut es fs) : Exact lo hi fs where
  hits x := by rw [← same.hits, exact.hits]
  places := by rw [← same.places, exact.places]

theorem Exact.le_one (exact : Exact lo hi es) (x : Nat) : Lib.hits es x ≤ 1 := by
  rw [exact.hits]
  split <;> omega

theorem Exact.within (exact : Exact lo hi es) (member : e ∈ es) (holds : e.Holds x) : lo ≤ x ∧ x < hi := by
  have positive := hits_pos member holds
  rw [exact.hits] at positive
  by_contra out
  rw [if_neg out] at positive
  exact Nat.lt_irrefl 0 positive

theorem Exact.inside (exact : Exact lo hi es) (member : e ∈ es) (positive : 0 < e.count) :
    lo ≤ e.start ∧ e.start + e.count ≤ hi := by
  have first := exact.within (x := e.start) member ⟨by omega, by omega⟩
  have last := exact.within (x := e.start + e.count - 1) member ⟨by omega, by omega⟩
  omega

theorem Exact.apart (exact : Exact lo hi (es ++ fs)) (early : e ∈ es) (late : f ∈ fs) (first : e.Holds x) :
    ¬f.Holds x := by
  intro second
  have le := exact.le_one x
  have one := hits_pos early first
  have two := hits_pos late second
  rw [hits_append] at le
  omega

theorem pairwise_of_hits (once : ∀ x, Lib.hits es x ≤ 1) : es.Pairwise fun e f => ∀ x, e.Holds x → ¬f.Holds x := by
  induction es with
  | nil => exact .nil
  | cons e rest ih =>
    refine List.pairwise_cons.mpr ⟨fun f member x first second => ?_, ih fun x => ?_⟩
    · have le := once x
      have two := hits_pos member second
      rw [hits_cons, if_pos first] at le
      omega
    · have le := once x
      rw [hits_cons] at le
      omega

theorem apart_of_holds (apart : ∀ x, e.Holds x → ¬f.Holds x) (first : 0 < e.count) (second : 0 < f.count) :
    e.start + e.count ≤ f.start ∨ f.start + f.count ≤ e.start := by
  by_contra both
  have one : ¬(f.Holds e.start) := apart e.start ⟨Nat.le_refl _, by omega⟩
  have two : ¬(e.Holds f.start) := fun holds => apart f.start holds ⟨Nat.le_refl _, by omega⟩
  simp only [Extent.Holds, not_and, Nat.not_lt] at one two
  omega

/-! ## Extents in order -/

structure Coalesced (es : List Extent) : Prop where
  positive : ∀ e ∈ es, 0 < e.count
  apart : es.Pairwise fun e f => e.start + e.count < f.start

theorem Coalesced.nil : Coalesced [] := ⟨nofun, .nil⟩

theorem Coalesced.tail (coalesced : Coalesced (e :: es)) : Coalesced es where
  positive f member := coalesced.positive f (List.mem_cons_of_mem _ member)
  apart := (List.pairwise_cons.mp coalesced.apart).2

theorem Coalesced.first (coalesced : Coalesced (e :: es)) (member : f ∈ es) : e.start + e.count < f.start :=
  (List.pairwise_cons.mp coalesced.apart).1 f member

theorem Coalesced.cons (coalesced : Coalesced es) (positive : 0 < e.count)
    (before : ∀ f ∈ es, e.start + e.count < f.start) : Coalesced (e :: es) where
  positive := List.forall_mem_cons.mpr ⟨positive, coalesced.positive⟩
  apart := List.pairwise_cons.mpr ⟨before, coalesced.apart⟩

end

end RtThread.Lib
