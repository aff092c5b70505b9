import Mathlib.Data.List.Perm.Basic
import Mathlib.Data.List.Nodup

/-! Tokens that are free or in the hands of one holder, and how a token changes hands. -/

set_option autoImplicit false
namespace RtThread.Lib

variable {Token Holder : Type}

/-- Each token of `all` is free, or just one holder has it, once. -/
structure Custody (all free : List Token) (held : Holder → List Token) : Prop where
  once (t : Holder) : (held t).Nodup
  apart {t u : Holder} {token : Token} : token ∈ held t → token ∈ held u → t = u
  freeOnce : free.Nodup
  notFree {t : Holder} {token : Token} : token ∈ held t → token ∉ free
  known {t : Holder} {token : Token} : token ∈ held t → token ∈ all
  freeKnown {token : Token} : token ∈ free → token ∈ all
  kept {token : Token} : token ∈ all → token ∈ free ∨ ∃ t, token ∈ held t

namespace Custody
variable {all free : List Token} {held held' : Holder → List Token} {t u : Holder} {token : Token}

theorem start (nodup : all.Nodup) : Custody all all fun _ : Holder => [] where
  once _ := List.nodup_nil
  apart inside := absurd inside List.not_mem_nil
  freeOnce := nodup
  notFree inside := absurd inside List.not_mem_nil
  known inside := absurd inside List.not_mem_nil
  freeKnown := id
  kept := Or.inl

theorem holder (c : Custody all free held) (inside : token ∈ all) (busy : token ∉ free) :
    ∃! t, token ∈ held t := by
  obtain ⟨t, has⟩ := (c.kept inside).resolve_left busy
  exact ⟨t, has, fun u also => c.apart also has⟩

theorem same (c : Custody all free held) (hands : ∀ t, (held' t).Perm (held t)) : Custody all free held' where
  once t := (hands t).nodup_iff.mpr (c.once t)
  apart one other := c.apart ((hands _).mem_iff.mp one) ((hands _).mem_iff.mp other)
  freeOnce := c.freeOnce
  notFree has := c.notFree ((hands _).mem_iff.mp has)
  known has := c.known ((hands _).mem_iff.mp has)
  freeKnown := c.freeKnown
  kept inside := (c.kept inside).imp_right fun ⟨t, has⟩ => ⟨t, (hands t).mem_iff.mpr has⟩

theorem freePerm {free' : List Token} (c : Custody all free held) (perm : free'.Perm free) : Custody all free' held where
  once := c.once
  apart := c.apart
  freeOnce := perm.nodup_iff.mpr c.freeOnce
  notFree has inside := c.notFree has (perm.mem_iff.mp inside)
  known := c.known
  freeKnown inside := c.freeKnown (perm.mem_iff.mp inside)
  kept inside := (c.kept inside).imp_left perm.mem_iff.mpr

section change
variable [DecidableEq Holder]

theorem take (c : Custody all (token :: free) held) (own : (held' t).Perm (token :: held t))
    (others : ∀ u, u ≠ t → (held' u).Perm (held u)) : Custody all free held' := by
  have fresh (u : Holder) : token ∉ held u := fun has => c.notFree has (List.mem_cons_self)
  have cases' {u : Holder} {x : Token} (has : x ∈ held' u) : x ∈ held u ∨ x = token ∧ u = t := by
    by_cases mine : u = t
    · rw [mine] at has ⊢
      exact (List.mem_cons.mp (own.mem_iff.mp has)).symm.imp_right fun same => ⟨same, rfl⟩
    · exact Or.inl ((others u mine).mem_iff.mp has)
  refine ⟨fun u => ?_, fun {u v x} one other => ?_, (List.nodup_cons.mp c.freeOnce).2, fun {u x} has free => ?_,
    fun {u x} has => ?_, fun inside => c.freeKnown (List.mem_cons_of_mem _ inside), fun {x} inside => ?_⟩
  · by_cases mine : u = t
    · rw [mine, own.nodup_iff]
      exact List.nodup_cons.mpr ⟨fresh t, c.once t⟩
    · exact (others u mine).nodup_iff.mpr (c.once u)
  · rcases cases' one with one | ⟨rfl, rfl⟩
    · rcases cases' other with other | ⟨rfl, rfl⟩
      · exact c.apart one other
      · exact absurd one (fresh u)
    · rcases cases' other with other | ⟨_, rfl⟩
      · exact absurd other (fresh v)
      · rfl
  · rcases cases' has with has | ⟨rfl, _⟩
    · exact c.notFree has (List.mem_cons_of_mem _ free)
    · exact (List.nodup_cons.mp c.freeOnce).1 free
  · rcases cases' has with has | ⟨rfl, _⟩
    · exact c.known has
    · exact c.freeKnown List.mem_cons_self
  · rcases c.kept inside with free | ⟨u, has⟩
    · rcases List.mem_cons.mp free with rfl | free
      · exact Or.inr ⟨t, own.mem_iff.mpr List.mem_cons_self⟩
      · exact Or.inl free
    · refine Or.inr ⟨u, ?_⟩
      by_cases mine : u = t
      · rw [mine] at has ⊢
        exact own.mem_iff.mpr (List.mem_cons_of_mem _ has)
      · exact (others u mine).mem_iff.mpr has

theorem give (c : Custody all free held) (own : (held t).Perm (token :: held' t))
    (others : ∀ u, u ≠ t → (held' u).Perm (held u)) : Custody all (token :: free) held' := by
  have had : token ∈ held t := own.mem_iff.mpr List.mem_cons_self
  have nodup := List.nodup_cons.mp (own.nodup_iff.mp (c.once t))
  have before {u : Holder} {x : Token} (has : x ∈ held' u) : x ∈ held u := by
    by_cases mine : u = t
    · rw [mine] at has ⊢
      exact own.mem_iff.mpr (List.mem_cons_of_mem _ has)
    · exact (others u mine).mem_iff.mp has
  refine ⟨fun u => ?_, fun one other => c.apart (before one) (before other), List.nodup_cons.mpr ⟨c.notFree had, c.freeOnce⟩,
    fun {u x} has free => ?_, fun has => c.known (before has), fun inside => ?_, fun {x} inside => ?_⟩
  · by_cases mine : u = t
    · rw [mine]
      exact nodup.2
    · exact (others u mine).nodup_iff.mpr (c.once u)
  · rcases List.mem_cons.mp free with rfl | free
    · have mine : u = t := c.apart (before has) had
      rw [mine] at has
      exact nodup.1 has
    · exact c.notFree (before has) free
  · rcases List.mem_cons.mp inside with rfl | free
    · exact c.known had
    · exact c.freeKnown free
  · rcases c.kept inside with free | ⟨u, has⟩
    · exact Or.inl (List.mem_cons_of_mem _ free)
    · by_cases mine : u = t
      · rw [mine] at has
        rcases List.mem_cons.mp (own.mem_iff.mp has) with rfl | has
        · exact Or.inl List.mem_cons_self
        · exact Or.inr ⟨t, has⟩
      · exact Or.inr ⟨u, (others u mine).mem_iff.mpr has⟩

theorem move (c : Custody all free held) (apart : t ≠ u) (own : (held t).Perm (token :: held' t))
    (his : (held' u).Perm (token :: held u)) (others : ∀ v, v ≠ t → v ≠ u → (held' v).Perm (held v)) :
    Custody all free held' := by
  have given : Custody all (token :: free) (Function.update held t (held' t)) := by
    refine c.give (t := t) (by rwa [Function.update_self]) fun v other => ?_
    rw [Function.update_of_ne other]
  refine given.take (t := u) (by rwa [Function.update_of_ne apart.symm]) fun v other => ?_
  by_cases mine : v = t
  · rw [mine, Function.update_self]
  · rw [Function.update_of_ne mine]
    exact others v mine other

end change
end Custody
end RtThread.Lib
