/-! A loop whose rounds go on until one finds nothing to do: a measure that every round lowers ends it, and an invariant
under which every round finds something keeps it going for ever. -/

set_option autoImplicit false
namespace RtThread.Lib

variable {State : Type}

/-- Rounds from `s` on; `none` when the fuel does not last. -/
def rounds (round : State → Option State) : Nat → State → Option State
  | 0, _ => none
  | fuel + 1, s =>
    match round s with
    | none => some s
    | some next => rounds round fuel next

/-- The loop from `s` on comes to an end. -/
def Ends (round : State → Option State) (s : State) : Prop := ∃ fuel, (rounds round fuel s).isSome = true

variable {round : State → Option State} {s : State}

theorem rounds_of_measure (Inv : State → Prop) {measure : State → Nat}
    (lower : ∀ s next, Inv s → round s = some next → Inv next ∧ measure next < measure s) {fuel : Nat} (start : Inv s)
    (enough : measure s < fuel) : (rounds round fuel s).isSome = true := by
  induction fuel generalizing s with
  | zero => exact absurd enough (Nat.not_lt_zero _)
  | succ fuel ih =>
    rw [rounds]
    cases taken : round s with
    | none => rfl
    | some next =>
      obtain ⟨kept, less⟩ := lower s next start taken
      exact ih kept (Nat.lt_of_lt_of_le less (Nat.le_of_lt_succ enough))

theorem Ends.of_measure (Inv : State → Prop) {measure : State → Nat}
    (lower : ∀ s next, Inv s → round s = some next → Inv next ∧ measure next < measure s) (start : Inv s) :
    Ends round s :=
  ⟨measure s + 1, rounds_of_measure Inv lower start (Nat.lt_succ_self _)⟩

theorem not_ends (Inv : State → Prop) (goes : ∀ s, Inv s → ∃ next, round s = some next ∧ Inv next) (start : Inv s) :
    ¬Ends round s := by
  rintro ⟨fuel, done⟩
  induction fuel generalizing s with
  | zero => cases done
  | succ fuel ih =>
    obtain ⟨next, taken, kept⟩ := goes s start
    rw [rounds, taken] at done
    exact ih kept done

theorem Ends.of_related {Other : Type} {round' : Other → Option Other} (rel : State → Other → Prop)
    (agree : ∀ s t, rel s t → round s = none ∧ round' t = none ∨
      ∃ s' t', round s = some s' ∧ round' t = some t' ∧ rel s' t')
    {t : Other} (start : rel s t) : Ends round s ↔ Ends round' t := by
  have same : ∀ fuel s t, rel s t → (rounds round fuel s).isSome = (rounds round' fuel t).isSome := by
    intro fuel
    induction fuel with
    | zero => intro s t _; rfl
    | succ fuel ih =>
      intro s t related
      rw [rounds, rounds]
      rcases agree s t related with ⟨none, none'⟩ | ⟨s', t', some, some', related'⟩
      · rw [none, none']
        rfl
      · rw [some, some']
        exact ih s' t' related'
  exact exists_congr fun fuel => by rw [same fuel s t start]

end RtThread.Lib
